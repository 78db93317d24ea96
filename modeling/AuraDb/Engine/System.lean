import AuraDb.Engine.Submit
import AuraDb.Library.Run

/-! Whole runs of an engine on one node: any interleaving of transactions, auto-commit mutations, garbage
collection and reaping. What one step can do is said once; the invariants of runs follow from it. -/
namespace AuraDb
open Library Library.TreeMap Std

structure System where
  engine : Engine
  handles : ExtTreeMap TxnId Transaction compare

inductive Act where
  | begin (now : Nat) (connectionId : Option Nat)
  | stage (id : TxnId) (m : Mutation) (now : Nat)
  | read (id : TxnId) (now : Nat)
  | commit (id : TxnId) (io : Result Unit)
  | rollback (id : TxnId)
  | mutate (m : Mutation) (io : Result Unit)
  | gc (rewritten : Result Nat)
  | reap (now : Nat)

/-- Its timestamp, the transaction if it was one, and the storage right after it. -/
structure Committed where
  ts : Nat
  txn : Option Transaction
  after : Storage
  deriving DecidableEq

def Committed.Wrote (ev : Committed) (k : Key) : Prop := ev.after.latestCommitTs k.collection k.id = some ev.ts

namespace System

def committed (before after : Engine) (txn : Option Transaction) : List Committed :=
  if after.storage.lastCommitTs = before.storage.lastCommitTs then []
  else [⟨after.storage.lastCommitTs,txn,after.storage⟩]

section
variable {e e' : Engine} {s s' : System} {a : Act}

def Registered (e e' : Engine) : Prop :=
  ∀ (id : TxnId) entry', e'.txns[id]? = some entry' →
    (∃ entry, e.txns[id]? = some entry ∧ entry.readTs = entry'.readTs ∧
      (entry'.state = .active → entry.state = .active)) ∨
    (id = e.clock ∧ e'.clock = e.clock + 1 ∧ entry'.readTs = e.storage.lastCommitTs)

def Holding (s s' : System) : Prop :=
  ∀ (id : TxnId) txn', s'.handles[id]? = some txn' →
    (∃ txn, s.handles[id]? = some txn ∧ txn'.id = txn.id ∧ txn'.readTs = txn.readTs ∧
      ∀ entry, s.engine.txns[id]? = some entry → ∃ entry', s'.engine.txns[id]? = some entry' ∧
        entry'.readTs = entry.readTs) ∨
    (id = s.engine.clock ∧ txn'.id = id ∧ txn'.readTs = s.engine.storage.lastCommitTs ∧
      ∃ entry', s'.engine.txns[id]? = some entry' ∧ entry'.readTs = s.engine.storage.lastCommitTs)

/-- Handles are registered, and what the registry pins is not in the future. -/
structure Tracked (s : System) : Prop where
  wellFormed : s.engine.storage.WellFormed
  pinned : ∀ (id : TxnId) entry, s.engine.txns[id]? = some entry →
    entry.readTs ≤ s.engine.storage.lastCommitTs ∧ id < s.engine.clock
  held : ∀ (id : TxnId) txn, s.handles[id]? = some txn → txn.id = id ∧
    ∃ entry, s.engine.txns[id]? = some entry ∧ entry.readTs = txn.readTs
  retained : 0 < s.engine.gcMinRetainedVersions

private theorem registered_same (same : e'.txns = e.txns) : Registered e e' := by
  intro id entry' found
  rw [same] at found
  exact Or.inl ⟨entry',found,rfl,fun active => active⟩

private theorem registered_erase (gone : TxnId) (same : e'.txns = e.txns.erase gone) : Registered e e' := by
  intro id entry' found
  rw [same] at found
  exact Or.inl ⟨entry',(of_getElem?_erase found).2,rfl,fun active => active⟩

private theorem holding_same (handles : s'.handles = s.handles)
    (kept : ∀ (id : TxnId) entry, s.engine.txns[id]? = some entry → ∃ entry', s'.engine.txns[id]? = some entry' ∧
      entry'.readTs = entry.readTs) : Holding s s' := by
  intro id txn' found
  rw [handles] at found
  exact Or.inl ⟨txn',found,rfl,rfl,kept id⟩

private theorem holding_erase (tracked : Tracked s) {id : TxnId} {txn : Transaction} (held : s.handles[id]? = some txn)
    (handles : s'.handles = s.handles.erase id)
    (txns : s'.engine.txns = s.engine.txns.erase txn.id) : Holding s s' := by
  intro id' txn' found
  rw [handles] at found
  obtain ⟨other,before⟩ := of_getElem?_erase found
  refine Or.inl ⟨txn',before,rfl,rfl,?_⟩
  intro entry registered
  refine ⟨entry,?_,rfl⟩
  rw [txns,getElem?_erase_eq,(tracked.held id txn held).1,if_neg (Ne.symm other)]
  exact registered

theorem touchTxn_effect (e : Engine) (id : TxnId) (now : Nat) :
    (e.touchTxn id now).1.storage = e.storage ∧ (e.touchTxn id now).1.indexes = e.indexes ∧
      (e.touchTxn id now).1.clock = e.clock ∧
      (e.touchTxn id now).1.gcMinRetainedVersions = e.gcMinRetainedVersions ∧
      Registered e (e.touchTxn id now).1 ∧
      ∀ (id' : TxnId) entry, e.txns[id']? = some entry → ∃ entry', (e.touchTxn id now).1.txns[id']? = some entry' ∧
        entry'.readTs = entry.readTs := by
  have same (e' : Engine) (txns : e'.txns = e.txns) : Registered e e' ∧ ∀ (id' : TxnId) entry,
      e.txns[id']? = some entry → ∃ entry', e'.txns[id']? = some entry' ∧ entry'.readTs = entry.readTs :=
    ⟨registered_same txns,fun id' entry found => ⟨entry,txns ▸ found,rfl⟩⟩
  unfold Engine.touchTxn
  cases known : e.txns[id]? with
  | none => exact ⟨rfl,rfl,rfl,rfl,same e rfl⟩
  | some entry =>
    cases state : entry.state with
    | timedOut =>
      simp only [state]
      exact ⟨trivial,trivial,trivial,trivial,same e rfl⟩
    | active =>
      simp only [state]
      refine ⟨trivial,trivial,trivial,trivial,?_,?_⟩
      · apply forall_insert
        · exact Or.inl ⟨entry,known,rfl,fun _ => state⟩
        · intro id' entry' _ found
          exact Or.inl ⟨entry',found,rfl,fun active => active⟩
      · intro id' entry' found
        rw [getElem?_insert_eq]
        split
        · rename_i own
          rw [← own,known] at found
          cases found
          exact ⟨_,rfl,rfl⟩
        · exact ⟨entry',found,rfl⟩

private theorem committed_none (e e' : Engine) (same : e'.storage.lastCommitTs = e.storage.lastCommitTs)
    (txn : Option Transaction) : committed e e' txn = [] := by simp [committed,same]

private theorem reap_effect (e : Engine) (now : Nat) :
    (e.reapTransactions now).1.storage = e.storage ∧ (e.reapTransactions now).1.indexes = e.indexes ∧
      Registered e (e.reapTransactions now).1 ∧ (e.reapTransactions now).1.clock = e.clock ∧
      (e.reapTransactions now).1.gcMinRetainedVersions = e.gcMinRetainedVersions ∧
      ∀ (id : TxnId) entry, e.txns[id]? = some entry → ∃ entry', (e.reapTransactions now).1.txns[id]? = some entry' ∧
        entry'.readTs = entry.readTs := by
  unfold Engine.reapTransactions
  split
  · exact ⟨rfl,rfl,registered_same rfl,rfl,rfl,fun id entry found => ⟨entry,found,rfl⟩⟩
  · refine ⟨rfl,rfl,?_,rfl,rfl,?_⟩
    · intro id entry' found
      simp only [ExtTreeMap.getElem?_map,Option.map_eq_some_iff] at found
      obtain ⟨entry,before,rfl⟩ := found
      refine Or.inl ⟨entry,before,?_,?_⟩
      · split <;> rfl
      · split
        · intro active
          cases active
        · exact fun active => active
    · intro id entry found
      simp only [ExtTreeMap.getElem?_map,found,Option.map_some]
      refine ⟨_,rfl,?_⟩
      split <;> rfl

variable [Host]

/-- There is no step for a handle that nobody holds, and none where the call panics. -/
def step (s : System) : Act → Option (System × List Committed)
  | .begin now connectionId =>
    let (e,txn) := s.engine.beginTxn now connectionId
    some (⟨e,s.handles.insert txn.id txn⟩,[])
  | .stage id m now => match s.handles[id]? with
    | none => none
    | some txn =>
      let (e,txn,_) := s.engine.stage txn m now
      some (⟨e,s.handles.insert id txn⟩,[])
  | .read id now => match s.handles[id]? with
    | none => none
    | some txn => some (⟨(s.engine.touchTxn txn.id now).1,s.handles⟩,[])
  | .commit id io => match s.handles[id]? with
    | none => none
    | some txn => match s.engine.commit io txn with
      | (_,.panic _) => none
      | (e,_) => some (⟨e,s.handles.erase id⟩,committed s.engine e (some txn))
  | .rollback id => match s.handles[id]? with
    | none => none
    | some txn => some (⟨s.engine.rollback txn.id,s.handles.erase id⟩,[])
  | .mutate m io => match s.engine.applyMutation io m with
    | (_,.panic _) => none
    | (e,_) => some (⟨e,s.handles⟩,committed s.engine e none)
  | .gc rewritten => some (⟨(s.engine.gc rewritten).1,s.handles⟩,[])
  | .reap now => some (⟨(s.engine.reapTransactions now).1,s.handles⟩,[])

def Started (s : System) : Prop :=
  s.handles = ∅ ∧ ∃ storage options stats, storage.WellFormed ∧
    (∀ (c : String) schema, storage.schemas[c]? = some schema → schema.name = c) ∧
    Engine.openWith storage options stats = .ok s.engine

abbrev Runs (s : System) (shown : List Committed) (t : System) : Prop := Run step (fun _ _ => True) s shown t

inductive Stored (s : System) (a : Act) (e' : Engine) : Prop where
  | quiet (storage : e'.storage = s.engine.storage) (indexes : ∀ c : String, e'.indexes[c]? = s.engine.indexes[c]?)
  | mutated (m : Mutation) (io : Result Unit) (isMutate : a = .mutate m io) (changes : List Change)
      (some : changes ≠ []) (effect : Engine.Effect s.engine e' 0 changes) (made : Engine.Made s.engine m changes)
  | committed (id : TxnId) (io : Result Unit) (isCommit : a = .commit id io) (txn : Transaction)
      (held : s.handles[id]? = some txn) (some : s.engine.stagedChanges txn ≠ [])
      (inTime : s.engine.txns[txn.id]?.map (·.state) ≠ .some .timedOut)
      (effect : Engine.Effect s.engine e' txn.id (s.engine.stagedChanges txn))
      (admissible : Engine.Admissible s.engine txn)
  | pruned (rewritten : Result Nat) (isGc : a = .gc rewritten)
      (storage : e'.storage = s.engine.storage.pruned s.engine.gcCutoff (max s.engine.gcMinRetainedVersions 1))
      (indexes : e'.indexes = s.engine.indexes)

def committing (s : System) : Act → Option Transaction
  | .commit id _ => s.handles[id]?
  | _ => none

structure Stepped (s : System) (a : Act) (s' : System) (now : List Committed) : Prop where
  stored : Stored s a s'.engine
  registered : Registered s.engine s'.engine
  holding : Holding s s'
  clock : s.engine.clock ≤ s'.engine.clock
  retained : s'.engine.gcMinRetainedVersions = s.engine.gcMinRetainedVersions
  shown : now = committed s.engine s'.engine (s.committing a)

private theorem begin_stepped (s : System) (now : Nat) (connectionId : Option Nat) :
    Stepped s (.begin now connectionId) ⟨(s.engine.beginTxn now connectionId).1,
      s.handles.insert s.engine.clock (.beginAt s.engine.clock s.engine.storage.commitWatermark)⟩ [] := by
  have registry (id : TxnId) : (s.engine.beginTxn now connectionId).1.txns[id]? =
      if s.engine.clock = id then some ⟨s.engine.storage.lastCommitTs,now,now,connectionId,.active⟩
      else s.engine.txns[id]? := getElem?_insert_eq _ _ _ _
  refine ⟨.quiet rfl (fun _ => rfl),?_,?_,Nat.le_succ _,rfl,(committed_none _ _ rfl _).symm⟩
  · intro id entry' found
    rw [registry] at found
    split at found
    · rename_i own
      cases found
      exact Or.inr ⟨own.symm,rfl,rfl⟩
    · exact Or.inl ⟨entry',found,rfl,fun active => active⟩
  · intro id txn' found
    simp only [registry]
    rw [getElem?_insert_eq] at found
    split at found
    · rename_i own
      cases found
      exact Or.inr ⟨own.symm,own,rfl,_,if_pos own,rfl⟩
    · rename_i other
      exact Or.inl ⟨txn',found,rfl,rfl,fun entry registered => ⟨entry,by rw [if_neg other]; exact registered,rfl⟩⟩

private theorem stage_stepped (s : System) (id : TxnId) (m : Mutation) (now : Nat)
    (txn : Transaction) (held : s.handles[id]? = some txn) :
    Stepped s (.stage id m now) ⟨(s.engine.stage txn m now).1,
      s.handles.insert id (s.engine.stage txn m now).2.1⟩ [] := by
  obtain ⟨storage,indexes,clock,retained,registered,kept⟩ := touchTxn_effect s.engine txn.id now
  have same : (s.engine.stage txn m now).1.storage = s.engine.storage ∧
      (s.engine.stage txn m now).1.indexes = s.engine.indexes ∧
      s.engine.clock ≤ (s.engine.stage txn m now).1.clock ∧
      (s.engine.stage txn m now).1.gcMinRetainedVersions = s.engine.gcMinRetainedVersions ∧
      (s.engine.stage txn m now).1.txns = (s.engine.touchTxn txn.id now).1.txns ∧
      (s.engine.stage txn m now).2.1.id = txn.id ∧ (s.engine.stage txn m now).2.1.readTs = txn.readTs := by
    unfold Engine.stage
    generalize s.engine.touchTxn txn.id now = touched at storage indexes clock retained
    obtain ⟨e,result⟩ := touched
    cases result with
    | error err => exact ⟨storage,indexes,Nat.le_of_eq clock.symm,retained,rfl,rfl,rfl⟩
    | ok u =>
      obtain ⟨sameId,sameTs,later⟩ := e.stageMutation_same txn m
      exact ⟨storage,indexes,clock ▸ later,retained,rfl,sameId,sameTs⟩
  obtain ⟨storage,indexes,clock,retained,txns,sameId,sameTs⟩ := same
  refine ⟨.quiet storage (fun _ => by rw [indexes]),?_,?_,clock,retained,
    (committed_none _ _ (by rw [storage]) _).symm⟩
  · intro id' entry' found
    simp only [txns] at found
    rcases registered id' entry' found with before | ⟨_,ticked,_⟩
    · exact Or.inl before
    · omega
  · intro id' txn' found
    simp only [txns]
    rcases of_getElem?_insert found with ⟨rfl,rfl⟩ | ⟨-,before⟩
    · exact Or.inl ⟨txn,held,sameId,sameTs,kept _⟩
    · exact Or.inl ⟨txn',before,rfl,rfl,kept id'⟩

private theorem commit_stepped (s : System) (tracked : Tracked s) (id : TxnId) (io : Result Unit)
    (txn : Transaction) (held : s.handles[id]? = some txn) (e' : Engine) (out : Outcome Unit)
    (calm : ¬out.Panics) (done : s.engine.commit io txn = (e',out)) :
    Stepped s (.commit id io) ⟨e',s.handles.erase id⟩ (committed s.engine e' (some txn)) := by
  have ends := Engine.commit_ends tracked.wellFormed io txn
  rw [done] at ends
  have shown : committed s.engine e' (some txn) = committed s.engine e' (s.committing (.commit id io)) := by
    simp only [committing,held]
  have quiet (e1 : Engine) (effect : Engine.Effect s.engine e1 txn.id [])
      (frame : Engine.Frame s.engine e1) (isE : e' = { e1 with txns := e1.txns.erase txn.id }) :
      Stepped s (.commit id io) ⟨e',s.handles.erase id⟩ (committed s.engine e' (some txn)) := by
    subst isE
    have gone : e1.txns.erase txn.id = s.engine.txns.erase txn.id := by rw [frame.txns]
    refine ⟨.quiet (by simpa using effect.storage) ?_,registered_erase _ gone,holding_erase tracked held rfl gone,
      frame.clock,frame.retained,shown⟩
    intro c
    have := effect.indexes c
    simpa [Change.writesTo,CollectionIndexes.replaceAll] using this
  cases ends with
  | timedOut late err => exact quiet s.engine (.quiet _ rfl rfl) (.refl _) rfl
  | refused e1 err effect frame => exact quiet e1 effect frame rfl
  | panicked inTime e1 m admissible deletes => exact absurd trivial calm
  | committed inTime e1 effect frame admissible deletes =>
    by_cases some : s.engine.stagedChanges txn = []
    · rw [some] at effect
      exact quiet e1 effect frame rfl
    · have gone : e1.txns.erase txn.id = s.engine.txns.erase txn.id := by rw [frame.txns]
      exact ⟨.committed id io rfl txn held some inTime ⟨effect.storage,effect.indexes⟩ admissible,
        registered_erase _ gone,holding_erase tracked held rfl gone,frame.clock,frame.retained,shown⟩

private theorem mutate_stepped (s : System) (tracked : Tracked s) (m : Mutation) (io : Result Unit)
    (e' : Engine) (out : Outcome MutationResult) (calm : ¬out.Panics)
    (done : s.engine.applyMutation io m = (e',out)) :
    Stepped s (.mutate m io) ⟨e',s.handles⟩ (committed s.engine e' none) := by
  have ends := Engine.applyMutation_ends s.engine tracked.wellFormed io m
  rw [done] at ends
  have finish (stored : Stored s (.mutate m io) e') (frame : Engine.Frame s.engine e') :
      Stepped s (.mutate m io) ⟨e',s.handles⟩ (committed s.engine e' none) :=
    ⟨stored,registered_same frame.txns,
      holding_same rfl (fun id entry found => ⟨entry,by rw [frame.txns]; exact found,rfl⟩),
      frame.clock,frame.retained,rfl⟩
  have quiet (effect : Engine.Effect s.engine e' 0 []) : Stored s (.mutate m io) e' := by
    refine .quiet (by simpa using effect.storage) ?_
    intro c
    have := effect.indexes c
    simpa [Change.writesTo,CollectionIndexes.replaceAll] using this
  cases ends with
  | refused e1 err effect frame => exact finish (quiet effect) frame
  | panicked e1 m why => exact absurd trivial calm
  | committed e1 a changes effect frame how =>
    by_cases some : changes = []
    · rw [some] at effect
      exact finish (quiet effect) frame
    · exact finish (.mutated m io rfl changes some effect how) frame

private theorem gc_stepped (s : System) (rewritten : Result Nat) :
    Stepped s (.gc rewritten) ⟨(s.engine.gc rewritten).1,s.handles⟩ [] := by
  have same : Registered s.engine (s.engine.gc rewritten).1 := registered_same rfl
  have holding : Holding s ⟨(s.engine.gc rewritten).1,s.handles⟩ :=
    holding_same rfl (fun id entry found => ⟨entry,found,rfl⟩)
  have level : (s.engine.gc rewritten).1.storage.lastCommitTs = s.engine.storage.lastCommitTs := by
    cases rewritten <;> rfl
  refine ⟨?_,same,holding,Nat.le_refl _,rfl,(committed_none _ _ level _).symm⟩
  cases rewritten <;> exact .pruned _ rfl rfl rfl

theorem step_stepped {now : List Committed} (tracked : Tracked s)
    (taken : step s a = some (s',now)) : Stepped s a s' now := by
  cases a with
  | begin time connectionId =>
    cases taken
    exact begin_stepped s time connectionId
  | stage id m time =>
    simp only [step] at taken
    split at taken
    · cases taken
    rename_i txn held
    cases taken
    exact stage_stepped s id m time txn held
  | read id time =>
    simp only [step] at taken
    split at taken
    · cases taken
    rename_i txn held
    cases taken
    obtain ⟨storage,indexes,clock,retained,registered,kept⟩ := touchTxn_effect s.engine txn.id time
    exact ⟨.quiet storage (fun _ => by rw [indexes]),registered,holding_same rfl kept,Nat.le_of_eq clock.symm,
      retained,(committed_none _ _ (by rw [storage]) _).symm⟩
  | commit id io =>
    simp only [step] at taken
    split at taken
    · cases taken
    rename_i txn held
    split at taken
    · cases taken
    rename_i e' out calm done
    cases taken
    refine commit_stepped s tracked id io txn held e' out ?_ done
    cases out with
    | panic m => exact absurd rfl (calm m)
    | ok u | err err => exact fun h => h
  | rollback id =>
    simp only [step] at taken
    split at taken
    · cases taken
    rename_i txn held
    cases taken
    exact ⟨.quiet rfl (fun _ => rfl),registered_erase txn.id rfl,holding_erase tracked held rfl rfl,Nat.le_refl _,rfl,
      (committed_none _ _ rfl _).symm⟩
  | mutate m io =>
    simp only [step] at taken
    split at taken
    · cases taken
    rename_i e' out calm done
    cases taken
    refine mutate_stepped s tracked m io e' out ?_ done
    cases out with
    | panic m => exact absurd rfl (calm m)
    | ok u | err err => exact fun h => h
  | gc rewritten =>
    cases taken
    exact gc_stepped s rewritten
  | reap time =>
    cases taken
    obtain ⟨storage,indexes,registered,clock,retained,kept⟩ := reap_effect s.engine time
    exact ⟨.quiet storage (fun _ => by rw [indexes]),registered,holding_same rfl kept,Nat.le_of_eq clock.symm,
      retained,(committed_none _ _ (by rw [storage]) _).symm⟩

section
variable (stored : Stored s a e')
include stored

theorem Stored.cases_storage : e'.storage = s.engine.storage ∨
      (∃ batch, e'.storage = s.engine.storage.applied (s.engine.storage.lastCommitTs + 1) batch) ∨
      ∃ keep, e'.storage = s.engine.storage.pruned s.engine.gcCutoff keep := by
  have applied {txnId : TxnId} {changes : List Change} (some : changes ≠ [])
      (effect : Engine.Effect s.engine e' txnId changes) :
      ∃ batch, e'.storage = s.engine.storage.applied (s.engine.storage.lastCommitTs + 1) batch :=
    ⟨⟨txnId,changes.map Change.op⟩,by rw [effect.storage,if_neg (by simpa using some)]⟩
  cases stored with
  | quiet storage indexes => exact Or.inl storage
  | mutated m io isMutate changes some effect made | committed id io isCommit txn held some inTime effect admissible =>
    exact Or.inr (Or.inl (applied some effect))
  | pruned rewritten isGc storage indexes => exact Or.inr (Or.inr ⟨_,storage⟩)

theorem Stored.wellFormed (ok : s.engine.storage.WellFormed) : e'.storage.WellFormed := by
  rcases stored.cases_storage with same | ⟨batch,applied⟩ | ⟨keep,pruned⟩
  · exact same ▸ ok
  · rw [applied]
    exact ok.applied _ _ (Nat.lt_succ_self _)
  · rw [pruned]
    exact ok.pruned _ _

theorem Stored.schemas : e'.storage.schemas = s.engine.storage.schemas := by
  rcases stored.cases_storage with same | ⟨batch,applied⟩ | ⟨keep,pruned⟩
  · rw [same]
  · rw [applied]
    rfl
  · rw [pruned]
    rfl

theorem Stored.watermark : s.engine.storage.lastCommitTs ≤ e'.storage.lastCommitTs := by
  rcases stored.cases_storage with same | ⟨batch,applied⟩ | ⟨keep,pruned⟩
  · rw [same]
  · rw [applied]
    exact Nat.le_succ _
  · rw [pruned]
    exact Nat.le_refl _

theorem Stored.getAsOf (ok : s.engine.storage.WellFormed) {ts : Nat}
    (past : ts ≤ s.engine.storage.lastCommitTs) (respected : s.engine.gcCutoff ≤ ts) (c : String) (i : RecordId) :
    e'.storage.getAsOf c i ts = s.engine.storage.getAsOf c i ts := by
  rcases stored.cases_storage with same | ⟨batch,applied⟩ | ⟨keep,pruned⟩
  · rw [same]
  · rw [applied]
    exact Storage.getAsOf_applied ok _ _ (Nat.lt_succ_self _) c i ts (Nat.lt_succ_of_le past)
  · rw [pruned]
    exact Storage.getAsOf_pruned _ _ _ c i ts respected

end

theorem Stepped.tracked {now : List Committed} (stepped : Stepped s a s' now) (tracked : Tracked s) : Tracked s' := by
  refine ⟨stepped.stored.wellFormed tracked.wellFormed,?_,?_,stepped.retained ▸ tracked.retained⟩
  · intro id entry' found
    rcases stepped.registered id entry' found with ⟨entry,before,readTs,_⟩ | ⟨own,ticked,readTs⟩
    · obtain ⟨past,known⟩ := tracked.pinned id entry before
      exact ⟨readTs ▸ Nat.le_trans past stepped.stored.watermark,Nat.lt_of_lt_of_le known stepped.clock⟩
    · exact ⟨readTs ▸ stepped.stored.watermark,by rw [ticked,own]; exact Nat.lt_succ_self _⟩
  · intro id txn' found
    rcases stepped.holding id txn' found with ⟨txn,before,sameId,sameTs,kept⟩ | ⟨_,sameId,sameTs,entry',known,readTs⟩
    · obtain ⟨own,entry,known,readTs⟩ := tracked.held id txn before
      obtain ⟨entry',known',readTs'⟩ := kept entry known
      exact ⟨sameId.trans own,entry',known',readTs'.trans (readTs.trans sameTs.symm)⟩
    · exact ⟨sameId,entry',known,readTs.trans sameTs.symm⟩

theorem Started.tracked (started : Started s) : Tracked s := by
  obtain ⟨e,handles⟩ := s
  obtain ⟨empty,storage,options,stats,ok,_,opened⟩ := started
  unfold Engine.openWith at opened
  split at opened
  · cases opened
  cases opened
  refine ⟨ok,?_,?_,?_⟩
  · intro id entry found
    simp at found
  · intro id txn found
    simp only at empty found
    simp [empty] at found
  · exact Nat.lt_of_lt_of_le Nat.zero_lt_one (Nat.le_max_right _ _)

theorem Started.sound {s : System} (started : Started s) : Engine.Sound s.engine := by
  obtain ⟨_,storage,options,stats,ok,named,opened⟩ := started
  exact Engine.openWith_sound ok options stats named opened

def fresh (schema : CollectionSchema) (options : EngineOptions) : System :=
  ⟨⟨⟨(∅ : ExtTreeMap String CollectionSchema compare).insert schema.name schema,∅,0,0⟩,
    (∅ : Indexes).insert schema.name (CollectionIndexes.fromSchema schema).cleared,1,∅,
    options.transactionTimeoutSecs,0,max options.gcMinRetainedVersions 1,∅⟩,∅⟩

theorem fresh_started (schema : CollectionSchema) (options : EngineOptions) : Started (fresh schema options) := by
  have none (c : String) (i : RecordId) : (fresh schema options).engine.storage.chainOf c i = [] := rfl
  refine ⟨rfl,(fresh schema options).engine.storage,options,∅,⟨?_,?_,?_⟩,?_,rfl⟩
  · intro c i
    exact List.Pairwise.nil
  · intro c i v inside
    simp [none] at inside
  · intro c i v inside
    simp [none] at inside
  · intro c schema' found
    simp only [fresh,getElem?_insert_eq] at found
    split at found
    · rename_i same
      cases found
      exact same
    · simp at found

theorem exists_runs (acts : List Act) (schema : CollectionSchema) (options : EngineOptions)
    (P : System → List Committed → Prop) (found : ∃ p ∈ steps step (fresh schema options) acts, P p.1 p.2) :
    ∃ s shown, Runs (fresh schema options) shown s ∧ P s shown :=
  Run.exists_of_steps acts _ P found (fun _ _ _ => trivial)

def notes : CollectionSchema :=
  ⟨"notes",[⟨"id",.string,true,false,false,false⟩,⟨"email",.string,false,true,true,false⟩,
    ⟨"score",.float,false,true,true,false⟩,⟨"status",.string,false,false,true,true⟩],[],[]⟩

def noteId (pk : String) : RecordId := @deriveId plainHost "notes" (.text pk)

def noteText (e : Engine) (pk field : String) : Option String :=
  (e.storage.get "notes" (noteId pk)).bind (fun r => (r.fields.get field).bind Value.asText)

theorem Run.along {admitted : System → Act → Prop} {t : System} {shown : List Committed}
    (run : Run step admitted s shown t) (tracked : Tracked s) (P : List Committed → System → Prop) (initially : P [] s)
    (kept : ∀ shown s a s' now, Tracked s → P shown s → admitted s a → step s a = some (s',now) →
      Stepped s a s' now → P (shown ++ now) s') : P shown t ∧ Tracked t := by
  refine run.invariant (fun shown t => P shown t ∧ Tracked t) ⟨initially,tracked⟩ ?_
  rintro shown s a s' now ⟨held,tracked⟩ allowed taken
  have stepped := step_stepped tracked taken
  exact ⟨kept shown s a s' now tracked held allowed taken stepped,stepped.tracked tracked⟩

end

end System

end AuraDb
