import AuraDb.Engine.Effect

/-! Which changes a transaction's commit makes, what it is refused for, and when it
panics: after the batch is written, at a staged delete of a key that holds nothing. -/
namespace AuraDb
open Library Std CollectionIndexes Change
namespace Engine
variable {e : Engine} {txn : Transaction}

def stagedChange (e : Engine) (txnId : TxnId) (p : Key × StagedOp) : Change :=
  ⟨p.1,p.2.value.map (fun r =>
      { r with
        collection := p.1.collection
        id := p.1.id
        version := ((e.storage.get p.1.collection p.1.id).map (·.version + 1)).getD 1
        createdTxn := txnId }),
    by
      intro r isNew
      obtain ⟨staged,_,rfl⟩ := Option.map_eq_some_iff.mp isNew
      exact ⟨rfl,rfl⟩⟩

def stagedChanges (e : Engine) (txn : Transaction) : List Change :=
  txn.stagedOps.map (e.stagedChange txn.id)

theorem conflictCheck_ok_iff (e : Engine) (readTs : Nat) (k : Key) : e.conflictCheck readTs k = .ok () ↔
      ∀ latest, e.storage.latestCommitTs k.collection k.id = some latest → latest ≤ readTs := by
  unfold conflictCheck
  cases e.storage.latestCommitTs k.collection k.id with
  | none => simp
  | some latest =>
    simp only [Option.some.injEq,forall_eq']
    split
    · rename_i newer
      simp [Nat.not_le.mpr newer]
    · rename_i older
      simp [Nat.not_lt.mp older]

theorem update_collection {s : Storage} (ok : s.WellFormed) (ch : Change) :
    ((ch.update s).1.or (ch.update s).2).map (·.collection) =
      if (s.get ch.key.collection ch.key.id).isNone ∧ ch.new.isNone then none else some ch.key.collection := by
  simp only [update]
  cases held : s.get ch.key.collection ch.key.id with
  | some r => simp [(ok.get_keyed _ _ r held).1]
  | none =>
    cases new : ch.new with
    | some r => simp [(ch.keyed r new).1]
    | none => simp

theorem refreshAll (affected : List String) (e : Engine) :
    (affected.foldl refreshStatsRowCount e).storage = e.storage ∧
      (affected.foldl refreshStatsRowCount e).indexes = e.indexes ∧
      Frame e (affected.foldl refreshStatsRowCount e) := by
  induction affected generalizing e with
  | nil => exact ⟨rfl,rfl,.refl e⟩
  | cons c rest ih =>
    obtain ⟨storage,indexes,frame⟩ := ih (e.refreshStatsRowCount c)
    exact ⟨storage,indexes,{ frame with }⟩

def DeletesNothing (e : Engine) (txn : Transaction) : Prop :=
  ∃ k : Key, txn.staged[k]? = some .delete ∧ e.storage.get k.collection k.id = none

theorem stagedChange_new_none (e : Engine) (txnId : TxnId) (p : Key × StagedOp) :
    (e.stagedChange txnId p).new = none ↔ p.2 = .delete := by
  obtain ⟨k,op⟩ := p
  cases op <;> simp [stagedChange,StagedOp.value]

theorem deletesNothing_iff (e : Engine) (txn : Transaction) : DeletesNothing e txn ↔ ∃ ch ∈ e.stagedChanges txn,
      e.storage.get ch.key.collection ch.key.id = none ∧ ch.new = none := by
  constructor
  · rintro ⟨k,staged,absent⟩
    exact ⟨_,List.mem_map.mpr ⟨(k,.delete),(txn.mem_stagedOps k _).mpr staged,rfl⟩,absent,rfl⟩
  · rintro ⟨ch,inside,absent,isDelete⟩
    obtain ⟨⟨k,op⟩,staged,rfl⟩ := List.mem_map.mp inside
    obtain rfl := (stagedChange_new_none e txn.id (k,op)).mp isDelete
    exact ⟨k,(txn.mem_stagedOps k _).mp staged,absent⟩

theorem stagedChanges_keys (e : Engine) (txn : Transaction) : ((e.stagedChanges txn).map key).Nodup := by
  rw [stagedChanges,List.map_map]
  exact txn.stagedOps_nodup

theorem stagedChange_new {ch : Change} (inside : ch ∈ e.stagedChanges txn) {r : Record} (isNew : ch.new = some r) :
    ∃ staged, txn.staged[ch.key]? = some (.put staged) ∧ r.fields = staged.fields ∧ r.id = staged.id := by
  obtain ⟨⟨k,op⟩,member,rfl⟩ := List.mem_map.mp inside
  have staged := (txn.mem_stagedOps k op).mp member
  cases op with
  | delete => cases isNew
  | put record =>
    obtain ⟨_,ri⟩ := txn.keyed k record staged
    cases isNew
    exact ⟨record,staged,rfl,ri.symm⟩

variable [Host]

def CommitOk (e : Engine) (k : Key) : StagedOp → Prop
  | .put r => ∃ schema, e.storage.schemas[k.collection]? = some schema ∧
      e.referentialCheck schema r.fields = .ok () ∧
      e.commitUnique r k.collection (e.storage.get k.collection k.id) = .ok ()
  | .delete => ∀ r, e.storage.get k.collection k.id = some r → e.inboundLinkCheck k.collection r = .ok ()

theorem prepareCommit_ok_iff (e : Engine) (txnId : TxnId) (k : Key) (op : StagedOp)
    (keyed : ∀ r, op = .put r → r.collection = k.collection ∧ r.id = k.id) (x : LogOp × Update) :
    e.prepareCommit txnId k op = .ok x ↔ CommitOk e k op ∧
      x = ((e.stagedChange txnId (k,op)).op,(e.stagedChange txnId (k,op)).update e.storage) := by
  cases op with
  | put r =>
    obtain ⟨rc,ri⟩ := keyed r rfl
    simp only [prepareCommit,CommitOk]
    cases known : e.schemaFor k.collection with
    | error err =>
      have absent : ∀ schema, e.storage.schemas[k.collection]? ≠ some schema := by
        intro schema found
        simp [(schemaFor_ok_iff e k.collection schema).mpr found] at known
      simp [absent]
    | ok schema =>
      have found := (schemaFor_ok_iff e k.collection schema).mp known
      simp only [found,Option.some.injEq,exists_eq_left']
      cases e.referentialCheck schema r.fields with
      | error err => simp
      | ok u =>
        cases e.commitUnique r k.collection (e.storage.get k.collection k.id) with
        | error err => simp
        | ok u =>
          simp [stagedChange,StagedOp.value,op,update,rc.symm,ri.symm,eq_comm]
  | delete =>
    simp only [prepareCommit,CommitOk]
    cases held : e.storage.get k.collection k.id with
    | none => simp [stagedChange,StagedOp.value,op,update,held,eq_comm]
    | some r =>
      simp only [Option.elim_some,Option.some.injEq,forall_eq']
      cases e.inboundLinkCheck k.collection r with
      | error err => simp
      | ok u => simp [stagedChange,StagedOp.value,op,update,held,eq_comm]

theorem prepareCommits_ok_iff (e : Engine) (txnId : TxnId) (ops : List (Key × StagedOp))
    (keyed : ∀ k r, (k,StagedOp.put r) ∈ ops → r.collection = k.collection ∧ r.id = k.id)
    (prepared : List (LogOp × Update)) : e.prepareCommits txnId ops = .ok prepared ↔ (∀ p ∈ ops, CommitOk e p.1 p.2) ∧
      prepared = (ops.map (e.stagedChange txnId)).map (fun ch => (ch.op,ch.update e.storage)) := by
  induction ops generalizing prepared with
  | nil => simp [prepareCommits,eq_comm]
  | cons p rest ih =>
    obtain ⟨k,op⟩ := p
    have first := prepareCommit_ok_iff e txnId k op (fun r isPut => keyed k r (by simp [isPut]))
    have others := ih (fun k r inside => keyed k r (by simp [inside]))
    simp only [prepareCommits,List.mem_cons,forall_eq_or_imp,List.map_cons]
    cases head : e.prepareCommit txnId k op with
    | error err =>
      have refused : ¬CommitOk e k op := fun ok => by simpa [head] using (first _).mpr ⟨ok,rfl⟩
      simp [refused]
    | ok x =>
      obtain ⟨ok,rfl⟩ := (first x).mp head
      simp only [ok,true_and]
      cases tail : e.prepareCommits txnId rest with
      | error err =>
        have refused : ¬∀ p ∈ rest, CommitOk e p.1 p.2 := fun all => by
          simpa [tail] using (others _).mpr ⟨all,rfl⟩
        simp only [Except.map,reduceCtorEq,false_iff]
        exact fun all => refused all.1
      | ok ys =>
        obtain ⟨all,rfl⟩ := (others ys).mp tail
        simp only [Except.map,Except.ok.injEq]
        exact ⟨fun same => ⟨all,same.symm⟩,fun both => both.2.symm⟩

/-- Each staged key is free of conflicts and passes its checks. -/
def Admissible (e : Engine) (txn : Transaction) : Prop :=
  ∀ (k : Key) op, txn.staged[k]? = some op →
    (∀ latest, e.storage.latestCommitTs k.collection k.id = some latest → latest ≤ txn.readTs) ∧ CommitOk e k op

theorem admissible_iff (e : Engine) (txn : Transaction) :
    Admissible e txn ↔ checkAll (e.conflictCheck txn.readTs) (txn.stagedOps.map Prod.fst) = .ok () ∧
      e.prepareCommits txn.id txn.stagedOps =
        .ok ((e.stagedChanges txn).map (fun ch => (ch.op,ch.update e.storage))) := by
  have keyed : ∀ k r, (k,StagedOp.put r) ∈ txn.stagedOps → r.collection = k.collection ∧ r.id = k.id :=
    fun k r inside => txn.keyed k r ((txn.mem_stagedOps k _).mp inside)
  rw [prepareCommits_ok_iff e txn.id txn.stagedOps keyed,checkAll_ok_iff]
  simp only [List.mem_map,Prod.exists,exists_and_right,exists_eq_right,stagedChanges,and_true,
    conflictCheck_ok_iff,Prod.forall,txn.mem_stagedOps]
  constructor
  · intro ok
    exact ⟨fun k ⟨op,staged⟩ => (ok k op staged).1,fun k op staged => (ok k op staged).2⟩
  · rintro ⟨calm,checked⟩ k op staged
    exact ⟨calm k ⟨op,staged⟩,checked k op staged⟩

theorem updateIndexes_spec {s : Storage} (ok : s.WellFormed) (changes : List Change) (indexes : Indexes) :
    ((updateIndexes (changes.map (update s)) indexes).2 = none ↔
        ∃ ch ∈ changes, s.get ch.key.collection ch.key.id = none ∧ ch.new = none) ∧
      ((updateIndexes (changes.map (update s)) indexes).2 ≠ none →
        ∀ c : String, (updateIndexes (changes.map (update s)) indexes).1[c]? =
          indexes[c]?.map (fun idx => replaceAll (s.get c) idx (writesTo changes c))) := by
  induction changes generalizing indexes with
  | nil =>
    refine ⟨by simp [updateIndexes],?_⟩
    intro _ c
    simp only [List.map_nil,updateIndexes,writesTo,List.filter_nil,replaceAll,List.foldl_nil]
    cases indexes[c]? <;> rfl
  | cons ch rest ih =>
    have named := update_collection ok ch
    by_cases empty : (s.get ch.key.collection ch.key.id).isNone ∧ ch.new.isNone
    -- a change of nothing into nothing names no collection, and the loop stops there
    · rw [if_pos empty] at named
      have panicked : (updateIndexes ((ch::rest).map (update s)) indexes).2 = none := by
        simp only [List.map_cons]
        unfold updateIndexes
        simp only [named]
      refine ⟨⟨fun _ => ⟨ch,by simp,?_⟩,fun _ => panicked⟩,fun calm => absurd panicked calm⟩
      simpa using empty
    · rw [if_neg empty] at named
      obtain ⟨altered,isAltered⟩ : ∃ altered, altered = indexes.alter ch.key.collection
        (Option.map (fun idx => idx.replace (s.get ch.key.collection ch.key.id) ch.new)) := ⟨_,rfl⟩
      have step : updateIndexes ((ch::rest).map (update s)) indexes = ((updateIndexes (rest.map (update s)) altered).1,
            (updateIndexes (rest.map (update s)) altered).2.map (ch.key.collection :: ·)) := by
        simp only [List.map_cons]
        conv_lhs => unfold updateIndexes
        simp only [named,isAltered]
        rfl
      obtain ⟨panics,writes⟩ := ih altered
      rw [step]
      refine ⟨?_,?_⟩
      · simp only [Option.map_eq_none_iff,panics,List.mem_cons,exists_eq_or_imp]
        have live : ¬(s.get ch.key.collection ch.key.id = none ∧ ch.new = none) := by simpa using empty
        exact ⟨Or.inr,fun found => found.resolve_left live⟩
      · intro calm c
        simp only [ne_eq,Option.map_eq_none_iff] at calm
        rw [writes calm c,isAltered,TreeMap.getElem?_alter_eq]
        by_cases same : ch.key.collection = c
        · subst same
          simp only [if_true,Option.map_map,writesTo,beq_self_eq_true,List.filter_cons_of_pos,
            List.map_cons,replaceAll,List.foldl_cons]
          rfl
        · simp [same,writesTo,beq_eq_false_iff_ne.mpr same]

theorem finishCommit_ends (ok : e.storage.WellFormed) (txnId : TxnId) (changes : List Change) (storage : Storage)
    (stored : storage = if changes.isEmpty then e.storage
      else e.storage.applied (e.storage.lastCommitTs + 1) ⟨txnId,changes.map op⟩) (message : String) :
    (∃ e', { e with storage := storage }.finishCommit (changes.map (update e.storage)) message = (e',.ok ()) ∧
        Effect e e' txnId changes ∧ Frame e e' ∧
        ¬∃ ch ∈ changes, e.storage.get ch.key.collection ch.key.id = none ∧ ch.new = none) ∨
      ∃ e', { e with storage := storage }.finishCommit (changes.map (update e.storage)) message = (e',.panic message) ∧
        ∃ ch ∈ changes, e.storage.get ch.key.collection ch.key.id = none ∧ ch.new = none := by
  obtain ⟨panics,writes⟩ := updateIndexes_spec ok changes e.indexes
  unfold finishCommit
  simp only
  cases done : (updateIndexes (changes.map (update e.storage)) e.indexes).2 with
  | none => exact Or.inr ⟨_,rfl,panics.mp done⟩
  | some affected =>
    refine Or.inl ⟨_,rfl,?_,?_,fun found => by simp [panics.mpr found] at done⟩
    · obtain ⟨sameStorage,sameIndexes,_⟩ := refreshAll affected
        { e with storage := storage, indexes := (updateIndexes (changes.map (update e.storage)) e.indexes).1 }
      refine ⟨by rw [sameStorage]; exact stored,?_⟩
      intro c
      rw [sameIndexes]
      exact writes (by simp [done]) c
    · obtain ⟨_,_,frame⟩ := refreshAll affected
        { e with storage := storage, indexes := (updateIndexes (changes.map (update e.storage)) e.indexes).1 }
      exact { frame with }

theorem admissible_of_prepared {prepared : List (LogOp × Update)}
    (calm : checkAll (e.conflictCheck txn.readTs) (txn.stagedOps.map Prod.fst) = .ok ())
    (gathered : e.prepareCommits txn.id txn.stagedOps = .ok prepared) :
    Admissible e txn ∧ prepared = (e.stagedChanges txn).map (fun ch => (ch.op,ch.update e.storage)) := by
  have keyed : ∀ k r, (k,StagedOp.put r) ∈ txn.stagedOps → r.collection = k.collection ∧ r.id = k.id :=
    fun k r inside => txn.keyed k r ((txn.mem_stagedOps k _).mp inside)
  have isPrepared := ((prepareCommits_ok_iff e txn.id txn.stagedOps keyed prepared).mp gathered).2
  exact ⟨(admissible_iff e txn).mpr ⟨calm,isPrepared ▸ gathered⟩,isPrepared⟩

theorem commitTransaction_refused (refused : ¬Admissible e txn) (io : Result Unit) :
    ∃ err, e.commitTransaction io txn = (e,.err err) := by
  unfold commitTransaction
  cases calm : checkAll (e.conflictCheck txn.readTs) (txn.stagedOps.map Prod.fst) with
  | error err => exact ⟨err,rfl⟩
  | ok u =>
    cases gathered : e.prepareCommits txn.id txn.stagedOps with
    | error err => exact ⟨err,rfl⟩
    | ok prepared => exact absurd (admissible_of_prepared calm gathered).1 refused

theorem commitTransaction_admissible (admissible : Admissible e txn) (io : Result Unit) : e.commitTransaction io txn =
      if (e.stagedChanges txn).isEmpty then (e,.ok ()) else
      match io with
      | .error err => (e,.err err)
      | .ok () =>
        let batch : Batch := ⟨txn.id,(e.stagedChanges txn).map op⟩
        { e with storage := e.storage.applied (e.storage.lastCommitTs + 1) batch }.finishCommit
          ((e.stagedChanges txn).map (update e.storage)) "at least one side present" := by
  obtain ⟨calm,gathered⟩ := (admissible_iff e txn).mp admissible
  have ops : ((e.stagedChanges txn).map (fun ch => (ch.op,ch.update e.storage))).map Prod.fst =
      (e.stagedChanges txn).map op := by
    rw [List.map_map]
    rfl
  have updates : ((e.stagedChanges txn).map (fun ch => (ch.op,ch.update e.storage))).map Prod.snd =
      (e.stagedChanges txn).map (update e.storage) := by
    rw [List.map_map]
    rfl
  simp only [commitTransaction,calm,gathered,ops,updates,List.isEmpty_map]
  split
  · rfl
  rename_i some
  unfold Storage.commitBatch
  simp only [List.isEmpty_map,some]
  cases io <;> rfl

theorem commitTransaction_ends (ok : e.storage.WellFormed) (io : Result Unit) (txn : Transaction) :
    Ends e txn.id (fun changes => changes = e.stagedChanges txn ∧ Admissible e txn ∧ ¬DeletesNothing e txn)
      (Admissible e txn ∧ DeletesNothing e txn) (e.commitTransaction io txn) := by
  by_cases admissible : Admissible e txn
  · rw [commitTransaction_admissible admissible]
    split
    · rename_i empty
      have nothing : e.stagedChanges txn = [] := by simpa using empty
      refine .committed _ _ [] (.quiet _ rfl rfl) (.refl e) ⟨nothing.symm,admissible,?_⟩
      rw [deletesNothing_iff,nothing]
      simp
    · rename_i some
      cases io with
      | error err => exact .unchanged err
      | ok u =>
        rcases finishCommit_ends ok txn.id (e.stagedChanges txn)
            (e.storage.applied (e.storage.lastCommitTs + 1) ⟨txn.id,(e.stagedChanges txn).map op⟩)
            (by simp [some]) "at least one side present" with ⟨e',done,effect,frame,calm⟩ | ⟨e',done,found⟩
        · rw [done]
          exact .committed e' () _ effect frame ⟨rfl,admissible,(deletesNothing_iff e txn).not.mpr calm⟩
        · rw [done]
          exact .panicked e' _ ⟨admissible,(deletesNothing_iff e txn).mpr found⟩
  · obtain ⟨err,done⟩ := commitTransaction_refused admissible io
    rw [done]
    exact .unchanged err

theorem checkUnique_congr (idx : CollectionIndexes) (r r' : Record) (replacing : Option RecordId)
    (fields : r.fields = r'.fields) (ids : r.id = r'.id) :
    idx.checkUnique r replacing = idx.checkUnique r' replacing := by
  unfold checkUnique
  congr 1
  funext f
  simp only [checkUniqueField,fields,ids]

theorem stagedChanges_checked (admissible : Admissible e txn) : ∀ ch ∈ e.stagedChanges txn, Checked e ch := by
  intro ch inside r isNew idx held
  obtain ⟨staged,found,fields,ids⟩ := stagedChange_new inside isNew
  obtain ⟨schema,_,_,unique⟩ := (admissible ch.key _ found).2
  rw [checkUnique_congr idx r staged _ fields ids]
  simpa only [commitUnique,held] using unique

inductive CommitEnds (e : Engine) (txn : Transaction) : Engine × Outcome Unit → Prop where
  | timedOut (late : e.txns[txn.id]?.map (·.state) = some .timedOut) (err : Error) :
      CommitEnds e txn ({ e with txns := e.txns.erase txn.id },.err err)
  | committed (inTime : e.txns[txn.id]?.map (·.state) ≠ some .timedOut) (e' : Engine)
      (effect : Effect e e' txn.id (e.stagedChanges txn)) (frame : Frame e e')
      (admissible : Admissible e txn) (deletes : ¬DeletesNothing e txn) :
      CommitEnds e txn ({ e' with txns := e'.txns.erase txn.id },.ok ())
  | refused (e' : Engine) (err : Error) (effect : Effect e e' txn.id []) (frame : Frame e e') :
      CommitEnds e txn ({ e' with txns := e'.txns.erase txn.id },.err err)
  | panicked (inTime : e.txns[txn.id]?.map (·.state) ≠ some .timedOut) (e' : Engine) (m : String)
      (admissible : Admissible e txn) (deletes : DeletesNothing e txn) : CommitEnds e txn (e',.panic m)

theorem commit_ends (ok : e.storage.WellFormed) (io : Result Unit) (txn : Transaction) :
    CommitEnds e txn (e.commit io txn) := by
  unfold commit
  split
  · exact .timedOut (by assumption) _
  · have ends := commitTransaction_ends ok io txn
    generalize e.commitTransaction io txn = done at ends
    cases ends with
    | committed e' a changes effect frame how =>
      obtain ⟨rfl,admissible,deletes⟩ := how
      exact .committed (by assumption) e' effect frame admissible deletes
    | refused e' err effect frame => exact .refused e' err effect frame
    | panicked e' m why => exact .panicked (by assumption) e' m why.1 why.2

/-- A commit succeeds exactly for an admissible transaction that deletes nothing that is not there, if the file
step does. -/
theorem commit_ok_iff (ok : e.storage.WellFormed) (io : Result Unit) (txn : Transaction)
    (inTime : e.txns[txn.id]?.map (·.state) ≠ some .timedOut) : (∃ e', e.commit io txn = (e',.ok ())) ↔
      Admissible e txn ∧ ¬DeletesNothing e txn ∧ (e.stagedChanges txn = [] ∨ io = .ok ()) := by
  have ends := commit_ends ok io txn
  constructor
  · rintro ⟨e',done⟩
    rw [done] at ends
    cases ends with
    | committed _ e1 effect frame admissible fine =>
      refine ⟨admissible,fine,?_⟩
      rw [commit,if_neg inTime,commitTransaction_admissible admissible] at done
      by_cases empty : e.stagedChanges txn = []
      · exact Or.inl empty
      · rw [if_neg (by simpa using empty)] at done
        cases io with
        | error err => simp at done
        | ok u => exact Or.inr rfl
  · rintro ⟨admissible,fine,written⟩
    have accepted : ∀ e' err, e.commitTransaction io txn ≠ (e',.err err) := by
      intro e' err refused
      rw [commitTransaction_admissible admissible] at refused
      split at refused
      · cases refused
      rename_i some
      obtain rfl := written.resolve_left (by simpa using some)
      rcases finishCommit_ends ok txn.id (e.stagedChanges txn)
          (e.storage.applied (e.storage.lastCommitTs + 1) ⟨txn.id,(e.stagedChanges txn).map op⟩)
          (by simp [some]) "at least one side present" with ⟨_,done,_⟩ | ⟨_,done,_⟩
      · rw [done] at refused
        cases refused
      · rw [done] at refused
        cases refused
    have finished := commitTransaction_ends ok io txn
    rw [commit,if_neg inTime]
    cases done : e.commitTransaction io txn with
    | mk e' outcome =>
      rw [done] at finished
      cases finished with
      | committed _ _ changes effect frame how => exact ⟨_,rfl⟩
      | refused _ err effect frame => exact absurd done (accepted e' err)
      | panicked _ m why => exact absurd why.2 fine

theorem Effect.get_staged {e' : Engine} (effect : Effect e e' txn.id (e.stagedChanges txn)) (ok : e.storage.WellFormed)
    (k : Key) : e'.storage.get k.collection k.id = match txn.staged[k]? with
      | none => e.storage.get k.collection k.id
      | some op => (e.stagedChange txn.id (k,op)).new := by
  have ids := writesTo_nodup (stagedChanges_keys e txn) k.collection
  rw [effect.get ok]
  cases staged : txn.staged[k]? with
  | none =>
    refine Live.rewrite_of_not_mem _ _ k.id ?_
    intro inside
    obtain ⟨w,written,same⟩ := List.mem_map.mp inside
    obtain ⟨ch,member,here,rfl⟩ := mem_writesTo written
    obtain ⟨⟨k',op⟩,known,rfl⟩ := List.mem_map.mp member
    have own : k' = k := by
      exact congrArg₂ Key.mk here same
    have found := (txn.mem_stagedOps k' op).mp known
    rw [own,staged] at found
    cases found
  | some op =>
    have member : e.stagedChange txn.id (k,op) ∈ e.stagedChanges txn :=
      List.mem_map.mpr ⟨(k,op),(txn.mem_stagedOps k op).mpr staged,rfl⟩
    have written : (k.id,(e.stagedChange txn.id (k,op)).new) ∈
        writesTo (e.stagedChanges txn) k.collection :=
      List.mem_map.mpr ⟨_,List.mem_filter.mpr ⟨member,beq_self_eq_true _⟩,rfl⟩
    exact Live.rewrite_of_mem _ _ ids _ written

end Engine

end AuraDb
