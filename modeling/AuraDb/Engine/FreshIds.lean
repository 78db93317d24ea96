import AuraDb.Engine.Invariant
import AuraDb.Engine.Rejection

/-! What staging adds to the keys that a transaction has observed, and how far the clock
goes in a write. -/
namespace AuraDb
open Library Std

section
variable {txn : Transaction}

namespace Transaction

def Noted (txn : Transaction) : Prop := ∀ k : Key, txn.staged[k]?.isSome → txn.observed[k]?.isSome

theorem Noted.stagePut (noted : txn.Noted) (r : Record) (v : Option Nat) : (txn.stagePut r v).Noted := by
  intro k staged
  rw [observed_stagePut]
  rw [staged_stagePut] at staged
  split
  · rfl
  · rename_i other
    rw [if_neg other] at staged
    exact noted k staged

theorem Noted.stageDelete (noted : txn.Noted) (c : String) (i : RecordId) (v : Option Nat) :
    (txn.stageDelete c i v).Noted := by
  intro k staged
  rw [observed_stageDelete]
  rw [staged_stageDelete] at staged
  split
  · rfl
  · rename_i other
    rw [if_neg other] at staged
    exact noted k staged

end Transaction

namespace Engine
variable {e : Engine} {c : String}

/-- Staging adds keys of the collection, and without a primary key only new ids and ids of stored records. -/
structure Observing (e : Engine) (schema : CollectionSchema) (c : String) (lo hi : Nat) (txn txn' : Transaction) :
    Prop where
  noted : txn.Noted → txn'.Noted
  keys : ∀ k : Key, txn'.observed[k]? = txn.observed[k]? ∨ txn.observed[k]? = none ∧ k.collection = c ∧
    (schema.primaryKey = none → lo ≤ k.id ∧ k.id < hi ∨
      e.storage.chainOf c k.id ≠ [] ∧ txn'.observed[k]? ≠ some none)

section
variable {schema : CollectionSchema}

theorem Observing.refl (lo hi : Nat) (txn : Transaction) : Observing e schema c lo hi txn txn := ⟨id,fun _ => .inl rfl⟩

variable {txn' : Transaction} {lo hi : Nat}

theorem Observing.trans {mid : Nat} {txn'' : Transaction} (early : lo ≤ mid) (late : mid ≤ hi)
    (first : Observing e schema c lo mid txn txn') (second : Observing e schema c mid hi txn' txn'') :
    Observing e schema c lo hi txn txn'' := by
  refine ⟨fun noted => second.noted (first.noted noted),?_⟩
  intro k
  rcases second.keys k with same | ⟨absent,own,from'⟩
  · rw [same]
    rcases first.keys k with same' | ⟨absent',own',from'⟩
    · exact .inl same'
    · refine .inr ⟨absent',own',?_⟩
      intro keyless
      rcases from' keyless with between | stored
      · exact .inl ⟨between.1,Nat.lt_of_lt_of_le between.2 late⟩
      · exact .inr stored
  · have absent' : txn.observed[k]? = none := by
      rcases first.keys k with same' | new
      · exact same' ▸ absent
      · exact new.1
    refine .inr ⟨absent',own,?_⟩
    intro keyless
    rcases from' keyless with between | stored
    · exact .inl ⟨Nat.le_trans early between.1,between.2⟩
    · exact .inr stored

theorem Observing.kept (observing : Observing e schema c lo hi txn txn') {k : Key}
    (seen : txn.observed[k]?.isSome) : txn'.observed[k]?.isSome := by
  rcases observing.keys k with same | ⟨absent,_⟩
  · rwa [same]
  · simp [absent] at seen

theorem observing_one {key : Key} {v : Option Nat} (own : key.collection = c) (noted : txn.Noted → txn'.Noted)
    (observed : ∀ k : Key, txn'.observed[k]? = if key = k then some (txn.observed[k]?.getD v) else txn.observed[k]?)
    (known : txn.observed[key]?.isSome ∨ (schema.primaryKey = none → lo ≤ key.id ∧ key.id < hi ∨
      e.storage.chainOf c key.id ≠ [] ∧ v ≠ none)) : Observing e schema c lo hi txn txn' := by
  refine ⟨noted,?_⟩
  intro k
  rw [observed]
  split
  · rename_i same
    subst same
    cases seen : txn.observed[key]? with
    | some version => exact .inl rfl
    | none =>
      refine .inr ⟨rfl,own,?_⟩
      rw [seen] at known
      simpa using known
  · exact .inl rfl

variable [Host]
section
variable (ok : e.storage.WellFormed) (noted : txn.Noted)
include ok noted

theorem txnTargets_known (filter : Option Filter) : ∀ old ∈ e.txnTargets txn c filter,
      txn.observed[(⟨c,old.id⟩ : Key)]?.isSome ∨ e.storage.chainOf c old.id ≠ [] := by
  intro old inside
  rcases List.mem_append.mp (List.mem_filter.mp inside).1 with visible | own
  · have found := (ok.mem_scanAsOf_iff c txn.readTs old).mp (List.mem_filter.mp visible).1
    refine .inr ?_
    intro empty
    simp [Storage.getAsOf_eq,empty,VersionChain.visibleAt] at found
  · obtain ⟨⟨k,op⟩,listed,isPut⟩ := List.mem_filterMap.mp own
    have staged := (txn.mem_stagedOps k op).mp listed
    cases op with
    | delete => simp at isPut
    | put r =>
      simp only [Option.ite_none_right_eq_some,Option.some.injEq] at isPut
      obtain ⟨placed,rfl⟩ := isPut
      obtain ⟨collection,id⟩ := txn.keyed k r staged
      have same : (⟨c,r.id⟩ : Key) = k := by rw [← placed,collection,id]
      rw [same]
      exact .inl (noted k (by rw [staged]; rfl))

theorem stageMutation_observing (m : Mutation) (declared : e.storage.schemas[m.collection]? = some schema) :
    Observing e schema m.collection e.clock (e.stageMutation txn m).clock txn (e.stageMutation txn m).txn := by
  refine (stageMutation_rule (P := fun clock t =>
    e.clock ≤ clock ∧ Observing e schema m.collection e.clock clock txn t) ?_ ?_ ?_ ⟨Nat.le_refl _,.refl ..⟩).2
  · rintro clock t ⟨late,seen⟩
    exact ⟨Nat.le_succ_of_le late,.trans late (Nat.le_succ _) seen (.refl ..)⟩
  · rintro schema' found clock t fields id v named ⟨late,seen⟩
    obtain rfl := Option.some.inj (declared.symm.trans ((schemaFor_ok_iff e m.collection schema').mp found))
    refine ⟨Nat.le_succ_of_le late,.trans late (Nat.le_succ _) seen ?_⟩
    refine observing_one rfl (fun noted => noted.stagePut _ _) (t.observed_stagePut _ _) (.inr ?_)
    intro keyless
    simp only [recordIdFor,keyless,Except.ok.injEq] at named
    exact .inl ⟨Nat.le_of_eq named,Nat.lt_succ_of_le (Nat.le_of_eq named.symm)⟩
  · rintro filter old inside t fields ⟨late,seen⟩
    have known := (txnTargets_known ok noted filter old inside).imp_left seen.kept
    refine ⟨⟨late,.trans late late seen ?_⟩,late,.trans late late seen ?_⟩
    · refine observing_one rfl (fun noted => noted.stagePut _ _) (t.observed_stagePut _ _) ?_
      exact known.imp_right fun stored _ => .inr ⟨stored,by simp⟩
    · refine observing_one rfl (fun noted => noted.stageDelete _ _ _) (t.observed_stageDelete _ _ _) ?_
      exact known.imp_right fun stored _ => .inr ⟨stored,by simp⟩

theorem stage_observing (m : Mutation) (now : Nat) :
    (e.stage txn m now).1.storage = e.storage ∧ e.clock ≤ (e.stage txn m now).1.clock ∧
      ((e.stage txn m now).2.1 = txn ∨ ∃ schema, e.storage.schemas[m.collection]? = some schema ∧
        Observing e schema m.collection e.clock (e.stage txn m now).1.clock txn (e.stage txn m now).2.1) := by
  obtain ⟨storage,-,clock,-⟩ := System.touchTxn_effect e txn.id now
  unfold stage
  rcases touched : e.touchTxn txn.id now with ⟨e',_ | _⟩
  all_goals rw [touched] at storage clock
  · exact ⟨storage,Nat.le_of_eq clock.symm,.inl rfl⟩
  · refine ⟨storage,clock ▸ (stageMutation_same e' txn m).2.2,?_⟩
    cases declared : e'.storage.schemas[m.collection]? with
    | none =>
      have unknown : e'.schemaFor m.collection = .error (.notFound ("collection " ++ m.collection)) := by
        rw [schemaFor,Storage.getSchema,declared]
      exact .inl (by simp only [stageMutation,unknown])
    | some schema =>
      refine .inr ⟨schema,storage ▸ declared,?_⟩
      have observing := stageMutation_observing (storage ▸ ok) noted m declared
      rw [clock] at observing
      exact ⟨observing.noted,storage ▸ observing.keys⟩

end

end

section
variable [Host] {mode : WriteMode} {txnId : TxnId} {docs : List Document} {io : Result Unit} {result : MutationResult}

theorem prepareWrites_ticks {schema : CollectionSchema}
    {clock : Nat} {pending : List String} {prepared : List (Option Record × Record)}
    (done : (e.prepareWrites schema c mode txnId docs clock pending).2 = .ok prepared) :
    (e.prepareWrites schema c mode txnId docs clock pending).1 = clock + docs.length := by
  induction docs generalizing clock pending prepared with
  | nil => rfl
  | cons fields rest ih =>
    rw [prepareWrites] at done ⊢
    split at done
    · cases done
    rcases one : e.prepareWrite schema c mode txnId pending fields clock with ⟨pair,pending'⟩ | _ | _
    · simp only [one] at done ⊢
      cases others : (e.prepareWrites schema c mode txnId rest (clock + 1) pending').2 with
      | ok _ =>
        rw [ih others,List.length_cons]
        omega
      | err _ | panic _ => simp [others,Outcome.map] at done
    · simp [one] at done
    · simp [one] at done

theorem commitTo_clock (e : Engine) (io : Result Unit) (c : String) (batch : Batch) (updates : List Update) :
    (e.commitTo io c batch updates).1.clock = e.clock := by
  unfold commitTo
  rcases committed : e.storage.commitBatch io batch with ⟨storage,_ | _⟩
  · rfl
  · cases held : e.indexes[c]? <;> rfl

theorem writeRecords_clock (done : (e.writeRecords io c docs mode txnId).2 = .ok result) :
    (e.writeRecords io c docs mode txnId).1.clock = e.clock + docs.length := by
  unfold writeRecords at *
  cases declared : e.schemaFor c with
  | error _ =>
    rw [declared] at done
    cases done
  | ok schema =>
    simp only [declared] at done ⊢
    cases prepared : (e.prepareWrites schema c mode txnId docs e.clock []).2 with
    | ok found =>
      rw [commitTo_clock]
      exact prepareWrites_ticks prepared
    | err _ | panic _ => simp [prepared] at done

theorem applyMutation_ok {m : Mutation} (done : (e.applyMutation io m).2 = .ok result) :
    (e.mutate io m).2 = .ok result ∧ (e.applyMutation io m).1.clock = (e.mutate io m).1.clock := by
  unfold applyMutation at *
  rcases ran : e.mutate io m with ⟨e',out⟩
  rw [ran] at done
  cases out with
  | ok _ => exact ⟨done,rfl⟩
  | err _ | panic _ => cases done

end

end Engine

end

/-! Ids of records without a primary key are ticks of the clock, new as long as it is ahead of every id in use.
A restart sets it to the greatest transaction id in the log plus one, and auto-commit batches log the id zero.
-/
open Library.TreeMap Engine

namespace Engine

def Keyless (e : Engine) (c : String) : Prop :=
  ∃ schema, e.storage.schemas[c]? = some schema ∧ schema.primaryKey = none

end Engine

namespace System
variable {s s' : System} {id : TxnId} {txn : Transaction} {e' : Engine}

/-- The clock is ahead of every id in use without a primary key, and what a transaction has inserted is neither
stored nor seen by another. -/
structure Ahead (s : System) : Prop where
  noted : ∀ (id : TxnId) txn, s.handles[id]? = some txn → txn.Noted
  stored : ∀ c, s.engine.Keyless c → ∀ i, s.engine.storage.chainOf c i ≠ [] → i < s.engine.clock
  observed : ∀ (id : TxnId) txn, s.handles[id]? = some txn → ∀ k : Key, s.engine.Keyless k.collection →
    txn.observed[k]?.isSome → k.id < s.engine.clock
  apart : ∀ (id : TxnId) txn, s.handles[id]? = some txn → ∀ k : Key, s.engine.Keyless k.collection →
    txn.observed[k]? = some none → s.engine.storage.chainOf k.collection k.id = [] ∧
      ∀ (id' : TxnId) txn', id' ≠ id → s.handles[id']? = some txn' → txn'.observed[k]? = none

theorem Ahead.keep (ahead : Ahead s) (schemas : s'.engine.storage.schemas = s.engine.storage.schemas)
    (clock : s.engine.clock ≤ s'.engine.clock) (handles : ∀ (id : TxnId) txn, s'.handles[id]? = some txn →
      s.handles[id]? = some txn ∨ txn.observed = ∅ ∧ txn.staged = ∅)
    (chains : ∀ c, s.engine.Keyless c → ∀ i, s'.engine.storage.chainOf c i ≠ [] →
      s.engine.storage.chainOf c i ≠ [] ∨ i < s'.engine.clock ∧
        ∀ (id : TxnId) txn, s'.handles[id]? = some txn → txn.observed[(⟨c,i⟩ : Key)]? ≠ some none) : Ahead s' := by
  have keyless (c : String) (holds : s'.engine.Keyless c) : s.engine.Keyless c := by
    unfold Engine.Keyless at *
    rwa [← schemas]
  refine ⟨?_,?_,?_,?_⟩
  · intro id txn held
    rcases handles id txn held with before | ⟨-,unstaged⟩
    · exact ahead.noted id txn before
    · intro k staged
      simp [unstaged] at staged
  · intro c holds i some
    rcases chains c (keyless c holds) i some with before | ⟨bounded,-⟩
    · exact Nat.lt_of_lt_of_le (ahead.stored c (keyless c holds) i before) clock
    · exact bounded
  · intro id txn held k holds seen
    rcases handles id txn held with before | ⟨empty,-⟩
    · exact Nat.lt_of_lt_of_le (ahead.observed id txn before k (keyless _ holds) seen) clock
    · simp [empty] at seen
  · intro id txn held k holds new
    rcases handles id txn held with before | ⟨empty,-⟩
    · obtain ⟨unstored,others⟩ := ahead.apart id txn before k (keyless _ holds) new
      refine ⟨?_,?_⟩
      · by_contra some
        rcases chains k.collection (keyless _ holds) k.id some with was | ⟨-,free⟩
        · exact was unstored
        · exact free id txn held new
      · intro id' txn' other held'
        rcases handles id' txn' held' with before' | ⟨empty,-⟩
        · exact others id' txn' other before'
        · simp [empty]
    · simp [empty] at new

theorem Ahead.late (ahead : Ahead s) {k : Key} (keyless : s.engine.Keyless k.collection)
    (late : s.engine.clock ≤ k.id) : s.engine.storage.chainOf k.collection k.id = [] ∧
      ∀ (id : TxnId) txn, s.handles[id]? = some txn → txn.observed[k]? = none := by
  refine ⟨?_,?_⟩
  · by_contra some
    exact absurd (ahead.stored _ keyless _ some) (Nat.not_lt.mpr late)
  · intro id txn held
    by_contra seen
    exact absurd (ahead.observed id txn held k keyless (Option.isSome_iff_ne_none.mpr seen)) (Nat.not_lt.mpr late)

theorem Ahead.insert (ahead : Ahead s) {txn' : Transaction}
    (held : s.handles[id]? = some txn) (storage : e'.storage = s.engine.storage)
    (clock : s.engine.clock ≤ e'.clock) (noted : txn'.Noted)
    (origin : ∀ k : Key, s.engine.Keyless k.collection → txn'.observed[k]? = txn.observed[k]? ∨
      (s.engine.clock ≤ k.id ∧ k.id < e'.clock) ∨
        s.engine.storage.chainOf k.collection k.id ≠ [] ∧ txn'.observed[k]? ≠ some none) :
    Ahead ⟨e',s.handles.insert id txn'⟩ := by
  have keyless {c : String} (holds : e'.Keyless c) : s.engine.Keyless c := by
    unfold Engine.Keyless at *
    rwa [← storage]
  -- a new insert of the transaction meets no other one, and no other one meets its
  have mine {k : Key} (holds : s.engine.Keyless k.collection) (new : txn'.observed[k]? = some none) :
      s.engine.storage.chainOf k.collection k.id = [] ∧
        ∀ (id' : TxnId) txn₂, id' ≠ id → s.handles[id']? = some txn₂ → txn₂.observed[k]? = none := by
    rcases origin k holds with same | ⟨late,-⟩ | ⟨-,stale⟩
    · exact ahead.apart id txn held k holds (same ▸ new)
    · obtain ⟨unstored,unseen⟩ := ahead.late holds late
      exact ⟨unstored,fun id' txn₂ _ => unseen id' txn₂⟩
    · exact absurd new stale
  have other {k : Key} (holds : s.engine.Keyless k.collection) {id' : TxnId} {txn₂ : Transaction} (different : id' ≠ id)
      (before : s.handles[id']? = some txn₂) (new : txn₂.observed[k]? = some none) : txn'.observed[k]? = none := by
    obtain ⟨unstored,others⟩ := ahead.apart id' txn₂ before k holds new
    rcases origin k holds with same | ⟨late,-⟩ | ⟨some,-⟩
    · exact same.trans (others id txn (Ne.symm different) held)
    · rw [(ahead.late holds late).2 id' txn₂ before] at new
      cases new
    · exact absurd unstored some
  refine ⟨?_,?_,?_,?_⟩
  · exact forall_insert (P := fun _ txn => txn.Noted) noted fun id' txn₂ _ => ahead.noted id' txn₂
  · intro c holds i some
    exact Nat.lt_of_lt_of_le (ahead.stored c (keyless holds) i (storage ▸ some)) clock
  · intro id' txn₂ found k holds seen
    rcases of_getElem?_insert found with ⟨-,rfl⟩ | ⟨-,before⟩
    · rcases origin k (keyless holds) with same | ⟨-,early⟩ | ⟨some,-⟩
      · exact Nat.lt_of_lt_of_le (ahead.observed id txn held k (keyless holds) (same ▸ seen)) clock
      · exact early
      · exact Nat.lt_of_lt_of_le (ahead.stored _ (keyless holds) _ some) clock
    · exact Nat.lt_of_lt_of_le (ahead.observed id' txn₂ before k (keyless holds) seen) clock
  · intro id' txn₂ found k holds new
    simp only [storage]
    rcases of_getElem?_insert found with ⟨rfl,rfl⟩ | ⟨different,before⟩
    · obtain ⟨unstored,others⟩ := mine (keyless holds) new
      refine ⟨unstored,fun id₃ txn₃ apart found => ?_⟩
      rcases of_getElem?_insert found with ⟨same,-⟩ | ⟨-,before⟩
      · exact absurd same apart
      · exact others id₃ txn₃ apart before
    · obtain ⟨unstored,others⟩ := ahead.apart id' txn₂ before k (keyless holds) new
      refine ⟨unstored,fun id₃ txn₃ apart found => ?_⟩
      rcases of_getElem?_insert found with ⟨-,rfl⟩ | ⟨-,before₃⟩
      · exact other (keyless holds) different before new
      · exact others id₃ txn₃ apart before₃

section
variable {changes : List Change} {c : String} {i n : RecordId} {e : Engine} {storage : Storage}

theorem chainOf_applied_ne (ok : storage.WellFormed) {txnId : TxnId}
    (some : (storage.applied (storage.lastCommitTs + 1) ⟨txnId,changes.map Change.op⟩).chainOf c i ≠ []) :
    storage.chainOf c i ≠ [] ∨ ∃ ch ∈ changes, ch.key = ⟨c,i⟩ := by
  rw [Storage.chainOf_applied ok _ _ (Nat.lt_succ_self _)] at some
  cases written : lastWrite (changes.map Change.op) c i with
  | none => exact .inl (by simpa [written] using some)
  | some value =>
    rw [Change.lastWrite_ops,Option.map_eq_some_iff] at written
    obtain ⟨w,found,-⟩ := written
    obtain ⟨ch,inside,isWrite⟩ := List.mem_map.mp (List.mem_reverse.mp (List.mem_of_find?_eq_some found))
    have placed := beq_iff_eq.mp (List.mem_filter.mp inside).2
    have named := List.find?_some found
    rw [beq_iff_eq] at named
    refine .inr ⟨ch,(List.mem_filter.mp inside).1,?_⟩
    rw [← placed,← named,← isWrite]

theorem Ahead.unused (ahead : Ahead s) (keyless : s.engine.Keyless c)
    (late : s.engine.clock ≤ n) : s.engine.storage.chainOf c n = [] := by
  by_contra some
  exact absurd (ahead.stored c keyless n some) (Nat.not_lt.mpr late)

theorem Ahead.unseen (ahead : Ahead s) (keyless : s.engine.Keyless c)
    (held : s.handles[id]? = some txn) (late : s.engine.clock ≤ n) : s.engine.txnGet txn c n = none := by
  have unstaged : txn.staged[(⟨c,n⟩ : Key)]? = none := by
    cases staged : txn.staged[(⟨c,n⟩ : Key)]? with
    | none => rfl
    | some op =>
      have seen := ahead.noted id txn held ⟨c,n⟩ (by rw [staged]; rfl)
      exact absurd (ahead.observed id txn held ⟨c,n⟩ keyless seen) (Nat.not_lt.mpr late)
  rw [txnGet,Transaction.overlay,unstaged,Storage.getAsOf_eq,ahead.unused keyless late]
  rfl

variable [Host] {docs : List Document} {io : Result Unit}
  {schema : CollectionSchema} {ch : Change} {m : Mutation} {a : Act} {now : List Committed}

theorem Ahead.stage (ahead : Ahead s) (tracked : Tracked s)
    (held : s.handles[id]? = some txn) (m : Mutation) (now : Nat) :
    Ahead ⟨(s.engine.stage txn m now).1,s.handles.insert id (s.engine.stage txn m now).2.1⟩ := by
  have noted := ahead.noted id txn held
  obtain ⟨storage,clock,staged⟩ := stage_observing tracked.wellFormed noted m now
  rcases staged with same | ⟨schema,declared,observing⟩
  · rw [same]
    exact ahead.insert held storage clock noted fun _ _ => .inl rfl
  · refine ahead.insert held storage clock (observing.noted noted) ?_
    rintro k ⟨schema',declared',none⟩
    rcases observing.keys k with same | ⟨-,own,origin⟩
    · exact .inl same
    · rw [own] at declared' ⊢
      obtain rfl : schema = schema' := Option.some.inj (declared.symm.trans declared')
      exact .inr (origin none)

theorem numbered_length {n : Nat} {records : List Record}
    (numbered : Numbered schema n docs records) : docs.length = records.length := by
  induction docs generalizing n records with
  | nil => cases records with
    | nil => rfl
    | cons => exact absurd numbered (by simp [Numbered])
  | cons d docs ih => cases records with
    | nil => exact absurd numbered (by simp [Numbered])
    | cons r rest => rw [List.length_cons,List.length_cons,ih numbered.2.2]

theorem written_ids (written : Engine.Written e schema docs changes) (keyless : schema.primaryKey = none)
    (inside : ch ∈ changes) : e.clock ≤ ch.key.id ∧ ch.key.id < e.clock + docs.length := by
  obtain ⟨records,rfl,numbered,-⟩ := written
  obtain ⟨r,listed,rfl⟩ := List.mem_map.mp inside
  have ids := Engine.Numbered.ids_of_none keyless e.clock docs records numbered
  have member : r.id ∈ List.range' e.clock records.length := ids ▸ List.mem_map.mpr ⟨r,listed,rfl⟩
  rw [numbered_length numbered]
  exact List.mem_range'_1.mp member

theorem made_ids (ok : e.storage.WellFormed) (made : Engine.Made e m changes) (keyless : e.Keyless c)
    (inside : ch ∈ changes) (key : ch.key = ⟨c,i⟩) : e.storage.chainOf c i ≠ [] ∨ e.clock ≤ i ∧ ∀ io result,
      (e.mutate io m).2 = .ok result → i < (e.mutate io m).1.clock := by
  obtain ⟨schema,declared,placed,how⟩ := made
  obtain rfl : m.collection = c := by rw [← (placed ch inside).1,key]
  obtain ⟨schema',declared',none⟩ := keyless
  obtain rfl : schema = schema' := Option.some.inj (declared.symm.trans declared')
  have target {filter : Option Filter} {old : Record} (picked : old ∈ e.targets m.collection filter)
      (same : old.id = i) : e.storage.chainOf m.collection i ≠ [] := by
    have found := mem_targets ok picked
    rw [same,Storage.get_eq] at found
    intro empty
    simp [empty,VersionChain.latest] at found
  have named : ch.key.id = i := by rw [key]
  cases m with
  | insert c fields | upsert c fields | bulkInsert c docs =>
    obtain ⟨late,early⟩ := named ▸ written_ids how none inside
    exact .inr ⟨late,fun io result done => (writeRecords_clock done).symm ▸ early⟩
  | update c filter set | delete c filter =>
    obtain ⟨old,picked,rfl⟩ := List.mem_map.mp (how ▸ inside)
    exact .inl (target picked named)

theorem Ahead.mutate (ahead : Ahead s) (tracked : Tracked s)
    {out : Outcome MutationResult} (done : s.engine.applyMutation io m = (e',out)) (calm : ¬out.Panics)
    (stepped : Stepped s (.mutate m io) ⟨e',s.handles⟩ (committed s.engine e' none)) : Ahead ⟨e',s.handles⟩ := by
  refine ahead.keep stepped.stored.schemas stepped.clock (fun _ _ held => .inl held) ?_
  intro c keyless i some
  cases stepped.stored with
  | quiet storage _ => exact .inl (storage ▸ some)
  | pruned rewritten isGc _ _ => cases isGc
  | committed id io isCommit => cases isCommit
  | mutated m io isMutate changes nonempty effect made =>
    cases isMutate
    have storage : e'.storage = _ := effect.storage
    rw [if_neg (by simpa using nonempty)] at storage
    rw [storage] at some
    rcases chainOf_applied_ne tracked.wellFormed some with before | ⟨ch,inside,key⟩
    · exact .inl before
    · rcases made_ids tracked.wellFormed made keyless inside key with before | ⟨late,early⟩
      · exact .inl before
      · refine .inr ⟨?_,?_⟩
        · -- a mutation that stored something succeeded, so the clock has passed its ids
          cases out with
          | ok result =>
            obtain ⟨succeeded,clock⟩ := applyMutation_ok (congrArg Prod.snd done)
            rw [done] at clock
            exact clock ▸ early io result succeeded
          | err err =>
            obtain ⟨plain,failed⟩ := applyMutation_err (congrArg Prod.snd done)
            have kept := (mutate_err failed).1.1
            rw [← plain,done] at kept
            have moved := congrArg Storage.lastCommitTs (kept.symm.trans storage)
            exact absurd moved (Nat.ne_of_lt (Nat.lt_succ_self _))
          | panic _ => exact absurd trivial calm
        · intro id txn held new
          have early := ahead.observed id txn held ⟨c,i⟩ keyless (by simp [new])
          exact absurd early (Nat.not_lt.mpr late)

theorem Stored.unwritten (stored : Stored s a e') (mutates : ∀ m io, a ≠ .mutate m io)
    (commits : ∀ id io, a ≠ .commit id io)
    (some : e'.storage.chainOf c i ≠ []) : s.engine.storage.chainOf c i ≠ [] := by
  cases stored with
  | quiet storage _ => exact storage ▸ some
  | mutated m io isMutate => exact absurd isMutate (mutates m io)
  | committed id io isCommit => exact absurd isCommit (commits id io)
  | pruned rewritten isGc storage _ =>
    intro empty
    rw [storage,Storage.chainOf_pruned,empty] at some
    exact some (by simp [VersionChain.prune,VersionChain.isDead])

theorem Ahead.commit (ahead : Ahead s) (tracked : Tracked s)
    (handles : s'.handles = s.handles.erase id) (stepped : Stepped s (.commit id io) s' now) : Ahead s' := by
  have left (id' : TxnId) (txn : Transaction) (held : s'.handles[id']? = some txn) :
      id' ≠ id ∧ s.handles[id']? = some txn := by
    rw [handles] at held
    exact of_getElem?_erase held
  refine ahead.keep stepped.stored.schemas stepped.clock (fun id' txn held => .inl (left id' txn held).2) ?_
  intro c keyless i some
  cases stepped.stored with
  | quiet storage _ => exact .inl (storage ▸ some)
  | mutated m io isMutate => cases isMutate
  | pruned rewritten isGc _ _ => cases isGc
  | committed id io isCommit txn held nonempty inTime effect admissible =>
    cases isCommit
    have storage := effect.storage
    rw [if_neg (by simpa using nonempty)] at storage
    rw [storage] at some
    rcases chainOf_applied_ne tracked.wellFormed some with before | ⟨ch,inside,key⟩
    · exact .inl before
    · obtain ⟨⟨k,op⟩,listed,rfl⟩ := List.mem_map.mp inside
      obtain rfl : k = ⟨c,i⟩ := key
      have staged : txn.staged[(⟨c,i⟩ : Key)]?.isSome := by rw [(txn.mem_stagedOps _ op).mp listed]; rfl
      have seen := ahead.noted id txn held ⟨c,i⟩ staged
      refine .inr ⟨Nat.lt_of_lt_of_le (ahead.observed id txn held ⟨c,i⟩ keyless seen) stepped.clock,?_⟩
      intro id' txn' held' new
      obtain ⟨other,before⟩ := left id' txn' held'
      have unseen := (ahead.apart id' txn' before ⟨c,i⟩ keyless new).2 id txn (Ne.symm other) held
      simp [unseen] at seen

theorem Ahead.step (ahead : Ahead s) (tracked : Tracked s) (taken : step s a = some (s',now)) : Ahead s' := by
  have stepped := step_stepped tracked taken
  -- the acts that write nothing
  have idle (mutates : ∀ m io, a ≠ .mutate m io) (commits : ∀ id io, a ≠ .commit id io)
      (handles : ∀ (id : TxnId) txn, s'.handles[id]? = some txn →
        s.handles[id]? = some txn ∨ txn.observed = ∅ ∧ txn.staged = ∅) : Ahead s' :=
    ahead.keep stepped.stored.schemas stepped.clock handles
      fun c _ i some => .inl (stepped.stored.unwritten mutates commits some)
  cases a with
  | begin time connectionId =>
    refine idle (by simp) (by simp) ?_
    cases taken
    intro id txn held
    rcases of_getElem?_insert held with ⟨-,rfl⟩ | ⟨-,before⟩
    · exact .inr ⟨rfl,rfl⟩
    · exact .inl before
  | stage id m time =>
    simp only [System.step] at taken
    split at taken
    · cases taken
    rename_i txn held
    cases taken
    exact ahead.stage tracked held m time
  | read id time =>
    refine idle (by simp) (by simp) ?_
    simp only [System.step] at taken
    split at taken
    · cases taken
    cases taken
    exact fun _ _ before => .inl before
  | commit id io =>
    refine ahead.commit tracked ?_ stepped
    simp only [System.step] at taken
    split at taken
    · cases taken
    rename_i txn held
    rcases done : s.engine.commit io txn with ⟨e',_ | _ | _⟩
    all_goals
      simp only [done] at taken
      cases taken
    all_goals rfl
  | rollback id =>
    refine idle (by simp) (by simp) ?_
    simp only [System.step] at taken
    split at taken
    · cases taken
    cases taken
    intro id' txn' held'
    exact .inl (of_getElem?_erase held').2
  | mutate m io =>
    simp only [System.step] at taken
    rcases done : s.engine.applyMutation io m with ⟨e',out⟩
    cases out with
    | panic _ => simp [done] at taken
    | ok _ | err _ =>
      simp only [done] at taken
      cases taken
      exact ahead.mutate tracked done (fun panics => panics) stepped
  | gc rewritten | reap time =>
    refine idle (by simp) (by simp) ?_
    cases taken
    exact fun _ _ before => .inl before

/-- Acts of an engine, and restarts that open the storage with the greatest transaction id that the log shows.
-/
inductive Life where
  | act (a : Act)
  | restart (lastTxnId : Nat) (options : EngineOptions) (stats : PlannerStats)

def lifeStep (s : System) : Life → Option (System × List Committed)
  | .act a => step s a
  | .restart lastTxnId options stats =>
    match openWith { s.engine.storage with maxTxnId := lastTxnId } options stats with
    | .error _ => none
    | .ok e => some (⟨e,∅⟩,[])

/-- The log shows the ids of all batches, unless it was rewritten with nothing to keep. -/
def Recovers (s : System) (lastTxnId : Nat) : Prop :=
  lastTxnId = s.engine.storage.maxTxnId ∨ lastTxnId = 0 ∧ ∀ c i, s.engine.storage.chainOf c i = []

def Reopens (s : System) : Life → Prop
  | .act _ => True
  | .restart lastTxnId _ _ => s.Recovers lastTxnId

/-- A restart does not set the clock back behind an id in use. -/
def KeepsAhead (s : System) : Life → Prop
  | .act _ => True
  | .restart lastTxnId _ _ => ∀ c, s.engine.Keyless c → ∀ i, s.engine.storage.chainOf c i ≠ [] → i ≤ lastTxnId

theorem opened_ahead {options : EngineOptions} {stats : PlannerStats} (ok : storage.WellFormed)
    (opened : openWith storage options stats = .ok e)
    (stored : ∀ c, e.Keyless c → ∀ i, storage.chainOf c i ≠ [] → i ≤ storage.maxTxnId) :
    Ahead ⟨e,∅⟩ ∧ Tracked ⟨e,∅⟩ := by
  unfold openWith at opened
  split at opened
  · cases opened
  cases opened
  refine ⟨⟨?_,?_,?_,?_⟩,⟨ok,?_,?_,?_⟩⟩
  · simp
  · intro c keyless i some
    exact Nat.lt_succ_of_le (stored c keyless i some)
  · simp
  · simp
  · simp
  · simp
  · exact Nat.lt_of_lt_of_le Nat.zero_lt_one (Nat.le_max_right _ _)

theorem life_ahead {t : System} {shown : List Committed} (run : Run lifeStep KeepsAhead s shown t) (ahead : Ahead s)
    (tracked : Tracked s) : Ahead t ∧ Tracked t := by
  refine run.invariant (fun _ t => Ahead t ∧ Tracked t) ⟨ahead,tracked⟩ ?_
  rintro shown t life u now ⟨ahead,tracked⟩ allowed taken
  cases life with
  | act a => exact ⟨ahead.step tracked taken,(step_stepped tracked taken).tracked tracked⟩
  | restart lastTxnId options stats =>
    simp only [lifeStep] at taken
    split at taken
    · cases taken
    rename_i e opened
    cases taken
    have storage := storage_openWith opened
    have ok : { t.engine.storage with maxTxnId := lastTxnId }.WellFormed :=
      ⟨tracked.wellFormed.ascending,tracked.wellFormed.bounded,tracked.wellFormed.keyed⟩
    refine opened_ahead ok opened ?_
    intro c keyless i some
    refine allowed c ?_ i some
    unfold Engine.Keyless at *
    rwa [storage] at keyless

section
variable (none : schema.primaryKey = none)
include none

theorem prepareWrites_upsert (unused : ∀ n, e.clock ≤ n → e.storage.get c n = Option.none) (docs : List Document)
    (clock : Nat) (late : e.clock ≤ clock) (pending : List String) :
    e.prepareWrites schema c .insert 0 docs clock pending = e.prepareWrites schema c .upsert 0 docs clock pending := by
  induction docs generalizing clock pending with
  | nil => rfl
  | cons fields rest ih =>
    have one : e.prepareWrite schema c .insert 0 pending fields clock =
        e.prepareWrite schema c .upsert 0 pending fields clock := by
      simp [prepareWrite,recordIdFor,none,unused clock late]
    have others (pending' : List String) := ih (clock + 1) (Nat.le_succ_of_le late) pending'
    rw [prepareWrites,prepareWrites,one]
    simp only [others]

theorem writeRecords_upsert (declared : e.storage.schemas[c]? = some schema)
    (unused : ∀ n, e.clock ≤ n → e.storage.get c n = Option.none) (io : Result Unit) (docs : List Document) :
    e.writeRecords io c docs .insert 0 = e.writeRecords io c docs .upsert 0 := by
  rw [writeRecords,writeRecords,(schemaFor_ok_iff e c schema).mpr declared]
  simp only [prepareWrites_upsert none unused docs e.clock (Nat.le_refl _) []]

theorem bulkInsert_keeps (ok : e.storage.WellFormed) (declared : e.storage.schemas[c]? = some schema)
    (used : ∀ i r, e.storage.get c i = some r → i < e.clock)
    {result : MutationResult} (done : e.mutate io (.bulkInsert c docs) = (e',.ok result)) {r : Record}
    (held : e.storage.get c i = some r) : e'.storage.get c i = some r := by
  have ends := mutate_ends e ok io (.bulkInsert c docs)
  rw [done] at ends
  cases ends with
  | committed e' a changes effect frame how =>
    obtain ⟨schema',declared',-,written⟩ := how
    obtain rfl : schema = schema' := Option.some.inj (declared.symm.trans declared')
    rw [effect.get ok c,Live.rewrite_apply]
    have unwritten : (Change.writesTo changes c).reverse.find? (fun w => w.1 == i) = Option.none := by
      rw [List.find?_eq_none]
      intro w inside same
      obtain ⟨ch,listed,rfl⟩ := List.mem_map.mp (List.mem_reverse.mp inside)
      have late := (written_ids written none (List.mem_filter.mp listed).1).1
      exact absurd (used i r held) (Nat.not_lt.mpr (beq_iff_eq.mp same ▸ late))
    rw [unwritten]
    exact held

end

/-- Over a life whose restarts keep the clock ahead, an id generated without a primary key names no record: not
for an auto-commit insert, nor for what a transaction sees or has inserted before it commits. -/
theorem generated_ids_new {s t : System} {shown : List Committed} (started : Started s)
    (initially : ∀ c, s.engine.Keyless c → ∀ i, s.engine.storage.chainOf c i ≠ [] → i < s.engine.clock)
    (run : Run lifeStep KeepsAhead s shown t) {c : String} {schema : CollectionSchema}
    (declared : t.engine.storage.schemas[c]? = some schema) (none : schema.primaryKey = none) :
    (∀ fields, recordIdFor schema fields t.engine.clock = .ok t.engine.clock) ∧
    (∀ i r, t.engine.storage.get c i = some r → i < t.engine.clock) ∧
    (∀ io docs, t.engine.writeRecords io c docs .insert 0 = t.engine.writeRecords io c docs .upsert 0) ∧
    (∀ io docs mode e' result, t.engine.writeRecords io c docs mode 0 = (e',.ok result) →
      ∀ i r, t.engine.storage.get c i = some r → e'.storage.get c i = some r) ∧
    ∀ (id : TxnId) txn, t.handles[id]? = some txn →
      (∀ n, t.engine.clock ≤ n → t.engine.txnGet txn c n = Option.none) ∧
      ∀ i, txn.observed[(⟨c,i⟩ : Key)]? = some Option.none → t.engine.storage.get c i = Option.none := by
  have first : Ahead s := by
    have empty := started.1
    exact ⟨by simp [empty],initially,by simp [empty],by simp [empty]⟩
  obtain ⟨ahead,tracked⟩ := life_ahead run first started.tracked
  have keyless : t.engine.Keyless c := ⟨schema,declared,none⟩
  have used (i : RecordId) (r : Record) (held : t.engine.storage.get c i = some r) : i < t.engine.clock := by
    refine ahead.stored c keyless i ?_
    intro empty
    simp [Storage.get_eq,empty,VersionChain.latest] at held
  have unused (n : RecordId) (late : t.engine.clock ≤ n) : t.engine.storage.get c n = Option.none := by
    rw [Storage.get_eq,ahead.unused keyless late]
    rfl
  refine ⟨?_,used,writeRecords_upsert none declared unused,?_,?_⟩
  · intro fields
    rw [recordIdFor,none]
  · intro io docs mode e' result done i r held
    have inserted : t.engine.mutate io (.bulkInsert c docs) = (e',.ok result) := by
      cases mode with
      | insert => exact done
      | upsert => exact (writeRecords_upsert none declared unused io docs).trans done
    exact bulkInsert_keeps none tracked.wellFormed declared used inserted held
  · intro id txn held
    refine ⟨fun n late => ahead.unseen keyless held late,?_⟩
    intro i new
    rw [Storage.get_eq,(ahead.apart id txn held ⟨c,i⟩ keyless new).1]
    rfl

end

def events : CollectionSchema := ⟨"events",[⟨"kind",.string,false,false,true,false⟩],[],[]⟩

def recordEvent : Life := .act (.mutate (.insert "events" []) (.ok ()))

/-- A transaction that is logged after the insert carries a greater id. -/
def touchEvents : List Life :=
  [.act (.begin 0 none),.act (.stage 2 (.update "events" none [("kind",.text "x")]) 0),.act (.commit 2 (.ok ()))]

def restarting (lastTxnId : Nat) : Life := .restart lastTxnId ⟨60,1⟩ ∅

def keepsAhead (s : System) : Life → Bool
  | .act _ => true
  | .restart lastTxnId _ _ => s.engine.storage.records.toList.all fun p => p.2.toList.all fun q => decide (q.1 ≤ lastTxnId)

theorem keepsAhead_sound (s : System) (l : Life) (passed : keepsAhead s l = true) : KeepsAhead s l := by
  cases l with
  | act _ => trivial
  | restart lastTxnId options stats =>
    simp only [keepsAhead,List.all_eq_true,decide_eq_true_eq] at passed
    intro c _ i some
    cases chains : s.engine.storage.records[c]? with
    | none => simp [Storage.chainOf,RecordMap.chainOf,chains] at some
    | some m =>
      cases chain : m[i]? with
      | none => simp [Storage.chainOf,RecordMap.chainOf,chains,chain] at some
      | some versions =>
        exact passed (c,m) (ExtTreeMap.mem_toList_iff_getElem?_eq_some.mpr chains) (i,versions)
          (ExtTreeMap.mem_toList_iff_getElem?_eq_some.mpr chain)

theorem generated_ids_new_events : ∃ (t : System) (shown : List Committed),
      Run (@lifeStep plainHost) KeepsAhead (fresh events ⟨60,1⟩) shown t ∧ t.engine.clock = 3 ∧
      ∀ i r, t.engine.storage.get "events" i = some r → i < t.engine.clock := by
  obtain ⟨t,shown,run,clock,declared⟩ := @Run.exists_of_guarded _ _ _ (@lifeStep plainHost) KeepsAhead
    ([recordEvent] ++ touchEvents ++ [restarting 2]) (fresh events ⟨60,1⟩) keepsAhead
    (fun t _ => t.engine.clock = 3 ∧ t.engine.storage.schemas["events"]? = some events)
    (by decide +kernel) (fun s l _ => keepsAhead_sound s l)
  refine ⟨t,shown,run,clock,?_⟩
  exact (@generated_ids_new plainHost _ t shown (@fresh_started plainHost events ⟨60,1⟩) (fun _ _ _ some => absurd rfl some)
    run "events" events declared rfl).2.1

def reopens (s : System) : Life → Bool
  | .act _ => true
  | .restart lastTxnId _ _ => lastTxnId == s.engine.storage.maxTxnId

theorem reopens_sound (s : System) (l : Life) (passed : reopens s l = true) : Reopens s l := by
  cases l with
  | act _ => trivial
  | restart lastTxnId options stats => exact .inl (beq_iff_eq.mp passed)

/-- The insert before the restart logs the transaction id zero, so the clock starts over and the next insert is
refused. -/
theorem restart_repeats_id : ∃ (t : System) (shown : List Committed),
      Run (@lifeStep plainHost) Reopens (fresh events ⟨60,1⟩) shown t ∧
      t.engine.storage.schemas["events"]? = some events ∧ events.primaryKey = none ∧
      (t.engine.storage.get "events" t.engine.clock).isSome = true ∧
      (@Engine.applyMutation plainHost t.engine (.ok ()) (.insert "events" [])).2 =
        .err (.uniqueViolation "events record with this primary key already exists") := by
  exact Run.exists_of_guarded [recordEvent,restarting 0] _ reopens _ (by decide +kernel) (fun s l _ => reopens_sound s l)

end System

end AuraDb
