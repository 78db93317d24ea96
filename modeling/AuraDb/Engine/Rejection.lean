import AuraDb.Engine.System

/-! Rejected writes. An auto-commit mutation makes every check before its one file step.
Staging checks record by record and keeps what it has staged so far. -/
namespace AuraDb
open Library Std
namespace Engine
variable {m : Mutation} {err : Error} {e : Engine}
section
variable {io : Result Unit}

theorem commitBatch_err {s s' : Storage} {batch : Batch}
    (failed : s.commitBatch io batch = (s',.error err)) : s' = s ∧ io = .error err := by
  unfold Storage.commitBatch at failed
  split at failed
  · cases failed
  cases io with
  | error _ =>
    cases failed
    exact ⟨rfl,rfl⟩
  | ok _ => cases failed

theorem of_map_err {out : Outcome MutationResult} (failed : out.map (fun _ => ()) = .err err) : out = .err err := by
  cases out with
  | err _ => exact congrArg Outcome.err (Outcome.err.inj failed)
  | ok _ | panic _ => cases failed

variable [Host]

def Untouched (e e' : Engine) : Prop := e'.storage = e.storage ∧ e'.indexes = e.indexes

theorem commitPrepared_err {p : Prepared} (failed : (e.commitPrepared none io p).2 = .err err) :
    Untouched e (e.commitPrepared none io p).1 ∧ io = .error err := by
  unfold commitPrepared Storage.commitThrough at *
  rcases done : e.storage.commitBatch io p.batch with ⟨storage,err' | ts⟩
  · obtain ⟨rfl,rfl⟩ := commitBatch_err done
    rw [done] at failed
    cases failed
    exact ⟨⟨rfl,rfl⟩,rfl⟩
  · simp only [done] at failed
    cases p with
    | mutation c batch updates =>
      dsimp only at failed
      split at failed <;> cases failed
    | transaction batch updates =>
      unfold finishCommit at failed
      dsimp only at failed
      split at failed <;> cases failed

/-- The outcome of the file step is taken once, with all checks behind it. -/
theorem mutate_err (failed : (e.mutate io m).2 = .err err) :
    Untouched e (e.mutate io m).1 ∧ (io ≠ .error err → ∀ io', e.mutate io' m = e.mutate io m) := by
  have served (io : Result Unit) : commitFound none io (e.prepare (.mutate m)) =
      ((e.mutate io m).1,(e.mutate io m).2.map fun _ => ()) := serveThrough_none e io (.mutate m)
  have frame := prepare_frame e (.mutate m)
  have stopped : (commitFound none io (e.prepare (.mutate m))).2 = .err err := by
    rw [served,failed]
    rfl
  have unmoved : (commitFound none io (e.prepare (.mutate m))).1 = (e.mutate io m).1 := congrArg Prod.fst (served io)
  rw [← unmoved]
  generalize e.prepare (.mutate m) = found at served frame stopped
  obtain ⟨mid,(_ | p) | err' | text⟩ := found
  · cases stopped
  · obtain ⟨kept,broken⟩ := commitPrepared_err stopped
    exact ⟨⟨kept.1.trans frame.1,kept.2.trans frame.2⟩,fun other => absurd broken other⟩
  · refine ⟨frame,fun _ io' => ?_⟩
    have always (io : Result Unit) : e.mutate io m = (mid,.err err') := by
      obtain ⟨same,ended⟩ := Prod.mk.inj (served io)
      exact Prod.ext same.symm (of_map_err ended.symm)
    rw [always io,always io']
  · cases stopped

theorem applyMutation_err (rejected : (e.applyMutation io m).2 = .err err) :
    e.applyMutation io m = e.mutate io m ∧ (e.mutate io m).2 = .err err := by
  unfold applyMutation at *
  rcases ran : e.mutate io m with ⟨e',out⟩
  rw [ran] at rejected
  cases out with
  | ok result => cases rejected
  | err _ => exact ⟨rfl,rejected⟩
  | panic _ => cases rejected

/-- A rejected mutation leaves chains, watermark and indexes as they were; unless the error is that of the file
step, the step was not taken. -/
theorem rejected_mutation_unchanged (e : Engine) (io : Result Unit) (m : Mutation) (err : Error)
    (rejected : (e.applyMutation io m).2 = .err err) :
    Untouched e (e.applyMutation io m).1 ∧
      (io ≠ .error err → ∀ io', e.applyMutation io' m = e.applyMutation io m) := by
  obtain ⟨plain,failed⟩ := applyMutation_err rejected
  obtain ⟨kept,unwritten⟩ := mutate_err failed
  refine ⟨plain ▸ kept,?_⟩
  intro other io'
  rw [applyMutation,applyMutation,unwritten other io']

end

def emptyNotes : Engine := (System.fresh System.notes ⟨60,1⟩).engine

def addressed (pk email : String) : Document := [("id",.text pk),("email",.text email)]

theorem rejected_mutation_unchanged_batch : (∃ err, (@applyMutation plainHost emptyNotes (.ok ())
      (.bulkInsert "notes" [addressed "a" "x",addressed "b" "x"])).2 = .err err) ∧
    Untouched emptyNotes (@applyMutation plainHost emptyNotes (.ok ())
      (.bulkInsert "notes" [addressed "a" "x",addressed "b" "x"])).1 := by
  have rejected : (@applyMutation plainHost emptyNotes (.ok ())
      (.bulkInsert "notes" [addressed "a" "x",addressed "b" "x"])).2 =
        .err (.uniqueViolation "duplicate value for unique field email within batch") := by decide +kernel
  exact ⟨⟨_,rejected⟩,(@rejected_mutation_unchanged plainHost _ _ _ _ rejected).1⟩

theorem map_error_iff {α β : Type} {f : α → β} {r : Result α} :
    (∃ err, r.map f = .error err) ↔ ∃ err, r = .error err := by
  cases r <;> simp [Except.map]

/-- The staged operations with the puts before the first refused one written over them. -/
def overwritten (staged : WriteSet) : List (Option Record) → WriteSet
  | [] | none::_ => staged
  | some r::rest => overwritten (staged.insert ⟨r.collection,r.id⟩ (.put r)) rest

theorem overwritten_size (staged : WriteSet) (puts : List (Option Record)) :
    (overwritten staged puts).size ≤ staged.size + puts.length := by
  induction puts generalizing staged with
  | nil => exact Nat.le_refl _
  | cons first rest ih =>
    cases first with
    | none => exact Nat.le_add_right _ _
    | some r =>
      refine (ih _).trans ?_
      rw [List.length_cons,Nat.add_comm rest.length,← Nat.add_assoc]
      exact Nat.add_le_add_right ExtTreeMap.size_insert_le _

section
variable [Host] {schema : CollectionSchema} {c : String} {txn : Transaction}

/-- The put of one document, where it passes the checks. -/
def putFor (e : Engine) (schema : CollectionSchema) (c : String) (txn : TxnId) (fields : Document)
    (named : Result RecordId) : Option Record :=
  match schema.validateRecord fields, named, e.referentialCheck schema fields with
  | .ok _, .ok id, .ok _ => some ⟨id,c,fields,0,txn⟩
  | _, _, _ => none

def putsFor (e : Engine) (schema : CollectionSchema) (c : String) (txn : TxnId) (docs : List Document) (clock : Nat) :
    List (Option Record) :=
  (docs.zipIdx clock).map fun p => e.putFor schema c txn p.1 (recordIdFor schema p.1 p.2)

/-- The puts that a mutation asks for, before any of them is staged. -/
def asked (e : Engine) (txn : Transaction) (schema : CollectionSchema) : Mutation → List (Option Record)
  | .insert c fields | .upsert c fields => e.putsFor schema c txn.id [fields] e.clock
  | .bulkInsert c docs => e.putsFor schema c txn.id docs e.clock
  | .update c filter set => (e.txnTargets txn c filter).map fun old =>
      e.putFor schema c txn.id (old.fields.merge set) (.ok old.id)
  | .delete .. => []

theorem stageDocs_staged (docs : List Document) (clock : Nat) (txn : Transaction) :
    (e.stageDocs schema c docs clock txn).txn.staged = overwritten txn.staged (e.putsFor schema c txn.id docs clock) ∧
      ((∃ err, (e.stageDocs schema c docs clock txn).result = .error err) ↔
        none ∈ e.putsFor schema c txn.id docs clock) := by
  induction docs generalizing clock txn with
  | nil => simp [stageDocs,putsFor,overwritten]
  | cons fields rest ih =>
    rw [stageDocs,putsFor,List.zipIdx_cons,List.map_cons,putFor.eq_def]
    cases schema.validateRecord fields with
    | error _ => simp [overwritten]
    | ok _ =>
      cases recordIdFor schema fields clock with
      | error _ => simp [overwritten]
      | ok id =>
        cases e.referentialCheck schema fields with
        | error _ => simp [overwritten]
        | ok _ =>
          obtain ⟨staged,refused⟩ := ih (clock + 1)
            (txn.stagePut ⟨id,c,fields,0,txn.id⟩ ((e.txnGet txn c id).map (·.version)))
          refine ⟨staged,?_⟩
          simp only [List.mem_cons,reduceCtorEq,false_or]
          refine Iff.trans ?_ refused
          cases (e.stageDocs schema c rest (clock + 1) _).result <;> simp [Except.map]

theorem stageUpdates_staged (set : Document) (olds : List Record) (txn : Transaction) :
    let puts := olds.map fun old => e.putFor schema c txn.id (old.fields.merge set) (.ok old.id)
    (e.stageUpdates schema c set olds txn).1.staged = overwritten txn.staged puts ∧
      ((∃ err, (e.stageUpdates schema c set olds txn).2 = .error err) ↔ none ∈ puts) := by
  induction olds generalizing txn with
  | nil => simp [stageUpdates,overwritten]
  | cons old rest ih =>
    rw [stageUpdates,List.map_cons,putFor.eq_def]
    cases schema.validateRecord (old.fields.merge set) with
    | error _ => simp [overwritten]
    | ok _ =>
      cases e.referentialCheck schema (old.fields.merge set) with
      | error _ => simp [overwritten]
      | ok _ =>
        obtain ⟨staged,refused⟩ := ih (txn.stagePut ⟨old.id,c,old.fields.merge set,0,txn.id⟩ (some old.version))
        refine ⟨staged,refused.trans ?_⟩
        simp only [List.mem_cons,reduceCtorEq,false_or]
        rfl

theorem stageMutation_staged (declared : e.schemaFor m.collection = .ok schema) :
    ((∃ err, (e.stageMutation txn m).result = .error err) ↔ none ∈ e.asked txn schema m) ∧
      ((∃ c filter, m = .delete c filter) ∨
        (e.stageMutation txn m).txn.staged = overwritten txn.staged (e.asked txn schema m)) := by
  simp only [stageMutation,declared]
  cases m with
  | insert c fields | upsert c fields =>
    obtain ⟨staged,refused⟩ := @stageDocs_staged e _ schema c [fields] e.clock txn
    exact ⟨map_error_iff.trans refused,.inr staged⟩
  | bulkInsert c docs =>
    obtain ⟨staged,refused⟩ := @stageDocs_staged e _ schema c docs e.clock txn
    exact ⟨map_error_iff.trans refused,.inr staged⟩
  | update c filter set =>
    obtain ⟨staged,refused⟩ := @stageUpdates_staged e _ schema c set (e.txnTargets txn c filter) txn
    exact ⟨map_error_iff.trans refused,.inr staged⟩
  | delete c filter => exact ⟨by simp [asked],.inl ⟨c,filter,rfl⟩⟩

/-- What a refused mutation asks for before the refused record is staged already. -/
def AskedBefore (e : Engine) (txn : Transaction) (m : Mutation) : Prop :=
  ∀ schema, e.schemaFor m.collection = .ok schema → none ∈ e.asked txn schema m →
    overwritten txn.staged (e.asked txn schema m) = txn.staged

theorem stageMutation_refused : ((∃ err, (e.stageMutation txn m).result = .error err) →
    (e.stageMutation txn m).txn.staged = txn.staged) ↔ e.AskedBefore txn m := by
  unfold AskedBefore
  cases declared : e.schemaFor m.collection with
  | error _ => simp [stageMutation,declared]
  | ok schema =>
    obtain ⟨refused,staged⟩ := @stageMutation_staged m e _ schema txn declared
    simp only [Except.ok.injEq,forall_eq']
    rw [refused]
    refine forall_congr' fun inside => ?_
    rcases staged with ⟨c,filter,rfl⟩ | staged
    · simp [asked] at inside
    · rw [staged]

/-- The entry of the transaction has no part in the checks. -/
theorem AskedBefore.touched {txns : ExtTreeMap TxnId TxnEntry compare} :
    { e with txns }.AskedBefore txn m ↔ e.AskedBefore txn m := by
  cases m <;> rfl

def TimedOut (e : Engine) (txn : Transaction) : Prop := e.txns[txn.id]?.map (·.state) = some .timedOut

/-- A mutation that staging rejects leaves the staged operations as they were exactly where the transaction has
timed out or the documents and targets before the refused one change none of them. -/
theorem rejected_staging_unchanged (e : Engine) (txn : Transaction) (m : Mutation) (now : Nat) :
    (((∃ err, (e.stage txn m now).2.2 = .error err) → (e.stage txn m now).2.1.staged = txn.staged) ↔
      e.TimedOut txn ∨ e.AskedBefore txn m) ∧ Untouched e (e.stage txn m now).1 := by
  unfold stage touchTxn TimedOut
  cases known : e.txns[txn.id]? with
  | none => simpa [Untouched] using stageMutation_refused
  | some entry =>
    cases state : entry.state with
    | active => simpa [state,Untouched] using stageMutation_refused.trans AskedBefore.touched
    | timedOut => simp [state,Untouched]

end

def noteTxn : Transaction := .beginAt 1 0

def stageNotes (docs : List Document) : Engine × Transaction × Result MutationResult :=
  @stage plainHost emptyNotes noteTxn (.bulkInsert "notes" docs) 0

theorem rejected_staging_unchanged_again : ∃ txn, txn.staged.size = 1 ∧
    (∃ err, (@stage plainHost emptyNotes txn (.bulkInsert "notes" [addressed "a" "x",[]]) 0).2.2 = .error err) ∧
    (@stage plainHost emptyNotes txn (.bulkInsert "notes" [addressed "a" "x",[]]) 0).2.1.staged = txn.staged := by
  have rejected : (@stage plainHost emptyNotes (stageNotes [addressed "a" "x"]).2.1
    (.bulkInsert "notes" [addressed "a" "x",[]]) 0).2.2 = .error (.schemaViolation "field id is required") := by
      decide +kernel
  refine ⟨_,by decide +kernel,⟨_,rejected⟩,(@rejected_staging_unchanged plainHost _ _ _ _).1.mpr (.inr ?_) ⟨_,rejected⟩⟩
  intro schema declared _
  obtain rfl : System.notes = schema := by
    have known : emptyNotes.schemaFor "notes" = .ok System.notes := rfl
    exact Except.ok.inj (known.symm.trans declared)
  decide +kernel

/-- The note before the refused one stays staged, and is stored by the commit. -/
theorem rejected_staging_kept :
    (∃ err, (stageNotes [addressed "a" "x",[]]).2.2 = .error err) ∧ noteTxn.isEmpty = true ∧
      (stageNotes [addressed "a" "x",[]]).2.1.staged.toList.map (·.1) = [⟨"notes",System.noteId "a"⟩] ∧
      System.noteText (@commit plainHost (stageNotes [addressed "a" "x",[]]).1 (.ok ())
        (stageNotes [addressed "a" "x",[]]).2.1).1 "a" "email" = some "x" := by
  exact ⟨⟨.schemaViolation "field id is required",by decide +kernel⟩,by decide +kernel,by decide +kernel,by decide +kernel⟩

end Engine

end AuraDb
