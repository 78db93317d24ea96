import AuraDb.Engine.Invariant

/-! When a commit is safe: it does not panic, what it acknowledged is in storage and in
the indexes, and no replica panics at its batch. -/
namespace AuraDb
open Library Std CollectionIndexes
namespace Engine
section
variable [Host] {e : Engine} {e' : Engine} {txn : Transaction}

def Reflects (e e' : Engine) (txn : Transaction) : Prop :=
  ∀ k : Key, match txn.staged[k]? with
    | some (.put r) => ∃ r', e'.storage.get k.collection k.id = some r' ∧ r'.fields = r.fields
    | some .delete => e'.storage.get k.collection k.id = none
    | none => e'.storage.get k.collection k.id = e.storage.get k.collection k.id

def InTime (e : Engine) (txn : Transaction) : Prop := e.txns[txn.id]?.map (·.state) ≠ some .timedOut

structure CommitSafe (e : Engine) (txn : Transaction) : Prop where
  calm : ∀ io, ¬(e.commit io txn).2.Panics
  reflected : ∀ io e', e.commit io txn = (e',.ok ()) → Reflects e e' txn ∧ Sound e'
  replicas : InTime e txn → ∀ prepared,
    checkAll (e.conflictCheck txn.readTs) (txn.stagedOps.map Prod.fst) = .ok () →
    e.prepareCommits txn.id txn.stagedOps = .ok prepared →
    ∀ r : Engine, r.storage.WellFormed → (∀ c, r.storage.get c = e.storage.get c) →
      ∀ io index, ¬(r.applyReplicatedBatch io ⟨txn.id,prepared.map Prod.fst⟩ index).2.Panics

theorem Effect.reflects (ok : e.storage.WellFormed)
    (effect : Effect e e' txn.id (e.stagedChanges txn)) : Reflects e e' txn := by
  intro k
  have held := effect.get_staged ok k
  cases staged : txn.staged[k]? with
  | none =>
    rw [staged] at held
    exact held
  | some op =>
    rw [staged] at held
    cases op with
    | put r => exact ⟨_,held,rfl⟩
    | delete => exact held

theorem applyReplicatedBatch_panics {r : Engine} (ok : r.storage.WellFormed) (io : Result Unit) (txnId : TxnId)
    (changes : List Change) (index : Nat)
    (panicked : (r.applyReplicatedBatch io ⟨txnId,changes.map Change.op⟩ index).2.Panics) :
    ∃ ch ∈ changes, r.storage.get ch.key.collection ch.key.id = none ∧ ch.new = none := by
  have updates : (changes.map Change.op).map r.replicatedUpdate = changes.map (Change.update r.storage) := by
    rw [List.map_map]
    refine List.map_congr_left ?_
    intro ch _
    simp only [Function.comp_apply,replicatedUpdate,Change.update,Change.op_collection,Change.op_id,Change.op_value]
  unfold applyReplicatedBatch at panicked
  split at panicked
  · exact absurd panicked id
  simp only [updates] at panicked
  split at panicked
  · exact absurd panicked id
  have stuck := (updateIndexes_spec ok changes r.indexes).1
  unfold finishCommit at panicked
  cases done : (updateIndexes (changes.map (Change.update r.storage)) r.indexes).2 with
  | none => exact stuck.mp done
  | some affected =>
    simp only [done] at panicked
    exact absurd panicked id

private theorem commit_panics (ok : e.storage.WellFormed) (inTime : InTime e txn)
    (admissible : Admissible e txn) (deletes : DeletesNothing e txn) : (e.commit (.ok ()) txn).2.Panics := by
  have finished := commitTransaction_ends ok (.ok ()) txn
  have wrote := commitTransaction_admissible admissible (.ok ())
  obtain ⟨ch,inside,absent,isDelete⟩ := (deletesNothing_iff e txn).mp deletes
  rw [if_neg (by simpa using List.ne_nil_of_mem inside)] at wrote
  rw [commit,if_neg inTime]
  generalize e.commitTransaction (.ok ()) txn = done at finished wrote
  cases finished with
  | committed e' a changes effect frame how => exact absurd deletes how.2.2
  | panicked e' m why => trivial
  | refused e' err effect frame =>
    rcases finishCommit_ends ok txn.id (e.stagedChanges txn)
        (e.storage.applied (e.storage.lastCommitTs + 1) ⟨txn.id,(e.stagedChanges txn).map Change.op⟩)
        (by rw [if_neg (by simpa using List.ne_nil_of_mem inside)]) "at least one side present" with
      ⟨_,finish,_⟩ | ⟨_,finish,_⟩
    · simp [finish] at wrote
    · simp [finish] at wrote

private theorem PutsApart.of_sound (schemas : e'.storage.schemas = e.storage.schemas)
    (reflects : Reflects e e' txn) (sound : Sound e') : PutsApart e txn := by
  intro k k' r r' staged staged' here schema found f unique key isKey isKey'
  have at_k := reflects k
  have at_k' := reflects k'
  simp only [staged] at at_k
  simp only [staged'] at at_k'
  obtain ⟨live,isLive,fields⟩ := at_k
  obtain ⟨live',isLive',fields'⟩ := at_k'
  rw [← here] at isLive'
  have ids := sound.covered.uniqueKeys k.collection schema (schemas ▸ found) f unique k.id k'.id live live' key
    isLive isLive' (by rw [fieldKey,fields]; exact isKey) (by rw [fieldKey,fields']; exact isKey')
  exact congrArg₂ Key.mk here ids

/-- A commit is safe exactly where it is refused, or deletes no key that holds nothing and puts no two records
with one unique key. -/
theorem commitSafe_iff (sound : Sound e) (txn : Transaction) : CommitSafe e txn ↔
      (InTime e txn → Admissible e txn → ¬DeletesNothing e txn ∧ PutsApart e txn) := by
  have ok := sound.storage
  constructor
  -- a write of the log that succeeds shows what an unsafe transaction would break
  · intro safe inTime admissible
    have fine : ¬DeletesNothing e txn := fun deletes =>
      safe.calm (.ok ()) (commit_panics ok inTime admissible deletes)
    obtain ⟨e',done⟩ := (commit_ok_iff ok (.ok ()) txn inTime).mpr ⟨admissible,fine,Or.inr rfl⟩
    obtain ⟨reflects,sound'⟩ := safe.reflected (.ok ()) e' done
    have ends := commit_ends ok (.ok ()) txn
    rw [done] at ends
    cases ends with
    | committed _ e1 effect frame _ _ => exact ⟨fine,.of_sound (by exact effect.schemas) reflects sound'⟩
  · intro condition
    refine ⟨?_,?_,?_⟩
    · intro io panicked
      have ends := commit_ends ok io txn
      generalize e.commit io txn = done at ends panicked
      cases ends with
      | timedOut late err | committed inTime e' effect frame admissible fine | refused e' err effect frame =>
        exact panicked
      | panicked inTime e' m admissible deletes => exact (condition inTime admissible).1 deletes
    · intro io e' done
      have ends := commit_ends ok io txn
      rw [done] at ends
      cases ends with
      | committed inTime e1 effect frame admissible fine =>
        have apart := (condition inTime admissible).2.apart
        have checked := stagedChanges_checked admissible
        have made : Effect e { e1 with txns := e1.txns.erase txn.id } txn.id (e.stagedChanges txn) :=
          ⟨effect.storage,effect.indexes⟩
        exact ⟨made.reflects ok,made.sound sound checked (stagedChanges_keys e txn)
          (made.covered sound.covered checked apart).uniqueKeys⟩
    · intro inTime prepared calm gathered r replica same io index panicked
      have keyed : ∀ k op, (k,StagedOp.put op) ∈ txn.stagedOps → op.collection = k.collection ∧ op.id = k.id :=
        fun k op inside => txn.keyed k op ((txn.mem_stagedOps k _).mp inside)
      have isPrepared := ((prepareCommits_ok_iff e txn.id txn.stagedOps keyed prepared).mp gathered).2
      have admissible := (admissible_iff e txn).mpr ⟨calm,isPrepared ▸ gathered⟩
      have ops : prepared.map Prod.fst = (e.stagedChanges txn).map Change.op := by
        rw [isPrepared,List.map_map]
        rfl
      rw [ops] at panicked
      obtain ⟨ch,inside,absent,isDelete⟩ := applyReplicatedBatch_panics replica io txn.id _ index panicked
      rw [same] at absent
      exact (condition inTime admissible).1 ((deletesNothing_iff e txn).mpr ⟨ch,inside,absent,isDelete⟩)

end

theorem commitSafe_iff_notes : ∃ s shown txn, @System.Runs plainHost (System.fresh System.notes ⟨60,1⟩) shown s ∧
    s.handles[(2 : TxnId)]? = some txn ∧ txn.staged[(⟨"notes",System.noteId "a"⟩ : Key)]? = some .delete ∧
    txn.stagedOps.length = 2 ∧ @CommitSafe plainHost s.engine txn := by
  obtain ⟨s,shown,run,sound,txn,held,gone,two,stored,single⟩ := @System.exists_sound plainHost
    [.mutate (.insert "notes" [("id",.text "a")]) (.ok ()),.begin 0 none,.stage 2 (.delete "notes" none) 0,
      .stage 2 (.insert "notes" [("id",.text "b")]) 0] System.notes ⟨60,1⟩
    (fun s _ => ∃ txn ∈ s.handles[(2 : TxnId)]?,
      txn.staged[(⟨"notes",System.noteId "a"⟩ : Key)]? = some .delete ∧ txn.stagedOps.length = 2 ∧
      (∀ p ∈ txn.stagedOps, p.2 = .delete → (s.engine.storage.get p.1.collection p.1.id).isSome = true) ∧
      ∀ p ∈ txn.stagedOps, ∀ q ∈ txn.stagedOps, p.2 ≠ .delete → q.2 ≠ .delete → p.1 = q.1)
    (by decide +kernel) (by simp [System.WritesApart])
  refine ⟨s,shown,txn,run,held,gone,two,(@commitSafe_iff plainHost _ sound _).mpr ?_⟩
  intro _ _
  refine ⟨?_,?_⟩
  · rintro ⟨k,isDelete,absent⟩
    have found := stored (k,.delete) ((txn.mem_stagedOps k _).mpr isDelete) rfl
    rw [absent] at found
    cases found
  · intro k k' r r' isPut isPut' _ _ _ _ _ _ _ _
    exact single (k,.put r) ((txn.mem_stagedOps k _).mpr isPut) (k',.put r')
      ((txn.mem_stagedOps k' _).mpr isPut') (by simp) (by simp)

/-- A transaction inserts a note and deletes it again. Its commit panics, and so does a replica. -/
theorem commit_own_insert_deleted :
    (∃ s shown txn, @System.Runs plainHost (System.fresh System.notes ⟨60,1⟩) shown s ∧
      s.handles[(1 : TxnId)]? = some txn ∧ (@Engine.commit plainHost s.engine (.ok ()) txn).2.Panics) ∧
    (@Engine.applyReplicatedBatch plainHost (System.fresh System.notes ⟨60,1⟩).engine (.ok ())
      ⟨1,[.delete 0 "notes" (System.noteId "a")]⟩ 1).2.Panics := by
  refine ⟨?_,by decide +kernel⟩
  simp only [exists_and_left]
  exact @System.exists_runs plainHost [.begin 0 none,.stage 1 (.insert "notes" [("id",.text "a")]) 0,
    .stage 1 (.delete "notes" none) 0] System.notes ⟨60,1⟩ _ (by decide +kernel)

end Engine

end AuraDb
