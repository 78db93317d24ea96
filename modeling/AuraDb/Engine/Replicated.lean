import AuraDb.Engine.SchemaChange

/-! Applying committed commands of the replicated log to the engine. Writes are guarded
by the watermark; schema commands are carried out again each time they are replayed. -/
namespace AuraDb
open Library Std CollectionIndexes

inductive SchemaCommand where
  | create (schema : CollectionSchema)
  | drop (name : String)

abbrev DatabaseCommand := ReplicatedCommand SchemaCommand

namespace DatabaseCommand
variable (commands : List DatabaseCommand)

def declare (schemas : ExtTreeMap String CollectionSchema compare) :
    DatabaseCommand → ExtTreeMap String CollectionSchema compare
  | .schema (.create added) => schemas.insert added.name added
  | .schema (.drop name) => schemas.erase name
  | _ => schemas

def declareAll (commands : List DatabaseCommand) (schemas : ExtTreeMap String CollectionSchema compare) :
    ExtTreeMap String CollectionSchema compare :=
  commands.foldl declare schemas

theorem declareAll_append (more : List DatabaseCommand) (schemas : ExtTreeMap String CollectionSchema compare) :
    declareAll (commands ++ more) schemas = declareAll more (declareAll commands schemas) := List.foldl_append

theorem declareAll_fixed (c : String) : (∀ schemas, (declareAll commands schemas)[c]? = schemas[c]?) ∨
      ∃ last, ∀ schemas, (declareAll commands schemas)[c]? = last := by
  induction commands with
  | nil => exact .inl (fun _ => rfl)
  | cons command rest ih =>
    rcases ih with passes | ⟨last,fixed⟩
    · have one : (∀ schemas, (declare schemas command)[c]? = schemas[c]?) ∨
          ∃ last, ∀ schemas, (declare schemas command)[c]? = last := by
        cases command with
        | noop | write batch => exact .inl (fun _ => rfl)
        | schema command =>
          cases command with
          | create added =>
            by_cases same : added.name = c
            · exact .inr ⟨some added,fun _ => by simp [declare,same]⟩
            · exact .inl (fun _ => by simp [declare,TreeMap.getElem?_insert_eq,same])
          | drop name =>
            by_cases same : name = c
            · exact .inr ⟨none,fun _ => by simp [declare,same]⟩
            · exact .inl (fun _ => by simp [declare,TreeMap.getElem?_erase_eq,same])
      rcases one with kept | ⟨last,fixed⟩
      · exact .inl (fun schemas => (passes _).trans (kept schemas))
      · exact .inr ⟨last,fun schemas => (passes _).trans (fixed schemas)⟩
    · exact .inr ⟨last,fun schemas => fixed _⟩

theorem declareAll_again (schemas : ExtTreeMap String CollectionSchema compare) :
    declareAll commands (declareAll commands schemas) = declareAll commands schemas := by
  apply ExtTreeMap.ext_getElem?
  intro c
  rcases declareAll_fixed commands c with passes | ⟨last,fixed⟩
  · exact passes _
  · rw [fixed,fixed]

end DatabaseCommand

namespace Storage

theorem WellFormed.applyCommittedBatch {s : Storage} (ok : s.WellFormed) (io : Result Unit) (batch : Batch) (ts : Nat) :
    (s.applyCommittedBatch io batch ts).1.WellFormed ∧ (s.applyCommittedBatch io batch ts).1.schemas = s.schemas := by
  unfold Storage.applyCommittedBatch
  split
  · exact ⟨ok,rfl⟩
  · rename_i newer
    split
    · refine ⟨⟨ok.ascending,?_,ok.keyed⟩,rfl⟩
      intro c i v inside
      exact (ok.bounded c i v inside).trans (Nat.not_le.mp newer).le
    · split
      · exact ⟨ok,rfl⟩
      · exact ⟨ok.applied ts batch (Nat.not_le.mp newer),rfl⟩

theorem WellFormed.putSchema [Host] {s : Storage} (ok : s.WellFormed) (saved : Result Unit) (schema : CollectionSchema) :
    (s.putSchema saved schema).1.WellFormed := by
  refine ⟨?_,?_,?_⟩
  · intro c i
    rw [chainOf_putSchema]
    exact ok.ascending c i
  · intro c i v inside
    rw [chainOf_putSchema] at inside
    rw [lastCommitTs_putSchema]
    exact ok.bounded c i v inside
  · intro c i v inside
    rw [chainOf_putSchema] at inside
    exact ok.keyed c i v inside

end Storage

def Outcome.ofResult {α : Type} : Result α → Outcome α
  | .ok value => .ok value
  | .error e => .err e

namespace Engine
section
variable {e e' : Engine} {logIndex : Nat} {schema : CollectionSchema} {appended saved : Result Unit}
  {command : DatabaseCommand}

theorem ofResult_ok {made : Result Unit} (done : Outcome.ofResult made = .ok ()) : made = .ok () := by
  cases made with
  | ok value => rfl
  | error err => cases done

theorem dropSchema_made {name : String}
    (made : (e.dropSchema appended saved name).2 = .ok ()) : (e.storage.dropSchema appended saved name).2 = .ok () := by
  unfold dropSchema at made
  split at made
  · cases made
  · rename_i dropped
    rw [dropped]

theorem dropSchema_failed {name : String} {err : Error} (failed : (e.dropSchema appended saved name).2 = .error err) :
    (e.storage.dropSchema appended saved name).2 = .error err := by
  unfold dropSchema at failed
  split at failed
  · rename_i refused
    rw [refused]
    exact failed
  · cases failed

structure SameData (e e' : Engine) : Prop where
  live : ∀ c, e'.storage.get c = e.storage.get c
  watermark : e'.storage.commitWatermark = e.storage.commitWatermark

theorem SameData.trans {e'' : Engine} (first : SameData e e') (second : SameData e' e'') : SameData e e'' :=
  ⟨fun c => (second.live c).trans (first.live c),second.watermark.trans first.watermark⟩

variable [Host]

def applyCommand (appended saved : Result Unit) (command : DatabaseCommand) (logIndex : Nat) (e : Engine) :
    Engine × Outcome Unit :=
  match command with
  | .noop => (e,.ok ())
  | .write batch => e.applyReplicatedBatch appended batch logIndex
  | .schema (.create schema) => ((e.createSchema saved schema).1,.ofResult (e.createSchema saved schema).2)
  | .schema (.drop name) => ((e.dropSchema appended saved name).1,.ofResult (e.dropSchema appended saved name).2)

theorem storage_finishCommit (e : Engine) (updates : List Update) (message : String) :
    (e.finishCommit updates message).1.storage = e.storage := by
  unfold finishCommit
  dsimp only
  split
  · rfl
  · exact (refreshAll ..).1

theorem storage_applyReplicatedBatch (e : Engine) (io : Result Unit) (batch : Batch) (logIndex : Nat) :
    (e.applyReplicatedBatch io batch logIndex).1.storage = (e.storage.applyCommittedBatch io batch logIndex).1 := by
  unfold applyReplicatedBatch
  split
  · rename_i old
    have ignored : logIndex ≤ e.storage.lastCommitTs := old
    simp [Storage.applyCommittedBatch,ignored]
  · split
    · rename_i done
      rw [done]
    · rename_i done
      rw [storage_finishCommit,done]

theorem applyReplicatedBatch_ok {io : Result Unit} {batch : Batch}
    (done : e.applyReplicatedBatch io batch logIndex = (e',.ok ())) :
    e.storage.applyCommittedBatch io batch logIndex = (e'.storage,.ok ()) := by
  have stored := storage_applyReplicatedBatch e io batch logIndex
  rw [done] at stored
  refine Prod.ext stored.symm ?_
  unfold applyReplicatedBatch at done
  split at done
  · rename_i old
    have ignored : logIndex ≤ e.storage.lastCommitTs := old
    simp [Storage.applyCommittedBatch,ignored]
  · split at done
    · cases done
    · rename_i applied
      rw [applied]

theorem catalog_createSchema (saved : Result Unit) (e : Engine) (valid : schema.validateDefinition = .ok ()) :
    (e.createSchema saved schema).1.storage.schemas = e.storage.schemas.insert schema.name schema := by
  rw [storage_createSchema]
  simp only [Storage.putSchema,valid]
  split <;> rfl

theorem createSchema_ok (ok : e.storage.WellFormed) (valid : schema.validateDefinition = .ok ())
    (fits : e.Fits schema) : (e.createSchema (.ok ()) schema).2 = .ok () :=
  (createSchema_ok_iff ..).mpr ⟨valid,rfl,ok.rebuild_ok schema.name fits⟩

/-- Once it was applied: its timestamp is covered, its definition was valid. -/
def Settled (e : Engine) (logIndex : Nat) : DatabaseCommand → Prop
  | .write _ => logIndex ≤ e.storage.commitWatermark
  | .schema (.create schema) => schema.validateDefinition = .ok ()
  | _ => True

theorem Settled.mono (settled : Settled e logIndex command)
    (later : e.storage.commitWatermark ≤ e'.storage.commitWatermark) : Settled e' logIndex command := by
  cases command with
  | noop => trivial
  | write batch => exact Nat.le_trans settled later
  | schema command =>
    cases command with
    | create schema => exact settled
    | drop name => trivial

structure Applies (command : DatabaseCommand) (logIndex : Nat) (e e' : Engine) : Prop where
  wellFormed : e'.storage.WellFormed
  catalog : e'.storage.schemas = command.declare e.storage.schemas
  later : e.storage.commitWatermark ≤ e'.storage.commitWatermark
  settled : e'.Settled logIndex command

theorem applyCommand_applies (ok : e.storage.WellFormed)
    (done : e.applyCommand (.ok ()) (.ok ()) command logIndex = (e',.ok ())) : Applies command logIndex e e' := by
  cases command with
  | noop =>
    cases done
    exact ⟨ok,rfl,le_rfl,trivial⟩
  | write batch =>
    have stored := applyReplicatedBatch_ok done
    obtain ⟨wellFormed,catalog⟩ := ok.applyCommittedBatch (.ok ()) batch logIndex
    obtain ⟨later,covered⟩ := e.storage.watermark_applyCommittedBatch (.ok ()) batch logIndex
    rw [stored] at wellFormed catalog later covered
    exact ⟨wellFormed,catalog,later,covered rfl⟩
  | schema command =>
    cases command with
    | create schema =>
      obtain ⟨rfl,made⟩ := Prod.ext_iff.mp done
      have valid := ((createSchema_ok_iff ..).mp (ofResult_ok made)).1
      refine ⟨?_,catalog_createSchema (.ok ()) e valid,?_,valid⟩
      · change (e.createSchema (.ok ()) schema).1.storage.WellFormed
        rw [storage_createSchema]
        exact ok.putSchema (.ok ()) schema
      · change _ ≤ (e.createSchema (.ok ()) schema).1.storage.commitWatermark
        rw [storage_createSchema]
        exact Nat.le_of_eq (Storage.lastCommitTs_putSchema ..).symm
    | drop name =>
      obtain ⟨same,made⟩ := Prod.ext_iff.mp done
      have storage : e'.storage = (e.storage.dropSchema (.ok ()) (.ok ()) name).1 :=
        (congrArg Engine.storage same.symm).trans (dropSchema_frame (.ok ()) (.ok ()) name e).2
      obtain ⟨mid,written,forgot⟩ := Storage.dropSchema_done (dropSchema_made (ofResult_ok made))
      have kept : mid.WellFormed ∧ mid.schemas = e.storage.schemas ∧ e.storage.lastCommitTs ≤ mid.lastCommitTs := by
        rcases written with rfl | rfl
        · exact ⟨ok,rfl,le_rfl⟩
        · exact ⟨ok.applied _ _ (Nat.lt_succ_self _),rfl,Nat.le_succ _⟩
      rw [forgot] at storage
      refine ⟨?_,?_,?_,trivial⟩
      · rw [storage]
        exact kept.1.forgotten name
      · simp [storage,Storage.forgotten,DatabaseCommand.declare,kept.2.1]
      · rw [storage]
        exact kept.2.2

/-- The command can be carried out once more: it drops nothing, and a schema it creates
fits the records. -/
def Replayable (e : Engine) : DatabaseCommand → Prop
  | .schema (.create schema) => e.Fits schema
  | .schema (.drop _) => False
  | _ => True

theorem SameData.replayable (same : SameData e e') (replayable : e.Replayable command) : e'.Replayable command := by
  cases command with
  | noop | write batch => trivial
  | schema command =>
    cases command with
    | create schema =>
      change Live.Distinct (e'.storage.get schema.name) schema
      rw [same.live]
      exact replayable
    | drop name => exact replayable

theorem sameData_createSchema (saved : Result Unit) (schema : CollectionSchema) (e : Engine) :
    SameData e (e.createSchema saved schema).1 := by
  have storage := storage_createSchema saved schema e
  constructor
  · intro c
    ext1 i
    rw [storage,Storage.get_eq,Storage.get_eq,Storage.chainOf_putSchema]
  · rw [storage]
    exact Storage.lastCommitTs_putSchema ..

theorem applyCommand_again (ok : e.storage.WellFormed) (settled : e.Settled logIndex command)
    (replayable : e.Replayable command) :
    ∃ e', e.applyCommand (.ok ()) (.ok ()) command logIndex = (e',.ok ()) ∧ SameData e e' := by
  cases command with
  | noop => exact ⟨e,rfl,fun _ => rfl,rfl⟩
  | write batch =>
    have covered : logIndex ≤ e.storage.commitWatermark := settled
    exact ⟨e,by simp [applyCommand,applyReplicatedBatch,covered],fun _ => rfl,rfl⟩
  | schema command =>
    cases command with
    | create schema =>
      have made := createSchema_ok ok settled replayable
      refine ⟨(e.createSchema (.ok ()) schema).1,?_,sameData_createSchema ..⟩
      simp [applyCommand,made,Outcome.ofResult]
    | drop name => exact replayable.elim

end

end Engine

end AuraDb
