import AuraDb.Core.Json
import AuraDb.Storage.Durability

/-! Values through the log. A record is written with each field as JSON and read back field by field; what
`serde` does with numbers, names and structure is taken to lose nothing. -/
namespace AuraDb
open Library Library.Framing Library.Ieee754
namespace Record

def reread (r : Record) : Record := { r with fields := Value.fieldsFromJson (Value.fieldsToJson r.fields) }

/-- Fields that were read from a JSON object, none of whose vectors overflowed. -/
def Accepted (r : Record) : Prop :=
  ∃ fields, Json.fieldsValid fields = true ∧ Json.fieldsNarrow fields = true ∧ r.fields = Value.fieldsFromJson fields

theorem Accepted.reread {r : Record} (accepted : r.Accepted) : r.reread = r := by
  obtain ⟨fields,valid,narrows,same⟩ := accepted
  have stored := (Value.fieldsStored_fromJson fields valid).mpr narrows
  rw [Record.reread,(Value.fieldsFromJson_toJson r.fields).mpr (same ▸ stored)]

end Record

namespace LogOp

def reread : LogOp → LogOp
  | .put ts record => .put ts record.reread
  | .delete ts c i => .delete ts c i

def Accepted : LogOp → Prop
  | .put _ record => record.Accepted
  | .delete _ _ _ => True

theorem Accepted.reread {op : LogOp} (accepted : op.Accepted) : op.reread = op := by
  cases op with
  | put ts record => exact congrArg (LogOp.put ts) (Record.Accepted.reread accepted)
  | delete ts c i => rfl

end LogOp

namespace Batch

def reread (b : Batch) : Batch := ⟨b.txnId,b.ops.map LogOp.reread⟩

theorem reread_accepted {b : Batch} (accepted : ∀ op ∈ b.ops, op.Accepted) : b.reread = b := by
  have ops : b.ops.map LogOp.reread = b.ops := by
    rw [List.map_congr_left (fun op inside => (accepted op inside).reread),List.map_id']
  rw [Batch.reread,ops]

end Batch

namespace Database

/-- A call writes accepted records only, and `serde` gives back the batch with each of its fields read from JSON
again. -/
def Carried (codec : Codec Batch) (place : Option (Nat × Batch)) : Prop :=
  ∀ w ∈ place, (∀ op ∈ w.2.ops, op.Accepted) ∧ codec.read (codec.write w.2) = .ok w.2.reread ∧
    w.1 + (codec.frame w.2).length < 2^64

theorem Carried.readable {codec : Codec Batch} {place : Option (Nat × Batch)} (carried : Carried codec place) :
    Readable codec place := by
  intro w inside
  obtain ⟨accepted,serde,fits⟩ := carried w inside
  refine ⟨⟨?_,?_⟩,fits⟩
  · rw [serde,Batch.reread_accepted accepted]
  · rw [Codec.length_frame] at fits
    omega

/-- Reading a value, writing it and reading it again changes nothing exactly where no vector holds a number that
single precision cannot; so the reopened directory shows records with such fields as they were. -/
theorem values_survive_storage (j : Json) (valid : j.valid = true) :
    (Value.fromJson (Value.fromJson j).toJson = Value.fromJson j ↔ j.narrows = true) ∧
    ∀ (codec : Codec Batch) (syncOnCommit : Bool) (d : Disk) (db db' : Database) (acks : List Ack),
      Opened codec syncOnCommit d db →
      Run (call codec) (fun db c => faultless c = true ∧ Carried codec (db.written c)) db acks db' →
      ∃ d'' st, openWith codec db'.store.syncOnCommit db'.disk = (d'',.ok st) ∧ SameReads st.mem db'.store.mem := by
  constructor
  · exact (Value.fromJson_toJson _).trans (Value.stored_fromJson j valid)
  · intro codec syncOnCommit d db db' acks start run
    have readable : Runs codec (fun _ c => faultless c = true) db acks db' :=
      run.mono (fun _ _ allowed => ⟨allowed.1,allowed.2.readable⟩)
    exact (Opened.exact_run start readable).reopens db'.store.syncOnCommit

def vectorOf (bits : BitVec 64) : Json := .object [("$vector",.array [.float ⟨bits⟩])]

theorem values_survive_storage_vector : Value.fromJson (Value.fromJson (vectorOf 0x3ff8000000000000)).toJson =
      Value.fromJson (vectorOf 0x3ff8000000000000) ∧
    ∃ d st, openWith tinyCodec true (tinyAfter tinyDatabase (.commitBatch none (tinyBatch 1))).disk = (d,.ok st) ∧
      SameReads st.mem (tinyAfter tinyDatabase (.commitBatch none (tinyBatch 1))).store.mem := by
  obtain ⟨back,reopens⟩ := values_survive_storage (vectorOf 0x3ff8000000000000) rfl
  have carried : Carried tinyCodec (tinyDatabase.written (.commitBatch none (tinyBatch 1))) := by
    intro w inside
    obtain rfl := Option.mem_some_iff.mp inside
    refine ⟨?_,rfl,by decide⟩
    intro op member
    obtain rfl := List.mem_singleton.mp member
    exact ⟨[("v",vectorOf 0x3ff8000000000000)],rfl,rfl,rfl⟩
  exact ⟨back.mpr (by decide),reopens tinyCodec true ⟨none,∅,∅⟩ tinyDatabase
    (tinyAfter tinyDatabase (.commitBatch none (tinyBatch 1))) _ tinyDatabase_opened (.next (.start _) (.commitBatch none (tinyBatch 1)) ⟨rfl,carried⟩ rfl)⟩

/-- The number 1e39 is accepted as a vector of one component, becomes infinite, is written as
`null` and read back as a document. -/
theorem values_survive_storage_overflow : (vectorOf 0x48078287f49c4a1d).valid = true ∧
    FieldType.validate (.vector 1) (Value.fromJson (vectorOf 0x48078287f49c4a1d)) = .ok () ∧
    Value.fromJson (Value.fromJson (vectorOf 0x48078287f49c4a1d)).toJson =
      .object [("$vector",.array [.null])] ∧
    Value.fromJson (Value.fromJson (vectorOf 0x48078287f49c4a1d)).toJson ≠
      Value.fromJson (vectorOf 0x48078287f49c4a1d) := by
  exact ⟨rfl,rfl,rfl,nofun⟩

end Database

end AuraDb
