import AuraDb.Engine.Invariant
import AuraDb.Engine.Rejection
import AuraDb.Index.Snapshot

/-! Opening with persisted index snapshots. A snapshot is current if the ids and versions of the records are
those it was written with; a record inserted again starts over at version one. -/
namespace AuraDb
open Library Library.Inverted Std CollectionIndexes
variable {schema : CollectionSchema}

namespace CollectionIndexes
variable [Host] {idx : CollectionIndexes} {live live' : Live}

theorem Agrees.of_fields (agrees : Agrees idx live)
    (same : ∀ i, (live' i).map (·.fields) = (live i).map (·.fields)) : Agrees idx live' := by
  have alike {β : Type} (read : Record → Option β) (reads : ∀ r r', r.fields = r'.fields → read r = read r')
      (i : RecordId) : (live' i).bind read = (live i).bind read := by
    have fields := same i
    cases found : live i with
    | none =>
      rw [found,Option.map_none,Option.map_eq_none_iff] at fields
      rw [fields]
    | some r =>
      rw [found,Option.map_some,Option.map_eq_some_iff] at fields
      obtain ⟨r',held,equal⟩ := fields
      rw [held]
      exact reads r' r equal
  have words (f : String) (i : RecordId) : (live' i).elim [] (textWords f) = (live i).elim [] (textWords f) := by
    have equal := alike (fun r => some (textWords f r)) (fun r r' fields => by rw [textWords,textWords,fields]) i
    cases found : live i <;> cases found' : live' i <;> simp_all
  have fields (f : String) := alike (fieldKey f) fun r r' equal => by rw [fieldKey,fieldKey,equal]
  have paths (p : String) := alike (pathKey p) fun r r' equal => by
    rw [pathKey,pathKey,Record.getPath,Record.getPath,equal]
  have vectors (f : String) := alike (vectorOf f) fun r r' equal => by rw [vectorOf,vectorOf,equal]
  refine ⟨?_,?_,?_,?_,?_⟩
  · intro f m held
    rw [funext (fields f)]
    exact agrees.unique f m held
  · intro f m held
    rw [funext (fields f)]
    exact agrees.secondary f m held
  · intro p m held
    rw [funext (paths p)]
    exact agrees.docPath p m held
  · intro f t held
    rw [funext (words f)]
    exact agrees.text f t held
  · intro f m held i
    rw [vectors f i]
    exact agrees.vector f m held i

theorem Agrees.distinct (agrees : Agrees idx live) (shape : SameShape idx (fromSchema schema)) :
    Live.Distinct live schema := by
  intro f unique i j r r' k held held' key key'
  have declared := (fromSchema_uniqueMaps schema f).mpr unique
  rw [← shape.unique f] at declared
  obtain ⟨m,found⟩ := Option.isSome_iff_exists.mp declared
  have first := (agrees.unique f m found k i).mpr (by simp only [held,Option.bind_some,key])
  have second := (agrees.unique f m found k j).mpr (by simp only [held',Option.bind_some,key'])
  exact Option.some.inj (first.symm.trans second)

end CollectionIndexes

namespace Engine
section
variable {storage storage' : Storage} {c : String}

/-- A record with the id and the version of an earlier one has its fields. -/
def Unrecycled (storage storage' : Storage) (c : String) : Prop :=
  ∀ i r r', storage.get c i = some r → storage'.get c i = some r' → r'.version = r.version → r'.fields = r.fields

theorem version_of_listed (ok : storage.WellFormed) (ok' : storage'.WellFormed)
    (listed : (storage.scan c).map (fun r => (r.id,r.version)) =
      (storage'.scan c).map fun r => (r.id,r.version)) {i : RecordId} {r : Record} (held : storage.get c i = some r) :
    ∃ r', storage'.get c i = some r' ∧ r'.version = r.version := by
  obtain rfl : r.id = i := (ok.get_keyed c i r held).2
  have inside : (r.id,r.version) ∈ (storage'.scan c).map fun r => (r.id,r.version) :=
    listed ▸ List.mem_map.mpr ⟨r,(ok.mem_scan_iff c r).mpr held,rfl⟩
  obtain ⟨r',scanned,same⟩ := List.mem_map.mp inside
  have found := (ok'.mem_scan_iff c r').mp scanned
  simp only [Prod.mk.injEq] at same
  rw [same.1] at found
  exact ⟨r',found,same.2⟩

theorem fields_of_listed (ok : storage.WellFormed) (ok' : storage'.WellFormed)
    (listed : (storage.scan c).map (fun r => (r.id,r.version)) =
      (storage'.scan c).map fun r => (r.id,r.version)) (unrecycled : Unrecycled storage storage' c) (i : RecordId) :
    (storage'.get c i).map (·.fields) = (storage.get c i).map (·.fields) := by
  cases held : storage.get c i with
  | some r =>
    obtain ⟨r',held',version⟩ := version_of_listed ok ok' listed held
    rw [held',Option.map_some,Option.map_some,unrecycled i r r' held held' version]
  | none =>
    cases held' : storage'.get c i with
    | none => rfl
    | some r' =>
      obtain ⟨r,found,_⟩ := version_of_listed ok' ok listed.symm held'
      rw [held] at found
      cases found

variable [Host]

def persistIndexes (e : Engine) : ExtTreeMap String IndexSnapshot compare :=
  e.indexes.map fun name idx => idx.snapshot (fingerprint (e.storage.scan name))

def openIndex (storage : Storage) (saved : Option IndexSnapshot) (schema : CollectionSchema) :
    Result CollectionIndexes :=
  match (saved.filter fun snap => snap.fingerprint == fingerprint (storage.scan schema.name)).bind
      (fun snap => (fromSnapshot schema snap).toOption) with
  | some idx => .ok idx
  | none => (fromSchema schema).rebuild (storage.scan schema.name)

/-- The hash tells two lists of ids and versions apart. -/
def Collisionless (records records' : List Record) : Prop :=
  fingerprint records = fingerprint records' →
    records.map (fun r => (r.id,r.version)) = records'.map fun r => (r.id,r.version)

theorem openIndex_ok {saved : Option IndexSnapshot}
    {out : CollectionIndexes} (opened : openIndex storage saved schema = .ok out) :
    (fromSchema schema).rebuild (storage.scan schema.name) = .ok out ∨
      ∃ snap, saved = some snap ∧ snap.fingerprint = fingerprint (storage.scan schema.name) ∧
        fromSnapshot schema snap = .ok out := by
  unfold openIndex at opened
  cases loaded : (saved.filter fun snap => snap.fingerprint == fingerprint (storage.scan schema.name)).bind
      fun snap => (fromSnapshot schema snap).toOption with
  | none =>
    rw [loaded] at opened
    exact .inl opened
  | some idx =>
    rw [loaded] at opened
    obtain rfl := Except.ok.inj opened
    obtain ⟨snap,kept,read⟩ := Option.bind_eq_some_iff.mp loaded
    obtain ⟨found,print⟩ := Option.filter_eq_some_iff.mp kept
    refine .inr ⟨snap,found,by simpa using print,?_⟩
    cases result : fromSnapshot schema snap with
    | error e =>
      rw [result] at read
      cases read
    | ok idx' =>
      rw [result] at read
      exact congrArg Except.ok (Option.some.inj read)

/-- An index that open loads or rebuilds is the one that a rebuild from the current records gives, where no
record was replaced under its id and version. -/
theorem opened_index_current {e : Engine} (sound : Sound e) {storage : Storage} (ok : storage.WellFormed)
    {schema was : CollectionSchema} {out : CollectionIndexes} (declared : e.storage.schemas[schema.name]? = some was)
    (collisionless : Collisionless (e.storage.scan schema.name) (storage.scan schema.name))
    (unrecycled : Unrecycled e.storage storage schema.name)
    (opened : openIndex storage e.persistIndexes[schema.name]? schema = .ok out) :
    ∃ rebuilt, (fromSchema schema).rebuild (storage.scan schema.name) = .ok rebuilt ∧ Equivalent out rebuilt := by
  obtain ⟨idx,held,_,agrees⟩ := sound.indexed schema.name was declared
  have saved : e.persistIndexes[schema.name]? =
      some (idx.snapshot (fingerprint (e.storage.scan schema.name))) := by
    rw [persistIndexes,ExtTreeMap.getElem?_map,held]
    rfl
  rcases openIndex_ok opened with built | ⟨snap,found,print,loaded⟩
  · have current := ok.rebuild_agrees schema.name built
    exact ⟨out,built,current.2.equivalent current.2 (SameShape.refl out)⟩
  · rw [saved] at found
    obtain rfl := Option.some.inj found
    obtain ⟨shape,then_agrees⟩ := fromSnapshot_snapshot agrees loaded
    have listed := collisionless print
    have current := then_agrees.of_fields (fields_of_listed sound.storage ok listed unrecycled)
    obtain ⟨rebuilt,built⟩ := ok.rebuild_ok schema.name (current.distinct shape)
    have rebuiltAgrees := ok.rebuild_agrees schema.name built
    exact ⟨rebuilt,built,current.equivalent rebuiltAgrees.2 (shape.trans rebuiltAgrees.1.symm)⟩

end

def holder (out : Result CollectionIndexes) (field key : String) : Option (Option RecordId) :=
  (out.toOption.bind (·.uniqueMaps[field]?)).map (·[key]?)

theorem holder_some {out : Result CollectionIndexes} {field key : String} {found : Option RecordId}
    (held : holder out field key = some found) :
    ∃ idx m, out = .ok idx ∧ idx.uniqueMaps[field]? = some m ∧ m[key]? = found := by
  obtain ⟨m,inside,looked⟩ := Option.map_eq_some_iff.mp held
  obtain ⟨idx,read,inside⟩ := Option.bind_eq_some_iff.mp inside
  cases out with
  | error e => cases read
  | ok idx' =>
    exact ⟨idx',m,rfl,inside,looked⟩

def mutated (ms : List Mutation) : Engine := ms.foldl (fun e m => (@applyMutation plainHost e (.ok ()) m).1) emptyNotes

def reopened (saved current : Engine) : Result CollectionIndexes :=
  @openIndex plainHost current.storage saved.persistIndexes["notes"]? System.notes

theorem opened_index_current_note : ∃ s shown s' shown', @System.Runs plainHost (System.fresh System.notes ⟨60,1⟩) shown s ∧
      @System.Runs plainHost s shown' s' ∧ s.engine.storage ≠ s'.engine.storage ∧
      ∃ out rebuilt, reopened s.engine s'.engine = .ok out ∧
        @CollectionIndexes.rebuild plainHost (fromSchema System.notes) (s'.engine.storage.scan "notes") = .ok rebuilt ∧
        Equivalent out rebuilt := by
  -- the note is deleted and inserted again as it was, so that the snapshot is loaded
  obtain ⟨s,shown,run,sound,declared,⟨s',shown'⟩,later,moved,listed,kept,held⟩ := @System.exists_sound plainHost
    [.mutate (.insert "notes" (addressed "a" "x")) (.ok ())] System.notes ⟨60,1⟩
    (fun t _ => t.engine.storage.schemas["notes"]? = some System.notes ∧
      ∃ p ∈ steps (@System.step plainHost) t
        [.mutate (.delete "notes" none) (.ok ()),.mutate (.insert "notes" (addressed "a" "x")) (.ok ())],
        t.engine.storage ≠ p.1.engine.storage ∧ (t.engine.storage.scan "notes").map (fun r => (r.id,r.version)) =
          (p.1.engine.storage.scan "notes").map (fun r => (r.id,r.version)) ∧
        (∀ r ∈ t.engine.storage.scan "notes", ∀ r' ∈ p.1.engine.storage.get "notes" r.id, r'.fields = r.fields) ∧
        (holder (reopened t.engine p.1.engine) "email" "\"x\"").isSome = true)
    (by decide +kernel) (by simp [System.WritesApart])
  have run' : @System.Runs plainHost s shown' s' := Run.of_steps _ (fun _ _ _ => trivial) _ _ _ later
  have ok := (@System.Run.along _ plainHost _ _ _ (run.trans run')
    (@System.Started.tracked _ plainHost (@System.fresh_started plainHost System.notes ⟨60,1⟩)) (fun _ _ => True) trivial
    (fun _ _ _ _ _ _ _ _ _ _ => trivial)).2.wellFormed
  obtain ⟨found,held⟩ := Option.isSome_iff_exists.mp held
  obtain ⟨out,_,opened,_⟩ := holder_some held
  obtain ⟨rebuilt,built,alike⟩ := @opened_index_current plainHost s.engine sound s'.engine.storage ok
    System.notes System.notes out declared (fun _ => listed) (by
      intro i r r' was is _
      obtain rfl := (sound.storage.get_keyed "notes" i r was).2
      exact kept r ((sound.storage.mem_scan_iff "notes" r).mpr was) r' is) opened
  exact ⟨s,shown,s',shown',run,run',moved,out,rebuilt,opened,built,alike⟩

def savedNote : Engine := mutated [.insert "notes" (addressed "a" "x")]

def readdressed : Engine :=
  mutated [.insert "notes" (addressed "a" "x"),.delete "notes" none,.insert "notes" (addressed "a" "y")]

/-- The note is saved, deleted, and inserted again with another address under the same id and version: the
snapshot is loaded and does not have the address. -/
theorem reinserted_note_unindexed : (savedNote.storage.scan "notes").map (fun r => (r.id,r.version)) =
        (readdressed.storage.scan "notes").map (fun r => (r.id,r.version)) ∧
      ∃ out rebuilt, reopened savedNote readdressed = .ok out ∧
        @CollectionIndexes.rebuild plainHost (fromSchema System.notes) (readdressed.storage.scan "notes") = .ok rebuilt ∧
        ¬Equivalent out rebuilt := by
  have missed : holder (reopened savedNote readdressed) "email" "\"y\"" = some none := by decide +kernel
  have indexed : holder (@CollectionIndexes.rebuild plainHost (fromSchema System.notes) (readdressed.storage.scan "notes"))
      "email" "\"y\"" = some (some (System.noteId "a")) := by decide +kernel
  obtain ⟨out,m,opened,held,without⟩ := holder_some missed
  obtain ⟨rebuilt,m',built,held',within⟩ := holder_some indexed
  refine ⟨by decide +kernel,out,rebuilt,opened,built,?_⟩
  intro alike
  obtain rfl := alike.unique "email" m m' held held'
  rw [without] at within
  cases within

end Engine

end AuraDb
