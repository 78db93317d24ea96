import AuraDb.Engine.Invariant
import AuraDb.Query.Reads

/-! The reads of the engine, over the committed state or over a transaction's snapshot with its own writes laid
over it. Only a transaction that has staged something gets an index of its own. -/
namespace AuraDb
open Library Library.Ieee754 CollectionIndexes Std
namespace Engine

def committedView (e : Engine) : Source :=
  ⟨e.storage.getSchema,fun c => e.indexes[c]?,e.storage.scan,e.storage.get,fun c => e.plannerStats[c]?⟩

section
variable [Host]

def viewWith (e : Engine) (txn : Transaction) (overlay : Indexes) : Source :=
  ⟨e.storage.getSchema,fun c => overlay[c]?.or e.indexes[c]?,overlayScan e.storage txn,e.txnGet txn,
    fun c => e.plannerStats[c]?⟩

def txnView (e : Engine) (txn : Transaction) (collection : String) : Result Source :=
  -- with nothing staged the view keeps the committed index, also after later commits
  if txn.isEmpty then .ok (e.viewWith txn ∅) else
  match e.storage.getSchema collection with
  | none => .ok (e.viewWith txn ∅)
  | some schema => ((fromSchema schema).rebuild (overlayScan e.storage txn collection)).map
      (fun idx => e.viewWith txn ((∅ : Indexes).insert collection idx))

/-- A point read does not look at the registry; the others are refused after a timeout and count as activity. -/
def txnRead [Ranked] (e : Engine) (txn : Transaction) (now : Nat) : Read → Engine × Result Answer
  | .get c id => (e,.ok (.record (e.txnGet txn c id)))
  | r => match e.touchTxn txn.id now with
    | (e,.error err) => (e,.error err)
    | (e,.ok ()) => (e,(e.txnView txn r.collection).bind (fun src => src.answer r))

theorem Sound.coherent {e : Engine} (sound : Sound e) {c : String} {schema : CollectionSchema}
    {idx : CollectionIndexes} (declared : e.storage.schemas[c]? = some schema) (held : e.indexes[c]? = some idx) :
    e.committedView.Coherent c schema idx := by
  obtain ⟨idx',held',shape,agrees⟩ := sound.indexed c schema declared
  obtain rfl : idx = idx' := Option.some.inj (held.symm.trans held')
  exact ⟨declared,held,shape,agrees,sound.storage.scan_ids c,sound.storage.mem_scan_iff c,
    fun i r found => (sound.storage.get_keyed c i r found).2⟩

/-- Access-path independence: a query with nothing but a filter gives the accepted records along every path,
exactly where each is indexed under the key of every value that an index can be asked for. -/
theorem pathIndependent_iff [Ranked] {e : Engine} (sound : Sound e) (q : FindQuery) (only : q.FilterOnly)
    {schema : CollectionSchema} {idx : CollectionIndexes} (declared : e.storage.schemas[q.collection]? = some schema)
    (valid : schema.validateDefinition = .ok ()) (held : e.indexes[q.collection]? = some idx) :
    PathIndependent e.committedView schema idx q ↔
      ∀ f v, Filter.compare f .eq v ∈ q.conjuncts → idx.hasEqualityIndex f = true →
        ∀ i r, e.storage.get q.collection i = some r → Filter.optional q.filter r = true →
          idx.keyUnder f r = some (indexKey v) := by
  have coherent := sound.coherent declared held
  rw [coherent.pathIndependent only valid]
  constructor
  · intro keys f v asked indexed i r isLive accepted
    have own := coherent.keyed i r isLive
    exact keys f v asked indexed r (List.mem_filter.mpr ⟨(coherent.scanned r).mpr (own ▸ isLive),accepted⟩)
  · intro keys f v asked indexed r accepted
    obtain ⟨listed,passes⟩ := List.mem_filter.mp accepted
    exact keys f v asked indexed r.id r ((coherent.scanned r).mp listed) passes

end

@[reducible] def noRanking : Ranked :=
  ⟨fun _ _ _ => .ok [],fun _ _ _ => .ok [],fun _ _ _ => .ok [],fun _ _ => .ok [],fun _ _ => .ok []⟩

def notesWith (field : String) (value : Value) : FindQuery :=
  { collection := "notes", filter := some (.compare field .eq value) }

theorem notesWith_only (field : String) (value : Value) : (notesWith field value).FilterOnly := ⟨rfl,rfl,rfl,rfl,rfl⟩

theorem notesWith_keys [Host] {src : Source} {idx : CollectionIndexes} {field : String} {value : Value}
    (keys : ∀ r ∈ src.matching (notesWith field value), idx.keyUnder field r = some (indexKey value)) :
    KeysFound src idx (notesWith field value) := by
  intro f v asked _ r accepted
  simp only [notesWith,FindQuery.conjuncts,Option.elim_some,Filter.conjuncts,List.mem_singleton,
    Filter.compare.injEq] at asked
  obtain ⟨rfl,_,rfl⟩ := asked
  exact keys r accepted

/-- The index keys of the score and of the integer it equals are different texts. -/
theorem point_lookup_misses_integer : ∃ (s : System) (shown : List Committed) (idx : CollectionIndexes),
      @System.Runs plainHost (System.fresh System.notes ⟨60,1⟩) shown s ∧ @Sound plainHost s.engine ∧
      s.engine.storage.schemas["notes"]? = some System.notes ∧
      @CollectionSchema.validateDefinition plainHost System.notes = .ok () ∧ s.engine.indexes["notes"]? = some idx ∧
      (notesWith "score" (.int 1)).FilterOnly ∧
      (@Source.matching plainHost s.engine.committedView (notesWith "score" (.int 1))).map (·.id) =
        [System.noteId "a"] ∧
      @find plainHost noRanking s.engine.committedView (notesWith "score" (.int 1)) (fun _ => 0) = .ok [] ∧
      ¬@PathIndependent plainHost noRanking s.engine.committedView System.notes idx (notesWith "score" (.int 1)) := by
  obtain ⟨s,shown,run,sound,declared,idx,held,accepted,_,nothing,rfl⟩ := @System.exists_sound plainHost
    [.mutate (.insert "notes" [("id",.text "a"),("score",.float ⟨0x3ff0000000000000#64⟩)]) (.ok ())] System.notes ⟨60,1⟩
    (fun t _ => t.engine.storage.schemas["notes"]? = some System.notes ∧ ∃ idx, t.engine.indexes["notes"]? = some idx ∧
      (@Source.matching plainHost t.engine.committedView (notesWith "score" (.int 1))).map (·.id) =
        [System.noteId "a"] ∧
      ∃ rows, @find plainHost noRanking t.engine.committedView (notesWith "score" (.int 1)) (fun _ => 0) = .ok rows ∧
        rows = []) (by decide +kernel) (by simp [System.WritesApart])
  refine ⟨s,shown,idx,run,sound,declared,by decide +kernel,held,notesWith_only _ _,accepted,
    nothing,?_⟩
  rintro ⟨_,shows_rows,_,_⟩
  obtain ⟨rows,found,ids,_⟩ := shows_rows (fun _ => 0)
  obtain rfl : [] = rows := Except.ok.inj (nothing.symm.trans found)
  rw [accepted] at ids
  exact absurd ids.length_eq (by simp)

theorem pathIndependent_iff_notes : ∃ (s : System) (shown : List Committed) (idx : CollectionIndexes),
      @System.Runs plainHost (System.fresh System.notes ⟨60,1⟩) shown s ∧ s.engine.indexes["notes"]? = some idx ∧
      (@Source.matching plainHost s.engine.committedView (notesWith "status" (.text "new"))).map (·.id) =
        [System.noteId "a"] ∧
      @PathIndependent plainHost noRanking s.engine.committedView System.notes idx
        (notesWith "status" (.text "new")) := by
  obtain ⟨s,shown,run,sound,declared,accepted,idx,held,keys⟩ := @System.exists_sound plainHost
    [.mutate (.insert "notes" [("id",.text "a"),("status",.text "new")]) (.ok ()),
      .mutate (.insert "notes" [("id",.text "b"),("status",.text "old")]) (.ok ())] System.notes ⟨60,1⟩
    (fun t _ => t.engine.storage.schemas["notes"]? = some System.notes ∧
      (@Source.matching plainHost t.engine.committedView (notesWith "status" (.text "new"))).map (·.id) =
        [System.noteId "a"] ∧ ∃ idx, t.engine.indexes["notes"]? = some idx ∧
          ∀ r ∈ @Source.matching plainHost t.engine.committedView (notesWith "status" (.text "new")),
            @keyUnder plainHost idx "status" r = some (@indexKey plainHost (.text "new")))
    (by decide +kernel) (by simp [System.WritesApart])
  refine ⟨s,shown,idx,run,held,accepted,?_⟩
  refine (@pathIndependent_iff plainHost noRanking s.engine sound _ (notesWith_only _ _) System.notes idx declared
    (by decide +kernel) held).mpr ?_
  intro f v asked indexed i r isLive passes
  have own := (sound.storage.get_keyed "notes" i r isLive).2
  have accepted := List.mem_filter.mpr ⟨(sound.storage.mem_scan_iff "notes" r).mpr (own ▸ isLive),passes⟩
  exact @notesWith_keys plainHost s.engine.committedView idx "status" (.text "new") keys f v asked indexed r accepted

end Engine

end AuraDb
