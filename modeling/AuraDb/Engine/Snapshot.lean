import AuraDb.Engine.Horizon
import AuraDb.Engine.Read

/-! What a transaction reads. While it is active nothing changes a record that it sees; the index that a read
goes through and the statistics that it is planned from are another matter. -/
namespace AuraDb
open Library CollectionIndexes Std Engine
variable {txn : Transaction} {c : String}

namespace Transaction

private theorem put_of_shown {p : Key × StagedOp} {r : Record} (inside : p ∈ txn.stagedOps) (shown : (match p.2 with
      | .put r => if r.collection = c then some r else none
      | .delete => none) = some r) : p = (⟨c,r.id⟩,.put r) := by
  obtain ⟨k,op⟩ := p
  have staged := (txn.mem_stagedOps k op).mp inside
  cases op with
  | delete => cases shown
  | put r' =>
    simp only [Option.ite_none_right_eq_some,Option.some.injEq] at shown
    obtain ⟨collection,rfl⟩ := shown
    obtain ⟨sameCollection,sameId⟩ := txn.keyed k r' staged
    rw [← collection,sameCollection,sameId]

theorem mem_stagedPuts (txn : Transaction) (c : String) (r : Record) :
    r ∈ txn.stagedPuts c ↔ txn.staged[(⟨c,r.id⟩ : Key)]? = some (.put r) := by
  rw [stagedPuts,List.mem_filterMap,← txn.mem_stagedOps]
  constructor
  · rintro ⟨p,inside,shown⟩
    exact put_of_shown inside shown ▸ inside
  · intro inside
    refine ⟨_,inside,?_⟩
    simp only [(txn.keyed _ r ((txn.mem_stagedOps _ _).mp inside)).1,if_true]

theorem stagedPuts_ids (txn : Transaction) (c : String) : ((txn.stagedPuts c).map (·.id)).Nodup := by
  rw [List.Nodup,List.pairwise_map,stagedPuts,List.pairwise_filterMap]
  refine List.Pairwise.imp_of_mem ?_ (List.pairwise_map.mp txn.stagedOps_nodup)
  intro p p' inside inside' differ r shown r' shown' same
  apply differ
  rw [put_of_shown inside shown,put_of_shown inside' shown',same]

end Transaction

section
variable {storage : Storage}
section
variable (ok : storage.WellFormed)
include ok

theorem overlay_keyed (i : RecordId) (r : Record)
    (found : txn.overlay (storage.getAsOf c i txn.readTs) c i = some r) : r.id = i := by
  unfold Transaction.overlay at found
  split at found
  · rename_i op staged
    cases op with
    | delete => cases found
    | put r' =>
      cases found
      exact (txn.keyed _ r staged).2
  · exact ok.getAsOf_keyed c i txn.readTs r found

theorem mem_overlayScan (r : Record) :
    r ∈ overlayScan storage txn c ↔ txn.overlay (storage.getAsOf c r.id txn.readTs) c r.id = some r := by
  rw [overlayScan,List.mem_append,List.mem_filter,ok.mem_scanAsOf_iff,txn.mem_stagedPuts,Transaction.overlay]
  cases staged : txn.staged[(⟨c,r.id⟩ : Key)]? with
  | none => simp
  | some op => cases op <;> simp [StagedOp.value]

theorem overlayScan_ids : ((overlayScan storage txn c).map (·.id)).Nodup := by
  rw [overlayScan,List.map_append,List.nodup_append]
  refine ⟨(ok.scanAsOf_ids c txn.readTs).sublist (List.filter_sublist.map _),txn.stagedPuts_ids c,?_⟩
  intro i below j above same
  obtain ⟨r,visible,rfl⟩ := List.mem_map.mp below
  obtain ⟨r',put,rfl⟩ := List.mem_map.mp above
  have unstaged := (List.mem_filter.mp visible).2
  rw [same,(txn.mem_stagedPuts c r').mp put] at unstaged
  cases unstaged

theorem find_overlayScan (i : RecordId) : (overlayScan storage txn c).find? (fun r => r.id == i) =
      txn.overlay (storage.getAsOf c i txn.readTs) c i :=
  find_id_eq _ (fun i => txn.overlay (storage.getAsOf c i txn.readTs) c i) (overlayScan_ids ok)
    (mem_overlayScan ok) (overlay_keyed ok) i

end

end

namespace Engine
variable [Host] {e e' : Engine} {txnId : TxnId} {changes : List Change} {schema : CollectionSchema}

abbrev Shaped (e : Engine) : Prop := Indexed (fun _ _ => True) e

theorem Effect.shaped (effect : Effect e e' txnId changes) (shaped : Shaped e) : Shaped e' := by
  refine ⟨effect.wellFormed shaped.storage,?_⟩
  intro c schema found
  rw [effect.schemas] at found
  obtain ⟨idx,held,shape,_⟩ := shaped.indexed c schema found
  refine ⟨replaceAll (e.storage.get c) idx (Change.writesTo changes c),?_,(replaceAll_shape _ idx).trans shape,trivial⟩
  rw [effect.indexes,held]
  rfl

def snapshotView (e : Engine) (txn : Transaction) (indexes : String → Option CollectionIndexes) : Source :=
  ⟨e.storage.getSchema,indexes,overlayScan e.storage txn,e.txnGet txn,fun c => e.plannerStats[c]?⟩

/-- The read failed, or gave what it computes over the records visible when the transaction began, with its own
writes laid over them. -/
def SnapshotRead [Ranked] (began : Engine) (txn : Transaction) (r : Read) (out : Result Answer) : Prop :=
  (∃ err, out = .error err) ∨ ∃ indexes : String → Option CollectionIndexes,
    (∀ schema idx, began.storage.schemas[r.collection]? = some schema → indexes r.collection = some idx →
      SameShape idx (fromSchema schema) ∧ (r.Asks idx → idx.Agrees (began.txnGet txn r.collection))) ∧
    out = (began.snapshotView txn indexes).answer r

theorem snapshotView_coherent (ok : e.storage.WellFormed) (txn : Transaction)
    {indexes : String → Option CollectionIndexes} {idx : CollectionIndexes}
    (declared : e.storage.schemas[c]? = some schema) (held : indexes c = some idx)
    (shape : SameShape idx (fromSchema schema)) (agrees : idx.Agrees (e.txnGet txn c)) :
    (e.snapshotView txn indexes).Coherent c schema idx :=
  ⟨declared,held,shape,agrees,overlayScan_ids ok,fun _ => mem_overlayScan ok _,overlay_keyed ok⟩

theorem SnapshotRead.rows [Ranked] {began : Engine} (ok : began.storage.WellFormed) {q : FindQuery}
    {elapsed : Stopwatch} (only : q.FilterOnly)
    (declared : began.storage.schemas[q.collection]? = some schema) (valid : schema.validateDefinition = .ok ())
    (asked : (Read.find q elapsed).Asks (fromSchema schema))
    (keys : KeysFound (began.snapshotView txn (fun _ => none)) (fromSchema schema) q) {found : List Row}
    (read : SnapshotRead began txn (.find q elapsed) (.ok (.rows found))) :
    (found.map (·.id)).Perm (((began.snapshotView txn (fun _ => none)).matching q).map (·.id)) := by
  rcases read with ⟨err,failed⟩ | ⟨indexes,index,same⟩
  · cases failed
  have ran : find (began.snapshotView txn indexes) q elapsed = .ok found := by
    cases done : find (began.snapshotView txn indexes) q elapsed with
    | error err => simp [Source.answer,done,Except.map] at same
    | ok rows =>
      simp only [Source.answer,done,Except.map,Except.ok.injEq,Answer.rows.injEq] at same
      rw [same]
  cases held : indexes q.collection with
  | none =>
    have undone : ∃ err, find (began.snapshotView txn indexes) q elapsed = .error err := by
      simp only [find,executeFind,Source.requireSchema,Source.requireIndexes,snapshotView,Storage.getSchema,declared,held]
      cases q.validateSearchClauses <;> exact ⟨_,rfl⟩
    obtain ⟨err,failed⟩ := undone
    rw [failed] at ran
    cases ran
  | some idx =>
    obtain ⟨shape,agrees⟩ := index schema idx declared held
    have coherent := snapshotView_coherent ok txn declared held shape (agrees ((shape.asks_iff _).mpr asked))
    have found_keys : KeysFound (began.snapshotView txn indexes) idx q := by
      intro f v compared indexed r accepted
      rw [shape.keyUnder]
      exact keys f v compared (shape.hasEqualityIndex f ▸ indexed) r accepted
    obtain ⟨rows,shown,ids,_⟩ := ((coherent.pathIndependent only valid).mpr found_keys).rows elapsed
    rw [ran] at shown
    cases shown
    exact ids

/-- A point read of what is not staged needs the transaction to be active; a transaction that has staged nothing
asks only an index that still agrees with its snapshot; and the statistics of now plan a find as those of then
did. -/
structure ReadSafe (began e : Engine) (txn : Transaction) (r : Read) : Prop where
  active : ∀ c i, r = .get c i → txn.staged[(⟨c,i⟩ : Key)]? = none →
    e.txns[txn.id]?.map (·.state) = some .active
  current : txn.isEmpty = true → ∀ idx, e.indexes[r.collection]? = some idx → r.Asks idx →
    idx.Agrees (began.storage.get r.collection)
  planned : ∀ q elapsed, r = .find q elapsed → ∀ schema, began.storage.schemas[q.collection]? = some schema →
    r.Asks (fromSchema schema) →
    planAccess { began.snapshotView txn (fun _ => none) with stats := fun c => e.plannerStats[c]? } q schema
        (fromSchema schema) =
      planAccess (began.snapshotView txn (fun _ => none)) q schema (fromSchema schema)

end Engine

namespace System
section
variable [Host] {s t t' : System} {a : Act} {now : Nat} {connectionId : Option Nat} {shown : List Committed}

theorem Stored.shaped {e' : Engine} (stored : Stored s a e') (shaped : Engine.Shaped s.engine) : Engine.Shaped e' :=
  stored.indexed shaped (fun _ _ _ _ effect _ => effect.shaped shaped) (fun _ _ _ _ _ effect _ => effect.shaped shaped)

/-- The transaction's id is taken, it is registered at the watermark of then, and while it is active the records
of then can be read. -/
structure Pinned (s t : System) (id : TxnId) : Prop where
  schemas : t.engine.storage.schemas = s.engine.storage.schemas
  shaped : Engine.Shaped t.engine
  known : id < t.engine.clock
  level : s.engine.storage.lastCommitTs ≤ t.engine.storage.lastCommitTs
  readTs : ∀ entry, t.engine.txns[id]? = some entry → entry.readTs = s.engine.storage.lastCommitTs
  kept : ∀ entry, t.engine.txns[id]? = some entry → entry.state = .active →
    ∀ c i, t.engine.storage.getAsOf c i s.engine.storage.lastCommitTs = s.engine.storage.get c i

theorem Stepped.pinned {id : TxnId} {now : List Committed} (tracked : Tracked t) (pinned : Pinned s t id)
    (stepped : Stepped t a t' now) : Pinned s t' id := by
  have before (entry' : TxnEntry) (found : t'.engine.txns[id]? = some entry') :
      ∃ entry, t.engine.txns[id]? = some entry ∧ entry.readTs = entry'.readTs ∧
        (entry'.state = .active → entry.state = .active) := by
    rcases stepped.registered id entry' found with earlier | ⟨isNew,_,_⟩
    · exact earlier
    · exact absurd pinned.known (by rw [isNew]; exact Nat.lt_irrefl _)
  refine ⟨stepped.stored.schemas.trans pinned.schemas,stepped.stored.shaped pinned.shaped,
    Nat.lt_of_lt_of_le pinned.known stepped.clock,Nat.le_trans pinned.level stepped.stored.watermark,?_,?_⟩
  · intro entry' found
    obtain ⟨entry,earlier,same,_⟩ := before entry' found
    exact same ▸ pinned.readTs entry earlier
  · intro entry' found active c i
    obtain ⟨entry,earlier,_,wasActive⟩ := before entry' found
    have respected := t.engine.gcCutoff_le_active id entry earlier (wasActive active)
    rw [pinned.readTs entry earlier] at respected
    rw [stepped.stored.getAsOf tracked.wellFormed pinned.level respected]
    exact pinned.kept entry earlier (wasActive active) c i

private theorem begin_pinned (tracked : Tracked s)
    (shaped : Engine.Shaped s.engine) (begun : step s (.begin now connectionId) = some (t,shown)) :
    Pinned s t s.engine.clock := by
  cases begun
  refine ⟨rfl,⟨shaped.storage,shaped.indexed⟩,Nat.lt_succ_self _,Nat.le_refl _,?_,?_⟩
  · intro entry found
    simp only [TreeMap.getElem?_insert_eq,if_true] at found
    cases found
    rfl
  · intro entry found active c i
    exact tracked.wellFormed.getAsOf_watermark c i _ (Nat.le_refl _)

theorem Run.pinned {s₀ s₁ : System} {later now₁ : List Committed} (started : Started s₀) (before : Runs s₀ shown s)
    (begun : step s (.begin now connectionId) = some (s₁,now₁)) (after : Runs s₁ later t) :
    Pinned s t s.engine.clock ∧ Tracked s ∧ Tracked t := by
  have initially : Engine.Shaped s₀.engine := by
    refine ⟨started.sound.storage,?_⟩
    intro c schema found
    obtain ⟨idx,held,shape,_⟩ := started.sound.indexed c schema found
    exact ⟨idx,held,shape,trivial⟩
  obtain ⟨shaped,tracked⟩ := Run.along before started.tracked (fun _ t => Engine.Shaped t.engine) initially
    (fun _ _ _ _ _ _ shaped _ _ stepped => stepped.stored.shaped shaped)
  have tracked₁ := (step_stepped tracked begun).tracked tracked
  obtain ⟨pinned,trackedEnd⟩ := Run.along after tracked₁ (fun _ t => Pinned s t s.engine.clock)
    (begin_pinned tracked shaped begun) (fun _ _ _ _ _ tracked pinned _ _ stepped => stepped.pinned tracked pinned)
  exact ⟨pinned,tracked,trackedEnd⟩

variable {entry : TxnEntry}
section
variable (pinned : Pinned s t txn.id) (tracked : Tracked s)
  (readTs : txn.readTs = s.engine.storage.lastCommitTs) (registered : t.engine.txns[txn.id]? = some entry)
  (active : entry.state = .active)
include pinned tracked readTs registered active

omit [Host] in
private theorem Pinned.sameRecords (indexes : String → Option CollectionIndexes) (overlay : Indexes) :
    (s.engine.snapshotView txn indexes).SameRecords (t.engine.viewWith txn overlay) := by
  have same (c : String) (i : RecordId) :
      t.engine.storage.getAsOf c i txn.readTs = s.engine.storage.getAsOf c i txn.readTs := by
    rw [readTs,pinned.kept entry registered active,tracked.wellFormed.getAsOf_watermark c i _ (Nat.le_refl _)]
  refine ⟨?_,?_,?_⟩
  · funext c
    simp only [viewWith,snapshotView,Storage.getSchema,pinned.schemas]
  · funext c
    simp only [viewWith,snapshotView,overlayScan,Storage.scanAsOf_congr _ _ c _ _ (same c)]
  · funext c i
    simp only [viewWith,snapshotView,txnGet,same]

private theorem Pinned.viewed [Ranked] (r : Read) (safe : Engine.ReadSafe s.engine t.engine txn r) (overlay : Indexes)
    (index : ∀ schema idx, s.engine.storage.schemas[r.collection]? = some schema →
      overlay[r.collection]?.or t.engine.indexes[r.collection]? = some idx →
      SameShape idx (fromSchema schema) ∧ (r.Asks idx → idx.Agrees (s.engine.txnGet txn r.collection))) :
    Engine.SnapshotRead s.engine txn r ((t.engine.viewWith txn overlay).answer r) := by
  have same := pinned.sameRecords tracked readTs registered active
    (fun c => overlay[c]?.or t.engine.indexes[c]?) overlay
  refine Or.inr ⟨fun c => overlay[c]?.or t.engine.indexes[c]?,index,Source.answer_congr same r rfl ?_⟩
  rintro q elapsed rfl schema idx declared held
  obtain ⟨shape,_⟩ := index schema idx declared held
  by_cases asked : (Read.find q elapsed).Asks idx
  · have planned := safe.planned q elapsed rfl schema declared ((shape.asks_iff _).mp asked)
    rw [planAccess_shape shape,planAccess_shape shape]
    simp only [planAccess] at planned ⊢
    rw [same.scan]
    exact planned
  · rw [planAccess_unasked asked,planAccess_unasked asked]

end

private theorem txnRead_viewed [Ranked] (e : Engine) (txn : Transaction) (now : Nat) (r : Read)
    (scans : ∀ c i, r ≠ .get c i) (registered : e.txns[txn.id]? = some entry) :
    (∃ err, (e.txnRead txn now r).2 = .error err) ∨ (entry.state = .active ∧
      (e.txnRead txn now r).2 = (e.txnView txn r.collection).bind (fun src => src.answer r)) := by
  cases r with
  | get c i => exact absurd rfl (scans c i)
  | _ =>
    simp only [txnRead,touchTxn,registered]
    cases state : entry.state with
    | timedOut => exact Or.inl ⟨_,rfl⟩
    | active => exact Or.inr ⟨rfl,rfl⟩

private theorem Pinned.snapshotRead [Ranked] (pinned : Pinned s t txn.id) (tracked : Tracked s)
    (trackedEnd : Tracked t) (readTs : txn.readTs = s.engine.storage.lastCommitTs)
    (registered : t.engine.txns[txn.id]? = some entry) (active : entry.state = .active) (r : Read)
    (scans : ∀ c i, r ≠ .get c i) (safe : Engine.ReadSafe s.engine t.engine txn r) :
    Engine.SnapshotRead s.engine txn r
      ((t.engine.txnView txn r.collection).bind (fun src => src.answer r)) := by
  have same := pinned.sameRecords tracked readTs registered active
  have committed (schema : CollectionSchema) (idx : CollectionIndexes)
      (declared : s.engine.storage.schemas[r.collection]? = some schema)
      (held : t.engine.indexes[r.collection]? = some idx) : SameShape idx (fromSchema schema) := by
    obtain ⟨idx',held',shape,_⟩ := pinned.shaped.indexed r.collection schema (pinned.schemas ▸ declared)
    exact Option.some.inj (held.symm.trans held') ▸ shape
  unfold txnView
  split
  -- nothing staged: of the committed index only the shape is known, and `safe` says the rest
  · rename_i empty
    refine pinned.viewed tracked readTs registered active r safe ∅ ?_
    intro schema idx declared held
    refine ⟨committed schema idx declared held,fun asked => ?_⟩
    have agrees := safe.current empty idx held asked
    have unstaged : s.engine.txnGet txn r.collection = s.engine.storage.get r.collection := by
      funext i
      have none : txn.staged[(⟨r.collection,i⟩ : Key)]? = none := by
        have isEmpty : txn.staged = ∅ := ExtTreeMap.isEmpty_iff.mp empty
        rw [isEmpty,ExtTreeMap.getElem?_empty]
      rw [txnGet,Transaction.overlay,none,readTs]
      exact tracked.wellFormed.getAsOf_watermark r.collection i _ (Nat.le_refl _)
    rwa [unstaged]
  · split
    · rename_i undeclared
      exact Or.inl (Source.answer_undeclared r undeclared scans)
    · rename_i schema declared
      cases rebuilt : (fromSchema schema).rebuild (overlayScan t.engine.storage txn r.collection) with
      | error err => exact Or.inl ⟨err,rfl⟩
      | ok idx =>
        refine pinned.viewed tracked readTs registered active r safe _ ?_
        intro schema' idx' declared' held
        rw [TreeMap.getElem?_insert_eq,if_pos rfl,Option.some_or,Option.some.injEq] at held
        subst held
        obtain rfl : schema = schema' := by
          rw [Storage.getSchema,pinned.schemas,declared'] at declared
          exact (Option.some.inj declared).symm
        obtain ⟨shape,agrees⟩ := rebuild_agrees _ (fromSchema_guarded schema) (overlayScan_ids trackedEnd.wellFormed)
          rebuilt
        refine ⟨shape,fun _ => ?_⟩
        have shown : (fun i => (overlayScan t.engine.storage txn r.collection).find? (fun r => r.id == i)) =
            s.engine.txnGet txn r.collection := by
          funext i
          rw [find_overlayScan trackedEnd.wellFormed]
          exact congrFun (congrFun (same (fun _ => none) ∅).get r.collection) i
        rwa [shown] at agrees

/-- Snapshot reads: a safe read of an unfinished transaction fails or gives what it computes over the records
visible when the transaction began, overlaid with what it has staged. -/
theorem txn_reads_snapshot [Ranked] {s₀ s₁ : System} {shown later now₁ : List Committed} (started : Started s₀)
    (before : Runs s₀ shown s) {time : Nat} {connectionId : Option Nat}
    (begun : step s (.begin time connectionId) = some (s₁,now₁)) (after : Runs s₁ later t) {txn : Transaction}
    (held : t.handles[s.engine.clock]? = some txn) (now : Nat) (r : Read)
    (safe : Engine.ReadSafe s.engine t.engine txn r) :
    Engine.SnapshotRead s.engine txn r (t.engine.txnRead txn now r).2 := by
  obtain ⟨pinned,tracked,trackedEnd⟩ := Run.pinned started before begun after
  obtain ⟨own,entry,registered,pinnedTs⟩ := trackedEnd.held _ txn held
  have readTs : txn.readTs = s.engine.storage.lastCommitTs := pinnedTs.symm.trans (pinned.readTs entry registered)
  rw [← own] at pinned registered
  by_cases point : ∃ c i, r = .get c i
  · obtain ⟨c,i,rfl⟩ := point
    refine Or.inr ⟨fun _ => none,by simp,?_⟩
    have seen : t.engine.txnGet txn c i = s.engine.txnGet txn c i := by
      cases staged : txn.staged[(⟨c,i⟩ : Key)]? with
      | some op => simp only [Engine.txnGet,Transaction.overlay,staged]
      | none =>
        have active := safe.active c i rfl staged
        rw [registered,Option.map_some,Option.some.injEq] at active
        have same := pinned.sameRecords tracked readTs registered active (fun _ => none) ∅
        exact congrFun (congrFun same.get c) i
    rw [Engine.txnRead,seen]
    rfl
  · have scans (c : String) (i : RecordId) : r ≠ .get c i := fun isGet => point ⟨c,i,isGet⟩
    rcases txnRead_viewed t.engine txn now r scans registered with failed | ⟨active,viewed⟩
    · exact Or.inl failed
    · rw [viewed]
      exact pinned.snapshotRead tracked trackedEnd readTs registered active r scans safe

end

theorem exists_begun [Host] (first later : List Act) (s₀ : System) (check : System → System → Transaction → Bool)
    (found : (steps step s₀ first).any (fun p => (step p.1 (.begin 0 none)).any (fun b =>
      (steps step b.1 later).any (fun q => q.1.handles[p.1.engine.clock]?.any (check p.1 q.1)))) = true) :
    ∃ s s₁ t shown now shown' txn, Runs s₀ shown s ∧ step s (.begin 0 none) = some (s₁,now) ∧ Runs s₁ shown' t ∧
      t.handles[s.engine.clock]? = some txn ∧ check s t txn = true := by
  rw [Option.any_eq_true] at found
  obtain ⟨⟨s,shown⟩,before,found⟩ := found
  rw [Option.any_eq_true] at found
  obtain ⟨⟨s₁,now⟩,begun,found⟩ := found
  rw [Option.any_eq_true] at found
  obtain ⟨⟨t,shown'⟩,after,found⟩ := found
  rw [Option.any_eq_true] at found
  obtain ⟨txn,held,passed⟩ := found
  exact ⟨s,s₁,t,shown,now,shown',txn,.of_steps first (fun _ _ _ => trivial) _ _ _ before,begun,
    .of_steps later (fun _ _ _ => trivial) _ _ _ after,held,passed⟩

def rowIds (answer : Result Answer) : Option (List RecordId) :=
  match answer with
  | .ok (.rows rows) => some (rows.map (·.id))
  | _ => none

theorem exists_of_rowIds {answer : Result Answer} {ids : List RecordId} (found : rowIds answer = some ids) :
    ∃ rows, answer = .ok (.rows rows) ∧ rows.map (·.id) = ids := by
  unfold rowIds at found
  split at found
  · rename_i rows
    exact ⟨rows,rfl,Option.some.inj found⟩
  · cases found

section
attribute [local instance] plainHost noRanking

/-- An update committed later moves the note in the committed index, which the find goes through; and once the
transaction is reaped, the collector takes the version that its point read asks for. -/
theorem txn_read_misses_snapshot : (∃ (s s₁ t : System) (shown later now : List Committed) (txn : Transaction),
      @Runs plainHost (fresh notes ⟨60,1⟩) shown s ∧ @step plainHost s (.begin 0 none) = some (s₁,now) ∧
      @Runs plainHost s₁ later t ∧ t.handles[s.engine.clock]? = some txn ∧
      ¬@Engine.SnapshotRead plainHost Engine.noRanking s.engine txn
        (.find (Engine.notesWith "status" (.text "new")) (fun _ => 0))
        (@Engine.txnRead plainHost Engine.noRanking t.engine txn 0
          (.find (Engine.notesWith "status" (.text "new")) (fun _ => 0))).2) ∧
    ∃ (s s₁ t : System) (shown later now : List Committed) (txn : Transaction),
      @Runs plainHost (fresh notes ⟨60,1⟩) shown s ∧ @step plainHost s (.begin 0 none) = some (s₁,now) ∧
      @Runs plainHost s₁ later t ∧ t.handles[s.engine.clock]? = some txn ∧
      ¬@Engine.SnapshotRead plainHost Engine.noRanking s.engine txn (.get "notes" (noteId "a"))
        (@Engine.txnRead plainHost Engine.noRanking t.engine txn 100 (.get "notes" (noteId "a"))).2 := by
  constructor
  · obtain ⟨s,s₁,t,shown,now,later,txn,before,begun,after,held,passed⟩ := exists_begun
      [.mutate (.insert "notes" [("id",.text "a"),("status",.text "new")]) (.ok ())]
      [.mutate (.upsert "notes" [("id",.text "a"),("status",.text "old")]) (.ok ())] (fresh notes ⟨60,1⟩)
      (fun s t txn => decide (s.engine.storage.schemas["notes"]? = some notes) &&
        ((s.engine.snapshotView txn (fun _ => none)).matching
          (Engine.notesWith "status" (.text "new"))).map (·.id) == [noteId "a"] &&
        ((s.engine.snapshotView txn (fun _ => none)).matching (Engine.notesWith "status" (.text "new"))).all (fun r =>
            keyUnder (fromSchema notes) "status" r == some (indexKey (.text "new"))) &&
        rowIds (t.engine.txnRead txn 0 (.find (Engine.notesWith "status" (.text "new")) (fun _ => 0))).2 == some [])
      (by decide +kernel)
    refine ⟨s,s₁,t,shown,later,now,txn,before,begun,after,held,?_⟩
    simp only [Bool.and_eq_true,decide_eq_true_eq,beq_iff_eq,List.all_eq_true] at passed
    obtain ⟨⟨⟨declared,accepted⟩,keys⟩,missed⟩ := passed
    obtain ⟨_,tracked,_⟩ := Run.pinned (fresh_started notes ⟨60,1⟩) before begun after
    intro read
    obtain ⟨rows,nothing,none⟩ := exists_of_rowIds missed
    rw [nothing] at read
    have ids := read.rows tracked.wellFormed (Engine.notesWith_only _ _) declared (by decide +kernel)
      (Or.inr (Or.inl ⟨"status",.text "new",by simp [Engine.notesWith,FindQuery.conjuncts,Filter.conjuncts],
        by decide +kernel⟩)) (Engine.notesWith_keys keys)
    rw [accepted,none] at ids
    exact absurd ids.length_eq (by simp)
  · obtain ⟨s,s₁,t,shown,now,later,txn,before,begun,after,held,passed⟩ := exists_begun
      [.mutate (.insert "notes" [("id",.text "a"),("status",.text "new")]) (.ok ())]
      [.mutate (.upsert "notes" [("id",.text "a"),("status",.text "old")]) (.ok ()),.reap 100,.gc (.ok 0)]
      (fresh notes ⟨60,1⟩)
      (fun s t txn => (s.engine.txnGet txn "notes" (noteId "a")).isSome &&
        (t.engine.txnGet txn "notes" (noteId "a")).isNone)
      (by decide +kernel)
    refine ⟨s,s₁,t,shown,later,now,txn,before,begun,after,held,?_⟩
    simp only [Bool.and_eq_true,Option.isNone_iff_eq_none] at passed
    rintro (⟨err,failed⟩ | ⟨indexes,_,same⟩)
    · cases failed
    · simp only [Engine.txnRead,Source.answer,Engine.snapshotView,Except.ok.injEq,Answer.record.injEq] at same
      rw [← same,passed.2] at passed
      exact absurd passed.1 (by simp)

theorem txn_reads_snapshot_notes :
    ∃ (s s₁ t : System) (shown later now : List Committed) (txn : Transaction) (row : Row),
      @Runs plainHost (fresh notes ⟨60,1⟩) shown s ∧ @step plainHost s (.begin 0 none) = some (s₁,now) ∧
      @Runs plainHost s₁ later t ∧ t.handles[s.engine.clock]? = some txn ∧ row.id = noteId "a" ∧
      noteText t.engine "a" "status" = some "old" ∧
      (@Engine.txnRead plainHost Engine.noRanking t.engine txn 0
        (.find (Engine.notesWith "status" (.text "new")) (fun _ => 0))).2 = .ok (.rows [row]) ∧
      @Engine.SnapshotRead plainHost Engine.noRanking s.engine txn
        (.find (Engine.notesWith "status" (.text "new")) (fun _ => 0)) (.ok (.rows [row])) := by
  obtain ⟨s,s₁,t,shown,now,later,txn,before,begun,after,held,passed⟩ := exists_begun
    [.mutate (.insert "notes" [("id",.text "a"),("status",.text "new")]) (.ok ())]
    [.stage 2 (.insert "notes" [("id",.text "b"),("status",.text "mine")]) 0,
      .mutate (.upsert "notes" [("id",.text "a"),("status",.text "old")]) (.ok ())] (fresh notes ⟨60,1⟩)
    (fun s t txn => decide (s.engine.storage.schemas["notes"]? = some notes) && !txn.isEmpty &&
      noteText t.engine "a" "status" == some "old" &&
      decide (planAccess { s.engine.snapshotView txn (fun _ => none) with stats := fun c => t.engine.plannerStats[c]? }
          (Engine.notesWith "status" (.text "new")) notes (fromSchema notes) =
        planAccess (s.engine.snapshotView txn (fun _ => none)) (Engine.notesWith "status" (.text "new")) notes
          (fromSchema notes)) &&
      rowIds (t.engine.txnRead txn 0 (.find (Engine.notesWith "status" (.text "new")) (fun _ => 0))).2 ==
        some [noteId "a"])
    (by decide +kernel)
  simp only [Bool.and_eq_true,Bool.not_eq_true',decide_eq_true_eq,beq_iff_eq] at passed
  obtain ⟨⟨⟨⟨declared,staged⟩,updated⟩,planned⟩,ran⟩ := passed
  obtain ⟨rows,result,ids⟩ := exists_of_rowIds ran
  obtain ⟨row,rfl,same⟩ := List.map_eq_singleton_iff.mp ids
  have safe : Engine.ReadSafe s.engine t.engine txn
      (.find (Engine.notesWith "status" (.text "new")) (fun _ => 0)) := by
    refine ⟨?_,?_,?_⟩
    · intro c i isGet
      cases isGet
    · intro empty
      simp [staged] at empty
    · intro q elapsed isFind schema declared' _
      cases isFind
      obtain rfl : notes = schema := Option.some.inj (declared.symm.trans declared')
      exact planned
  have read := txn_reads_snapshot (fresh_started notes ⟨60,1⟩) before begun after held 0 _ safe
  rw [result] at read
  exact ⟨s,s₁,t,shown,later,now,txn,row,before,begun,after,held,same,updated,result,read⟩

end

end System

end AuraDb
