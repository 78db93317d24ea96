import AuraDb.Engine.CommitEffect

/-! What a write hands to `commit_batch`, which in a cluster is the proposal to the
replicated log: the batch that its checks on the engine let through. -/
namespace AuraDb
open Library Std CollectionIndexes Change

/-- A client's write: a mutation on its own, or the commit of a transaction. -/
inductive Request where
  | mutate (m : Mutation)
  | commit (txn : Transaction)

def Storage.commitThrough (answer : Option (Result Nat)) (io : Result Unit) (batch : Batch) (s : Storage) :
    Storage × Result Nat :=
  match answer with
  | none => s.commitBatch io batch
  | some (.error err) => (s,.error err)
  | some (.ok ts) => match s.applyCommittedBatch io batch ts with
    | (s,.error err) => (s,.error err)
    | (s,.ok ()) => (s,.ok ts)

/-- What a request has gathered when it comes to `commit_batch`. -/
inductive Prepared where
  | mutation (collection : String) (batch : Batch) (updates : List Update)
  | transaction (batch : Batch) (updates : List Update)

def Prepared.batch : Prepared → Batch
  | .mutation _ batch _ => batch
  | .transaction batch _ => batch

namespace Engine
section

theorem map_unit (o : Outcome Unit) (f : Unit → MutationResult) : (o.map f).map (fun _ => ()) = o := by
  cases o <;> rfl

variable [Host]

def prepareRecords (e : Engine) (collection : String) (list : List Document) (mode : WriteMode) :
    Engine × Outcome (Option Prepared) :=
  match e.schemaFor collection with
  | .error err => (e,.err err)
  | .ok schema =>
    let found := e.prepareWrites schema collection mode 0 list e.clock []
    ({ e with clock := found.1 },found.2.map (fun prepared => some (.mutation collection
      ⟨0,prepared.map (fun p => .put 0 p.2)⟩ (prepared.map (fun p => (p.1,some p.2))))))

def prepareUpdates (e : Engine) (collection : String) (filter : Option Filter) (set : Document) :
    Outcome (Option Prepared) :=
  match e.schemaFor collection with
  | .error err => .err err
  | .ok schema =>
    if setsPrimaryKey schema set then
      .err (.invalidRequest "cannot change the primary key in an update") else
    (Outcome.collect (e.prepareUpdate schema collection set 0) (e.targets collection filter)).map (fun prepared =>
      if prepared.isEmpty then none else some (.mutation collection
        ⟨0,prepared.map (fun p => .put 0 p.2)⟩ (prepared.map (fun p => (some p.1,some p.2)))))

def prepareDeletes (e : Engine) (collection : String) (filter : Option Filter) : Outcome (Option Prepared) :=
  match e.schemaFor collection with
  | .error err => .err err
  | .ok _ =>
    let targets := e.targets collection filter
    match checkAll (e.inboundLinkCheck collection) targets with
    | .error err => .err err
    | .ok () => .ok (if targets.isEmpty then none else some (.mutation collection
        ⟨0,targets.map (fun r => .delete 0 collection r.id)⟩ (targets.map (fun r => (some r,none)))))

def prepareTransaction (e : Engine) (txn : Transaction) : Outcome (Option Prepared) :=
  match checkAll (e.conflictCheck txn.readTs) (txn.stagedOps.map Prod.fst) with
  | .error err => .err err
  | .ok () =>
    match e.prepareCommits txn.id txn.stagedOps with
    | .error err => .err err
    | .ok prepared => .ok (if prepared.isEmpty then none else some (.transaction
        ⟨txn.id,prepared.map Prod.fst⟩ (prepared.map Prod.snd)))

def prepare (e : Engine) : Request → Engine × Outcome (Option Prepared)
  | .mutate (.insert c fields) => e.prepareRecords c [fields] .insert
  | .mutate (.upsert c fields) => e.prepareRecords c [fields] .upsert
  | .mutate (.bulkInsert c docs) => e.prepareRecords c docs .insert
  | .mutate (.update c filter set) => (e,e.prepareUpdates c filter set)
  | .mutate (.delete c filter) => (e,e.prepareDeletes c filter)
  | .commit txn => (e,e.prepareTransaction txn)

def commitPrepared (answer : Option (Result Nat)) (io : Result Unit) (p : Prepared) (e : Engine) :
    Engine × Outcome Unit :=
  match e.storage.commitThrough answer io p.batch with
  | (storage,.error err) => ({ e with storage := storage },.err err)
  | (storage,.ok _) => match p with
    | .mutation collection _ updates => match e.indexes[collection]? with
      | none => ({ e with storage := storage },.panic "indexes exist")
      | some idx =>
        ({ e with storage := storage
                  indexes := e.indexes.insert collection
                    (updates.foldl (fun idx u => idx.replace u.1 u.2) idx) },.ok ())
    | .transaction _ updates => { e with storage := storage }.finishCommit updates "at least one side present"

def commitFound (answer : Option (Result Nat)) (io : Result Unit) :
    Engine × Outcome (Option Prepared) → Engine × Outcome Unit
  | (e,.ok (some p)) => e.commitPrepared answer io p
  | (e,.ok none) => (e,.ok ())
  | (e,.err err) => (e,.err err)
  | (e,.panic m) => (e,.panic m)

def serveThrough (answer : Option (Result Nat)) (io : Result Unit) (q : Request) (e : Engine) : Engine × Outcome Unit :=
  commitFound answer io (e.prepare q)

def serve (e : Engine) (io : Result Unit) : Request → Engine × Outcome Unit
  | .mutate m => ((e.mutate io m).1,(e.mutate io m).2.map (fun _ => ()))
  | .commit txn => e.commitTransaction io txn

theorem commitPrepared_mutation (e : Engine) (io : Result Unit) (c : String) (batch : Batch) (updates : List Update) :
    e.commitPrepared none io (.mutation c batch updates) = e.commitTo io c batch updates := by
  rcases done : e.storage.commitBatch io batch with ⟨storage,err | ts⟩
  · simp only [commitPrepared,commitTo,Storage.commitThrough,Prepared.batch,done]
  · cases held : e.indexes[c]? with
    | none | some idx => simp only [commitPrepared,commitTo,Storage.commitThrough,Prepared.batch,done,held]

theorem serveThrough_write (e : Engine) (io : Result Unit) (c : String) (docs : List Document) (mode : WriteMode) :
    commitFound none io (e.prepareRecords c docs mode) =
      ((e.writeRecords io c docs mode 0).1,(e.writeRecords io c docs mode 0).2.map (fun _ => ())) := by
  unfold prepareRecords writeRecords
  cases e.schemaFor c with
  | error err => rfl
  | ok schema =>
    dsimp only
    cases (e.prepareWrites schema c mode 0 docs e.clock []).2 with
    | err err | panic m => rfl
    | ok prepared =>
      exact Prod.ext rfl (map_unit _ _).symm

theorem serveThrough_none (e : Engine) (io : Result Unit) (q : Request) :
    e.serveThrough none io q = e.serve io q := by
  cases q with
  | mutate m =>
    cases m with
    | insert c fields => exact serveThrough_write e io c [fields] .insert
    | upsert c fields => exact serveThrough_write e io c [fields] .upsert
    | bulkInsert c docs => exact serveThrough_write e io c docs .insert
    | update c filter set =>
      simp only [serveThrough,prepare,prepareUpdates,serve,mutate,updateRecords]
      cases e.schemaFor c with
      | error err => rfl
      | ok schema =>
        by_cases key : setsPrimaryKey schema set = true
        · simp only [if_pos key]
          rfl
        · simp only [if_neg key]
          cases Outcome.collect (e.prepareUpdate schema c set 0) (e.targets c filter) with
          | err err | panic m => rfl
          | ok prepared =>
            simp only [Outcome.map]
            by_cases none : prepared.isEmpty = true
            · simp only [if_pos none]
              rfl
            · simp only [if_neg none,commitFound,commitPrepared_mutation]
              exact Prod.ext rfl (map_unit _ _).symm
    | delete c filter =>
      simp only [serveThrough,prepare,prepareDeletes,serve,mutate,deleteRecords]
      cases e.schemaFor c with
      | error err => rfl
      | ok schema =>
        cases checkAll (e.inboundLinkCheck c) (e.targets c filter) with
        | error err => rfl
        | ok u =>
          by_cases none : (e.targets c filter).isEmpty = true
          · simp only [if_pos none]
            rfl
          · simp only [if_neg none,commitFound,commitPrepared_mutation]
            exact Prod.ext rfl (map_unit _ _).symm
  | commit txn =>
    simp only [serveThrough,prepare,prepareTransaction,serve,commitTransaction]
    cases checkAll (e.conflictCheck txn.readTs) (txn.stagedOps.map Prod.fst) with
    | error err => rfl
    | ok u =>
      dsimp only
      cases e.prepareCommits txn.id txn.stagedOps with
      | error err => rfl
      | ok prepared =>
        by_cases none : prepared.isEmpty = true
        · simp only [if_pos none]
          rfl
        · rcases done : e.storage.commitBatch io ⟨txn.id,prepared.map Prod.fst⟩ with ⟨storage,err | ts⟩ <;>
            simp only [if_neg none,commitFound,commitPrepared,Storage.commitThrough,Prepared.batch,done]

theorem prepare_frame (e : Engine) (q : Request) :
    (e.prepare q).1.storage = e.storage ∧ (e.prepare q).1.indexes = e.indexes := by
  have written (c : String) (docs : List Document) (mode : WriteMode) :
      (e.prepareRecords c docs mode).1.storage = e.storage ∧ (e.prepareRecords c docs mode).1.indexes = e.indexes := by
    unfold prepareRecords
    split
    · exact ⟨rfl,rfl⟩
    · exact ⟨rfl,rfl⟩
  cases q with
  | mutate m =>
    cases m with
    | insert c fields => exact written c [fields] .insert
    | upsert c fields => exact written c [fields] .upsert
    | bulkInsert c docs => exact written c docs .insert
    | update c filter set | delete c filter => exact ⟨rfl,rfl⟩
  | commit txn => exact ⟨rfl,rfl⟩

def submit (e : Engine) (q : Request) : Outcome (Option Batch) := (e.prepare q).2.map (Option.map Prepared.batch)

end

end Engine

def Request.inserts : Request → Bool
  | .mutate (.insert _ _) => true
  | .mutate (.bulkInsert _ _) => true
  | _ => false

/-- No record takes a unique key that another live record has, an insert finds nothing under its ids, and a
transaction no version newer than its snapshot. -/
structure Judged [Host] (s : Storage) (q : Request) (batch : Batch) : Prop where
  unique : ∀ op ∈ batch.ops, ∀ r, op.value = some r → ∀ schema, s.schemas[r.collection]? = some schema →
    ∀ f, schema.isUniqueField f = true → ∀ j r' k, s.get r.collection j = some r' → fieldKey f r = some k →
      fieldKey f r' = some k → j = r.id
  absent : q.inserts = true → ∀ op ∈ batch.ops, s.get op.collection op.id = none
  first : ∀ txn, q = .commit txn → ∀ op ∈ batch.ops, ∀ ts, s.latestCommitTs op.collection op.id = some ts →
    ts ≤ txn.readTs

namespace Engine
variable [Host] {e : Engine} {q : Request} {batch : Batch}

/-- What a mutation comes to before `commit_batch`: only the clock has moved, and the changes are checked. -/
inductive Prepares (e : Engine) (m : Mutation) : Engine × Outcome (Option Prepared) → Prop where
  | refused (clock : Nat) (later : e.clock ≤ clock) (err : Error) : Prepares e m ({ e with clock := clock },.err err)
  | panicked (clock : Nat) (text : String) (why : Unindexed e m.collection) :
      Prepares e m ({ e with clock := clock },.panic text)
  | idle (how : Made e m []) : Prepares e m (e,.ok none)
  | ready (clock : Nat) (later : e.clock ≤ clock) (changes : List Change) (how : Made e m changes)
      (absent : (Request.mutate m).inserts = true → ∀ ch ∈ changes,
        e.storage.get ch.key.collection ch.key.id = none) :
      Prepares e m ({ e with clock := clock },.ok (some (.mutation m.collection ⟨0,changes.map op⟩
        (changes.map (update e.storage)))))

theorem prepareRecords_prepares {m : Mutation} {docs : List Document} {mode : WriteMode}
    (written : ∀ schema changes, e.storage.schemas[m.collection]? = some schema →
      (∀ ch ∈ changes, ch.key.collection = m.collection ∧ Checked e ch) → Written e schema docs changes →
      Made e m changes) (inserts : (Request.mutate m).inserts = true → mode = .insert) :
    Prepares e m (e.prepareRecords m.collection docs mode) := by
  unfold prepareRecords
  cases known : e.schemaFor m.collection with
  | error err => exact .refused e.clock le_rfl err
  | ok schema =>
    have found := (schemaFor_ok_iff e m.collection schema).mp known
    have ticks := prepareWrites_clock e schema m.collection mode 0 docs e.clock []
    dsimp only
    cases gathered : (e.prepareWrites schema m.collection mode 0 docs e.clock []).2 with
    | err err => exact .refused _ ticks err
    | panic text => exact .panicked _ text ⟨schema,found,prepareWrites_panic gathered⟩
    | ok prepared =>
      have facts := prepareWrites_ok_iff.mp gathered
      have updates : prepared.map (fun p => (p.1,some p.2)) =
          ((prepared.map (·.2)).map put).map (update e.storage) := by
        rw [List.map_map,List.map_map]
        refine List.map_congr_left fun p member => ?_
        obtain ⟨held,placed⟩ := facts.held member
        simp only [Function.comp_apply,update,put]
        rw [placed,held]
      have ops : prepared.map (fun p => LogOp.put 0 p.2) = ((prepared.map (·.2)).map put).map op := by
        rw [List.map_map,List.map_map]
        rfl
      simp only [Outcome.map,updates,ops]
      refine .ready _ ticks _ (written schema _ found facts.checked ⟨_,rfl,facts.numbered,?_⟩) ?_
      · rw [List.flatMap_map]
        exact facts.fresh
      · intro isInsert ch inside
        obtain ⟨p,member,rfl⟩ := List.mem_map.mp (List.map_map ▸ inside)
        obtain ⟨held,placed⟩ := facts.held member
        simp only [Function.comp_apply,put]
        rw [placed,← held]
        exact facts.absent (inserts isInsert) p member

section
variable (ok : e.storage.WellFormed)
include ok

theorem Prepares.targets (m : Mutation) {filter : Option Filter} (change : Record → Change)
    (own : ∀ old, (change old).key = ⟨m.collection,old.id⟩) (inserts : (Request.mutate m).inserts = false)
    (made : Made e m ((e.targets m.collection filter).map change)) :
    Prepares e m (e,.ok (if (e.targets m.collection filter).isEmpty then none else some (.mutation m.collection
      ⟨0,((e.targets m.collection filter).map change).map op⟩
      ((e.targets m.collection filter).map fun old => (some old,(change old).new))))) := by
  split
  · rename_i none
    rw [List.isEmpty_iff.mp none] at made
    exact .idle made
  · have updates : (e.targets m.collection filter).map (fun old => (some old,(change old).new)) =
        ((e.targets m.collection filter).map change).map (update e.storage) := by
      rw [List.map_map]
      refine List.map_congr_left fun old member => ?_
      simp only [Function.comp_apply,update,own,mem_targets ok member]
    rw [updates]
    exact .ready e.clock le_rfl _ made (by simp [inserts])

theorem prepareUpdates_prepares (c : String) (filter : Option Filter) (set : Document) :
    Prepares e (.update c filter set) (e,e.prepareUpdates c filter set) := by
  unfold prepareUpdates
  cases known : e.schemaFor c with
  | error err => exact .refused e.clock le_rfl err
  | ok schema =>
    have found := (schemaFor_ok_iff e c schema).mp known
    dsimp only
    split
    · exact .refused e.clock le_rfl _
    · cases gathered : Outcome.collect (e.prepareUpdate schema c set 0) (e.targets c filter) with
      | err err => exact .refused e.clock le_rfl err
      | panic text =>
        obtain ⟨old,first⟩ := Outcome.collect_panic _ _ _ gathered
        exact .panicked e.clock text ⟨schema,found,prepareUpdate_panic first⟩
      | ok prepared =>
        have ready := Prepares.targets ok (.update c filter set) (fun old => .put (updatedRecord c set 0 old))
          (fun _ => rfl) rfl ⟨schema,found,updates_checked ok gathered,rfl⟩
        obtain rfl := collect_updates gathered
        simp only [Outcome.map,List.isEmpty_map,List.map_map] at ready ⊢
        exact ready

theorem prepareDeletes_prepares (c : String) (filter : Option Filter) :
    Prepares e (.delete c filter) (e,e.prepareDeletes c filter) := by
  unfold prepareDeletes
  cases known : e.schemaFor c with
  | error err => exact .refused e.clock le_rfl err
  | ok schema =>
    dsimp only
    split
    · exact .refused e.clock le_rfl _
    · have ready := Prepares.targets ok (.delete c filter) (fun old => .delete c old.id) (fun _ => rfl) rfl
        ⟨schema,(schemaFor_ok_iff e c schema).mp known,fun ch inside => by
          obtain ⟨old,member,rfl⟩ := List.mem_map.mp inside
          exact ⟨rfl,fun r isNew => by cases isNew⟩,rfl⟩
      rw [List.map_map] at ready
      exact ready

theorem prepare_prepares (m : Mutation) : Prepares e m (e.prepare (.mutate m)) := by
  cases m with
  | insert c fields | bulkInsert c docs =>
    exact prepareRecords_prepares (fun schema _ found checked written => ⟨schema,found,checked,written⟩) fun _ => rfl
  | upsert c fields =>
    exact prepareRecords_prepares (fun schema _ found checked written => ⟨schema,found,checked,written⟩)
      (by simp [Request.inserts])
  | update c filter set => exact prepareUpdates_prepares ok c filter set
  | delete c filter => exact prepareDeletes_prepares ok c filter

end

section
variable (e) (ok : e.storage.WellFormed) (io : Result Unit) (m : Mutation)
include e ok io m

theorem mutate_ends : Ends e 0 (Made e m) (Unindexed e m.collection) (e.mutate io m) := by
  refine .of_map (f := fun _ => ()) ?_
  have prepares := prepare_prepares ok m
  have served : commitFound none io (e.prepare (.mutate m)) = _ := serveThrough_none e io (.mutate m)
  rw [serve] at served
  rw [← served]
  generalize e.prepare (.mutate m) = found at prepares
  cases prepares with
  | refused clock later err => exact .ticked clock later (.unchanged err)
  | panicked clock text why => exact .panicked _ _ why
  | idle how => exact .committed _ _ [] (.quiet 0 rfl rfl) (.refl e) how
  | ready clock later changes how absent =>
    have made := how
    obtain ⟨schema,found,placed,-⟩ := how
    exact .ticked clock later (commitTo_ends _ io m.collection 0 changes (fun ch inside => (placed ch inside).1)
      _ _ rfl rfl made fun none => ⟨schema,found,none⟩)

theorem applyMutation_ends : Ends e 0 (Made e m) (Unindexed e m.collection) (e.applyMutation io m) := by
  have ends := mutate_ends e ok io m
  unfold applyMutation
  generalize e.mutate io m = done at ends
  cases ends with
  | committed e' a changes effect frame how =>
    exact .committed _ a changes ⟨effect.storage,effect.indexes⟩ { frame with } how
  | refused e' err effect frame => exact .refused e' err effect frame
  | panicked e' m why => exact .panicked e' m why

end

/-- The changes of a submission, and what its path has checked of them. -/
structure Vetted (e : Engine) (q : Request) (changes : List Change) : Prop where
  checked : ∀ ch ∈ changes, Checked e ch
  absent : q.inserts = true → ∀ ch ∈ changes, e.storage.get ch.key.collection ch.key.id = none
  first : ∀ txn, q = .commit txn → ∀ ch ∈ changes, ∀ ts,
    e.storage.latestCommitTs ch.key.collection ch.key.id = some ts → ts ≤ txn.readTs

theorem prepare_vetted (ok : e.storage.WellFormed) {p : Prepared} (done : (e.prepare q).2 = .ok (some p)) :
    ∃ txnId changes, p.batch = ⟨txnId,changes.map op⟩ ∧ Vetted e q changes := by
  cases q with
  | mutate m =>
    have prepares := prepare_prepares ok m
    generalize e.prepare (.mutate m) = found at prepares done
    cases prepares with
    | refused | panicked | idle => cases done
    | ready clock later changes how absent =>
      cases done
      obtain ⟨_,_,checked,_⟩ := how
      exact ⟨0,changes,rfl,fun ch inside => (checked ch inside).2,absent,by simp⟩
  | commit txn =>
    simp only [prepare,prepareTransaction] at done
    split at done
    · cases done
    rename_i calm
    split at done
    · cases done
    rename_i prepared gathered
    obtain ⟨admissible,rfl⟩ := admissible_of_prepared calm gathered
    simp only [Outcome.ok.injEq] at done
    split at done
    · cases done
    refine ⟨txn.id,e.stagedChanges txn,?_,stagedChanges_checked admissible,by simp [Request.inserts],?_⟩
    · rw [← Option.some.inj done,Prepared.batch,List.map_map]
      rfl
    · rintro _ ⟨⟩ ch inside ts latest
      obtain ⟨⟨k,op⟩,member,rfl⟩ := List.mem_map.mp inside
      exact (admissible k op ((txn.mem_stagedOps k op).mp member)).1 ts latest

theorem submit_prepared (done : e.submit q = .ok (some batch)) :
    ∃ p, (e.prepare q).2 = .ok (some p) ∧ p.batch = batch := by
  unfold submit at done
  cases found : (e.prepare q).2 with
  | err err | panic m => simp [found,Outcome.map] at done
  | ok p =>
    simp only [found,Outcome.map,Outcome.ok.injEq,Option.map_eq_some_iff] at done
    obtain ⟨p,rfl,same⟩ := done
    exact ⟨p,rfl,same⟩

theorem judged_of_submit (covered : Covered e) (done : e.submit q = .ok (some batch)) : Judged e.storage q batch := by
  obtain ⟨p,found,rfl⟩ := submit_prepared done
  obtain ⟨txnId,changes,same,vetted⟩ := prepare_vetted covered.storage found
  rw [same]
  have from_change : ∀ op ∈ (⟨txnId,changes.map Change.op⟩ : Batch).ops, ∃ ch ∈ changes, ch.op = op :=
    fun op inside => List.mem_map.mp inside
  refine ⟨?_,?_,?_⟩
  · intro op inside r isNew schema found f unique j r' k isLive key key'
    obtain ⟨ch,member,rfl⟩ := from_change op inside
    rw [ch.op_value] at isNew
    have own := ch.keyed r isNew
    rw [own.1] at found isLive
    obtain ⟨idx,held,shape,covers⟩ := covered.indexed _ schema found
    obtain ⟨m,mapped⟩ := Option.isSome_iff_exists.mp
      ((shape.unique f).trans ((fromSchema_uniqueMaps schema f).mpr unique))
    have free := covers.free ((fromSchema_guarded schema).congr shape) r _ (by
      intro i replaced
      obtain ⟨old,isOld,rfl⟩ := Option.map_eq_some_iff.mp replaced
      exact ((covered.storage.get_keyed _ _ old isOld).2).trans own.2.symm)
      (vetted.checked ch member r isNew idx held)
    exact free f m mapped k key j r' isLive key'
  · intro isInsert op inside
    obtain ⟨ch,member,rfl⟩ := from_change op inside
    rw [ch.op_collection,ch.op_id]
    exact vetted.absent isInsert ch member
  · intro txn same op inside ts latest
    obtain ⟨ch,member,rfl⟩ := from_change op inside
    rw [ch.op_collection,ch.op_id] at latest
    exact vetted.first txn same ch member ts latest

end Engine

end AuraDb
