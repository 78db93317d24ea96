import AuraDb.Engine.Write
import AuraDb.Index.Batch

/-! The transactional write path: mutations are staged against the transaction's view and checked again, key by
key, when it commits. -/
namespace AuraDb
open Library Std
namespace Transaction

def overlay (txn : Transaction) (below : Option Record) (collection : String) (id : RecordId) : Option Record :=
  match txn.staged[(⟨collection,id⟩ : Key)]? with
  | some op => op.value
  | none => below

def stagedPuts (txn : Transaction) (collection : String) : List Record :=
  txn.stagedOps.filterMap (fun p => match p.2 with
    | .put r => if r.collection = collection then some r else none
    | .delete => none)

end Transaction

def overlayScan (storage : Storage) (txn : Transaction) (collection : String) : List Record :=
  ((storage.scanAsOf collection txn.readTs).filter (fun r =>
    txn.staged[(⟨collection,r.id⟩ : Key)]?.isNone)) ++ txn.stagedPuts collection

structure Staging (α : Type) where
  clock : Nat
  txn : Transaction
  result : Result α

namespace Engine
section
variable [Host]

def txnGet (e : Engine) (txn : Transaction) (collection : String) (id : RecordId) : Option Record :=
  txn.overlay (e.storage.getAsOf collection id txn.readTs) collection id

/-- Stage documents one by one; what was staged before a failure stays staged. Each element of the result says
whether the key was there before, and the id. -/
def stageDocs (e : Engine) (schema : CollectionSchema) (collection : String) :
    List Document → Nat → Transaction → Staging (List (Bool × RecordId))
  | [], clock, txn => ⟨clock,txn,.ok []⟩
  | fields::rest, clock, txn =>
    match schema.validateRecord fields with
    | .error err => ⟨clock,txn,.error err⟩
    | .ok () =>
      match recordIdFor schema fields clock with
      | .error err => ⟨clock + 1,txn,.error err⟩
      | .ok id =>
        let existing := e.txnGet txn collection id
        match e.referentialCheck schema fields with
        | .error err => ⟨clock + 1,txn,.error err⟩
        | .ok () =>
          -- a live record under the key is replaced, for an insert as for an upsert
          let staged := txn.stagePut ⟨id,collection,fields,0,txn.id⟩ (existing.map (·.version))
          let others := stageDocs e schema collection rest (clock + 1) staged
          ⟨others.clock,others.txn,others.result.map ((existing.isSome,id) :: ·)⟩

def stageUpdates (e : Engine) (schema : CollectionSchema) (collection : String) (set : Document) :
    List Record → Transaction → Transaction × Result Unit
  | [], txn => (txn,.ok ())
  | old::rest, txn =>
    let fields := old.fields.merge set
    match schema.validateRecord fields with
    | .error err => (txn,.error err)
    | .ok () =>
      match e.referentialCheck schema fields with
      | .error err => (txn,.error err)
      | .ok () => stageUpdates e schema collection set rest
          (txn.stagePut ⟨old.id,collection,fields,0,txn.id⟩ (some old.version))

def stageDeletes (collection : String) (targets : List Record) (txn : Transaction) : Transaction :=
  targets.foldl (fun txn old => txn.stageDelete collection old.id (some old.version)) txn

def txnTargets (e : Engine) (txn : Transaction) (collection : String) (filter : Option Filter) : List Record :=
  (overlayScan e.storage txn collection).filter (Filter.optional filter)

/-- An insert and an upsert are staged alike, whether or not the key is there. -/
def stageOne (e : Engine) (schema : CollectionSchema) (collection : String) (fields : Document)
    (txn : Transaction) : Staging MutationResult :=
  let done := e.stageDocs schema collection [fields] e.clock txn
  ⟨done.clock,done.txn,done.result.map (fun staged =>
    { inserted := (staged.filter (fun p => !p.1)).length, updated := (staged.filter (·.1)).length,
      ids := staged.map (·.2) })⟩

def stageMutation (e : Engine) (txn : Transaction) (m : Mutation) : Staging MutationResult :=
  match e.schemaFor m.collection with
  | .error err => ⟨e.clock,txn,.error err⟩
  | .ok schema =>
    match m with
    | .insert c fields => e.stageOne schema c fields txn
    | .upsert c fields => e.stageOne schema c fields txn
    | .bulkInsert c records =>
      let done := e.stageDocs schema c records e.clock txn
      ⟨done.clock,done.txn,done.result.map (fun staged =>
        { inserted := staged.length, ids := staged.map (·.2) })⟩
    | .update c filter set =>
      -- unlike `update_records`, nothing here refuses a change of the primary key
      let targets := e.txnTargets txn c filter
      let done := e.stageUpdates schema c set targets txn
      ⟨e.clock,done.1,done.2.map (fun () => { updated := targets.length, ids := targets.map (·.id) })⟩
    | .delete c filter =>
      let targets := e.txnTargets txn c filter
      ⟨e.clock,stageDeletes c targets txn,.ok { deleted := targets.length, ids := targets.map (·.id) }⟩

def stage (e : Engine) (txn : Transaction) (m : Mutation) (now : Nat) :
    Engine × Transaction × Result MutationResult :=
  match e.touchTxn txn.id now with
  | (e,.error err) => (e,txn,.error err)
  | (e,.ok ()) =>
    let done := e.stageMutation txn m
    ({ e with clock := done.clock },done.txn,done.result)

def conflictCheck (e : Engine) (readTs : Nat) (key : Key) : Result Unit :=
  match e.storage.latestCommitTs key.collection key.id with
  | none => .ok ()
  | some latest =>
    if readTs < latest then .error (.conflict ("record " ++ toString key.id ++ " in " ++ key.collection ++
      " was modified by a concurrent transaction"))
    else .ok ()

def commitUnique (e : Engine) (record : Record) (collection : String) (existing : Option Record) : Result Unit :=
  match e.indexes[collection]? with
  | none => .ok ()
  | some idx => idx.checkUnique record (existing.map (·.id))

def prepareCommit (e : Engine) (txnId : TxnId) (key : Key) (op : StagedOp) : Result (LogOp × Update) :=
  let existing := e.storage.get key.collection key.id
  match op with
  | .put record =>
    match e.schemaFor key.collection with
    | .error err => .error err
    | .ok schema =>
      match e.referentialCheck schema record.fields with
      | .error err => .error err
      | .ok () =>
        match e.commitUnique record key.collection existing with
        | .error err => .error err
        | .ok () =>
          let record := { record with
            version := (existing.map (·.version + 1)).getD 1
            createdTxn := txnId }
          .ok (.put 0 record,(existing,some record))
  | .delete =>
    -- a delete of a key that holds nothing is let through, as a change of nothing into nothing
    match existing.elim (.ok ()) (e.inboundLinkCheck key.collection) with
    | .error err => .error err
    | .ok () => .ok (.delete 0 key.collection key.id,(existing,none))

def prepareCommits (e : Engine) (txnId : TxnId) : List (Key × StagedOp) → Result (List (LogOp × Update))
  | [] => .ok []
  | (key,op)::rest =>
    match e.prepareCommit txnId key op with
    | .error err => .error err
    | .ok first => (prepareCommits e txnId rest).map (first :: ·)

/-- Hand each change to the index of its collection. A change with no record on either side is a panic. -/
def updateIndexes : List Update → Indexes → Indexes × Option (List String)
  | [], indexes => (indexes,some [])
  | (old,new)::rest, indexes =>
    match (old.or new).map (·.collection) with
    | none => (indexes,none)
    | some c =>
      let next := updateIndexes rest (indexes.alter c (Option.map (·.replace old new)))
      (next.1,next.2.map (c :: ·))

def finishCommit (e : Engine) (updates : List Update) (message : String) : Engine × Outcome Unit :=
  let next := updateIndexes updates e.indexes
  let e := { e with indexes := next.1 }
  match next.2 with
  | none => (e,.panic message)
  | some affected => (affected.foldl refreshStatsRowCount e,.ok ())

def commitTransaction (e : Engine) (io : Result Unit) (txn : Transaction) : Engine × Outcome Unit :=
  match checkAll (e.conflictCheck txn.readTs) (txn.stagedOps.map Prod.fst) with
  | .error err => (e,.err err)
  | .ok () =>
    match e.prepareCommits txn.id txn.stagedOps with
    | .error err => (e,.err err)
    | .ok prepared =>
      if prepared.isEmpty then (e,.ok ()) else
      match e.storage.commitBatch io ⟨txn.id,prepared.map Prod.fst⟩ with
      | (storage,.error err) => ({ e with storage := storage },.err err)
      | (storage,.ok _) =>
        { e with storage := storage }.finishCommit (prepared.map Prod.snd) "at least one side present"

/-- `commit`: a transaction that timed out is refused. Its registry entry goes, unless
the commit panicked. -/
def commit (e : Engine) (io : Result Unit) (txn : Transaction) : Engine × Outcome Unit :=
  if e.txns[txn.id]?.map (·.state) = some .timedOut then
    ({ e with txns := e.txns.erase txn.id },.err (.transactionTimeout
      ("transaction " ++ toString txn.id ++ " timed out before commit and was aborted"))) else
  match e.commitTransaction io txn with
  | (e,.panic m) => (e,.panic m)
  | (e,outcome) => ({ e with txns := e.txns.erase txn.id },outcome)

def replicatedUpdate (e : Engine) (op : LogOp) : Update := (e.storage.get op.collection op.id,op.value)

/-- `apply_replicated_batch`: a batch at or below the watermark was applied before. -/
def applyReplicatedBatch (e : Engine) (io : Result Unit) (batch : Batch) (logIndex : Nat) : Engine × Outcome Unit :=
  if logIndex ≤ e.storage.commitWatermark then (e,.ok ()) else
  let updates := batch.ops.map e.replicatedUpdate
  match e.storage.applyCommittedBatch io batch logIndex with
  | (storage,.error err) => ({ e with storage := storage },.err err)
  | (storage,.ok ()) =>
    { e with storage := storage }.finishCommit updates "a replicated op always names a record"

section
variable {e : Engine} {schema : CollectionSchema} {c : String} {P : Nat → Transaction → Prop} {txn : Transaction}

theorem stageDocs_rule (skip : ∀ clock txn, P clock txn → P (clock + 1) txn)
    (put : ∀ clock txn fields id v, recordIdFor schema fields clock = .ok id → P clock txn →
      P (clock + 1) (txn.stagePut ⟨id,c,fields,0,txn.id⟩ v)) (docs : List Document) {clock : Nat}
    (start : P clock txn) :
    P (e.stageDocs schema c docs clock txn).clock (e.stageDocs schema c docs clock txn).txn := by
  induction docs generalizing clock txn with
  | nil => exact start
  | cons fields rest ih =>
    simp only [stageDocs]
    split
    · exact start
    split
    · exact skip _ _ start
    · rename_i named
      split
      · exact skip _ _ start
      · exact ih (put _ _ _ _ _ named start)

theorem stageUpdates_rule {Q : Transaction → Prop} {set : Document} {olds : List Record}
    (put : ∀ old ∈ olds, ∀ txn fields, Q txn → Q (txn.stagePut ⟨old.id,c,fields,0,txn.id⟩ (some old.version)))
    (start : Q txn) : Q (e.stageUpdates schema c set olds txn).1 := by
  induction olds generalizing txn with
  | nil => exact start
  | cons old rest ih =>
    simp only [stageUpdates]
    split
    · exact start
    · split
      · exact start
      · exact ih (fun other inside => put other (List.mem_cons_of_mem _ inside)) (put old List.mem_cons_self _ _ start)

/-- What staging leads to, one put or delete at a time. -/
theorem stageMutation_rule {m : Mutation} (skip : ∀ clock txn, P clock txn → P (clock + 1) txn)
    (put : ∀ schema, e.schemaFor m.collection = .ok schema → ∀ clock txn fields id v,
      recordIdFor schema fields clock = .ok id → P clock txn →
      P (clock + 1) (txn.stagePut ⟨id,m.collection,fields,0,txn.id⟩ v))
    (change : ∀ filter, ∀ old ∈ e.txnTargets txn m.collection filter, ∀ txn fields, P e.clock txn →
      P e.clock (txn.stagePut ⟨old.id,m.collection,fields,0,txn.id⟩ (some old.version)) ∧
        P e.clock (txn.stageDelete m.collection old.id (some old.version)))
    (start : P e.clock txn) : P (e.stageMutation txn m).clock (e.stageMutation txn m).txn := by
  unfold stageMutation
  split
  · exact start
  rename_i schema declared
  cases m with
  | insert c fields | upsert c fields => exact stageDocs_rule skip (put schema declared) [fields] start
  | bulkInsert c docs => exact stageDocs_rule skip (put schema declared) docs start
  | update c filter set =>
    exact stageUpdates_rule (fun old inside txn fields held => (change filter old inside txn fields held).1) start
  | delete c filter =>
    exact List.foldlRecOn _ _ start (fun txn held old inside => (change filter old inside txn [] held).2)

end

theorem stageMutation_same (e : Engine) (txn : Transaction) (m : Mutation) :
    (e.stageMutation txn m).txn.id = txn.id ∧ (e.stageMutation txn m).txn.readTs = txn.readTs ∧
      e.clock ≤ (e.stageMutation txn m).clock :=
  stageMutation_rule (P := fun clock t => t.id = txn.id ∧ t.readTs = txn.readTs ∧ e.clock ≤ clock)
    (fun _ _ held => ⟨held.1,held.2.1,Nat.le_succ_of_le held.2.2⟩)
    (fun _ _ _ _ _ _ _ _ held => ⟨held.1,held.2.1,Nat.le_succ_of_le held.2.2⟩) (fun _ _ _ _ _ held => ⟨held,held⟩)
    ⟨rfl,rfl,Nat.le_refl _⟩

end

end Engine

/-! What a commit does to an engine, whichever path led to it: a list of changes is written as one batch and
handed to the indexes, which keeps indexes and storage in agreement; and a rebuild computes the same indexes. -/
open Library.Inverted CollectionIndexes
variable {e : Engine} {idx : CollectionIndexes}

structure Change where
  key : Key
  new : Option Record
  keyed : ∀ r, new = some r → r.collection = key.collection ∧ r.id = key.id

namespace Change

def put (r : Record) : Change := ⟨⟨r.collection,r.id⟩,some r,by rintro _ ⟨⟩; exact ⟨rfl,rfl⟩⟩

def delete (c : String) (i : RecordId) : Change := ⟨⟨c,i⟩,none,by simp⟩

def op (ch : Change) : LogOp :=
  match ch.new with
  | some r => .put 0 r
  | none => .delete 0 ch.key.collection ch.key.id

def writesTo (changes : List Change) (c : String) : List IdWrite :=
  (changes.filter (fun ch => ch.key.collection == c)).map (fun ch => (ch.key.id,ch.new))

def update (s : Storage) (ch : Change) : Update := (s.get ch.key.collection ch.key.id,ch.new)

theorem op_value (ch : Change) : ch.op.value = ch.new := by
  unfold op
  cases ch.new <;> rfl

theorem op_collection (ch : Change) : ch.op.collection = ch.key.collection := by
  unfold op
  cases found : ch.new with
  | none => rfl
  | some r => exact (ch.keyed r found).1

theorem op_id (ch : Change) : ch.op.id = ch.key.id := by
  unfold op
  cases found : ch.new with
  | none => rfl
  | some r => exact (ch.keyed r found).2

section
variable {changes : List Change} {c : String} {w : IdWrite} (inside : w ∈ writesTo changes c)
include inside

theorem mem_writesTo : ∃ ch ∈ changes, ch.key.collection = c ∧ w = (ch.key.id,ch.new) := by
  obtain ⟨ch,held,rfl⟩ := List.mem_map.mp inside
  obtain ⟨inside,same⟩ := List.mem_filter.mp held
  exact ⟨ch,inside,beq_iff_eq.mp same,rfl⟩

theorem writesTo_keyed {r : Record} (isNew : w.2 = some r) : r.id = w.1 := by
  obtain ⟨ch,_,_,rfl⟩ := mem_writesTo inside
  exact (ch.keyed r isNew).2

end

theorem writesTo_nodup {changes : List Change} (distinct : (changes.map Change.key).Nodup) (c : String) :
    ((writesTo changes c).map Prod.fst).Nodup := by
  rw [writesTo,List.map_map]
  refine List.pairwise_map.mpr ?_
  refine List.Pairwise.imp_of_mem ?_ ((List.pairwise_map.mp distinct).filter _)
  intro a b insideA insideB differ same
  apply differ
  have left : a.key.collection = c := beq_iff_eq.mp (List.mem_filter.mp insideA).2
  have right : b.key.collection = c := beq_iff_eq.mp (List.mem_filter.mp insideB).2
  calc a.key = ⟨c,a.key.id⟩ := by rw [← left]
    _ = ⟨c,b.key.id⟩ := by rw [show a.key.id = b.key.id from same]
    _ = b.key := by rw [← right]

theorem lastWrite_ops (changes : List Change) (c : String) (i : RecordId) :
    lastWrite (changes.map op) c i = ((writesTo changes c).reverse.find? (fun w => w.1 == i)).map Prod.snd := by
  induction changes using List.reverseRecOn with
  | nil => rfl
  | append_singleton changes ch ih =>
    rw [List.map_append,List.map_singleton,lastWrite_append_single,ih]
    simp only [writesTo,List.filter_append,List.map_append,List.reverse_append,LogOp.targets,
      op_collection,op_id,op_value]
    by_cases collection : ch.key.collection = c
    · by_cases id : ch.key.id = i
      · simp [collection,id]
      · simp [collection,beq_eq_false_iff_ne.mpr id]
    · simp [beq_eq_false_iff_ne.mpr collection]

end Change

theorem Storage.get_changes {s : Storage} (ok : s.WellFormed) (ts : Nat) (txnId : TxnId) (changes : List Change)
    (newer : s.lastCommitTs < ts) (c : String) :
    (s.applied ts ⟨txnId,changes.map Change.op⟩).get c = Live.rewrite (s.get c) (Change.writesTo changes c) := by
  funext i
  rw [Storage.get_applied ok ts _ newer,Live.rewrite_apply,Change.lastWrite_ops]

namespace Engine

/-- One engine led to another by committing changes; an empty list changes nothing. -/
structure Effect [Host] (e e' : Engine) (txnId : TxnId) (changes : List Change) : Prop where
  storage : e'.storage = if changes.isEmpty then e.storage
    else e.storage.applied (e.storage.lastCommitTs + 1) ⟨txnId,changes.map Change.op⟩
  indexes : ∀ c : String, e'.indexes[c]? =
    e.indexes[c]?.map (fun idx => replaceAll (e.storage.get c) idx (Change.writesTo changes c))

structure Indexed (Good : CollectionIndexes → Live → Prop) (e : Engine) : Prop where
  storage : e.storage.WellFormed
  indexed : ∀ (c : String) schema, e.storage.schemas[c]? = some schema →
    ∃ idx, e.indexes[c]? = some idx ∧ SameShape idx (fromSchema schema) ∧ Good idx (e.storage.get c)

theorem Indexed.congr {Good : CollectionIndexes → Live → Prop} {e' : Engine} (indexed : Indexed Good e)
    (ok : e'.storage.WellFormed) (schemas : e'.storage.schemas = e.storage.schemas)
    (live : ∀ c, e'.storage.get c = e.storage.get c) (indexes : ∀ c : String, e'.indexes[c]? = e.indexes[c]?) :
    Indexed Good e' := by
  refine ⟨ok,?_⟩
  intro c schema found
  rw [schemas] at found
  rw [live,indexes]
  exact indexed.indexed c schema found

section
variable [Host] {e e' : Engine} {txnId : TxnId} {changes : List Change}

abbrev Sound (e : Engine) : Prop := Indexed Agrees e

abbrev Covered (e : Engine) : Prop := Indexed Covers e

theorem Sound.covered (sound : Sound e) : Covered e := ⟨sound.storage,fun c schema found => by
    obtain ⟨idx,held,shape,agrees⟩ := sound.indexed c schema found
    exact ⟨idx,held,shape,agrees.covers⟩⟩

def Checked (e : Engine) (ch : Change) : Prop :=
  ∀ r, ch.new = some r → ∀ idx, e.indexes[ch.key.collection]? = some idx →
    idx.checkUnique r ((e.storage.get ch.key.collection ch.key.id).map (·.id)) = .ok ()

def Apart (e : Engine) (changes : List Change) : Prop :=
  ∀ (c : String) schema, e.storage.schemas[c]? = some schema →
    (Change.writesTo changes c).Pairwise (fun w w' => ∀ f, schema.isUniqueField f = true → ∀ r r' k,
      w.2 = some r → w'.2 = some r' → fieldKey f r = some k → fieldKey f r' = some k → w.1 = w'.1)

def UniqueKeys (e : Engine) : Prop :=
  ∀ (c : String) schema, e.storage.schemas[c]? = some schema → Live.Distinct (e.storage.get c) schema

theorem distinct_of_covers {idx : CollectionIndexes} {live : Live} {schema : CollectionSchema}
    (shape : SameShape idx (fromSchema schema)) (covers : Covers idx live) : live.Distinct schema := by
  intro f unique i j r r' k isLive isLive' key key'
  obtain ⟨m,held⟩ := Option.isSome_iff_exists.mp
    ((shape.unique f).trans ((fromSchema_uniqueMaps schema f).mpr unique))
  exact (covers f m held).injective (k := k) (by simp [isLive,key]) (by simp [isLive',key'])

theorem Covered.uniqueKeys (covered : Covered e) : UniqueKeys e := by
  intro c schema found
  obtain ⟨idx,_,shape,covers⟩ := covered.indexed c schema found
  exact distinct_of_covers shape covers

section
variable (effect : Effect e e' txnId changes)
include effect

theorem Effect.schemas : e'.storage.schemas = e.storage.schemas := by
  rw [effect.storage]
  split <;> rfl

theorem Effect.wellFormed (ok : e.storage.WellFormed) : e'.storage.WellFormed := by
  rw [effect.storage]
  split
  · exact ok
  · exact ok.applied _ _ (Nat.lt_succ_self _)

theorem Effect.get (ok : e.storage.WellFormed) (c : String) :
    e'.storage.get c = Live.rewrite (e.storage.get c) (Change.writesTo changes c) := by
  rw [effect.storage]
  cases changes with
  | nil => rfl
  | cons ch rest => exact Storage.get_changes ok _ txnId (ch::rest) (Nat.lt_succ_self _) c

end

theorem Checked.free (covered : Covered e) {c : String} {schema : CollectionSchema}
    (found : e.storage.schemas[c]? = some schema) (held : e.indexes[c]? = some idx)
    (checked : ∀ ch ∈ changes, Checked e ch) :
    ∀ w ∈ Change.writesTo changes c, ∀ r, w.2 = some r → Free idx (e.storage.get c) r := by
  intro w inside r isNew
  obtain ⟨ch,member,rfl,rfl⟩ := Change.mem_writesTo inside
  obtain ⟨idx',held',shape,covers⟩ := covered.indexed _ schema found
  obtain rfl := Option.some.inj (held.symm.trans held')
  have own := (ch.keyed r isNew).2
  refine covers.free ((fromSchema_guarded schema).congr shape) r _ ?_ (checked ch member r isNew idx held)
  intro i replaced
  obtain ⟨old,isOld,rfl⟩ := Option.map_eq_some_iff.mp replaced
  exact ((covered.storage.get_keyed _ _ old isOld).2).trans own.symm

theorem Effect.covered (effect : Effect e e' txnId changes) (covered : Covered e)
    (checked : ∀ ch ∈ changes, Checked e ch) (apart : Apart e changes) : Covered e' := by
  refine ⟨effect.wellFormed covered.storage,?_⟩
  intro c schema found
  rw [effect.schemas] at found
  obtain ⟨idx,held,shape,covers⟩ := covered.indexed c schema found
  have writable : Writable idx (e.storage.get c) (Change.writesTo changes c) := by
    refine ⟨fun w inside r isNew => Change.writesTo_keyed inside isNew,Checked.free covered found held checked,?_⟩
    refine (apart c schema found).imp ?_
    intro w w' differ f m mapped
    apply differ f
    rw [← fromSchema_uniqueMaps,← shape.unique f,mapped]
    rfl
  refine ⟨replaceAll (e.storage.get c) idx (Change.writesTo changes c),?_,(replaceAll_shape _ idx).trans shape,?_⟩
  · rw [effect.indexes,held]
    rfl
  · rw [effect.get covered.storage c]
    exact writable.covers covers (fun i r isLive => (covered.storage.get_keyed c i r isLive).2)

theorem Effect.sound (effect : Effect e e' txnId changes) (sound : Sound e)
    (checked : ∀ ch ∈ changes, Checked e ch) (distinct : (changes.map Change.key).Nodup)
    (unique : UniqueKeys e') : Sound e' := by
  refine ⟨effect.wellFormed sound.storage,?_⟩
  intro c schema found
  have after := unique c schema found
  rw [effect.schemas] at found
  rw [effect.get sound.storage c] at after ⊢
  obtain ⟨idx,held,shape,agrees⟩ := sound.indexed c schema found
  have ids := Change.writesTo_nodup distinct c
  have writable : Writable idx (e.storage.get c) (Change.writesTo changes c) :=
    .of_distinct shape ids (fun w inside r isNew => Change.writesTo_keyed inside isNew)
      (Checked.free sound.covered found held checked) after
  refine ⟨replaceAll (e.storage.get c) idx (Change.writesTo changes c),?_,(replaceAll_shape _ idx).trans shape,?_⟩
  · rw [effect.indexes,held]
    rfl
  · exact writable.agrees agrees (fun i r isLive => (sound.storage.get_keyed c i r isLive).2) ids
      (fun w _ => rfl)

end

end Engine

section
variable [Host] {s : Storage} {schema : CollectionSchema}

theorem Storage.WellFormed.rebuild_agrees (ok : s.WellFormed) (c : String)
    (rebuilt : (fromSchema schema).rebuild (s.scan c) = .ok idx) :
    SameShape idx (fromSchema schema) ∧ Agrees idx (s.get c) := by
  obtain ⟨shape,agrees⟩ := CollectionIndexes.rebuild_agrees (s.scan c) (fromSchema_guarded schema) (ok.scan_ids c)
    rebuilt
  refine ⟨shape,?_⟩
  have same : (fun i => (s.scan c).find? (fun r => r.id == i)) = s.get c := funext (ok.find_scan c)
  exact same ▸ agrees

theorem Storage.WellFormed.rebuild_ok (ok : s.WellFormed) (c : String) (distinct : Live.Distinct (s.get c) schema) :
    ∃ idx, (fromSchema schema).rebuild (s.scan c) = .ok idx := by
  have guarded := (fromSchema_guarded schema).congr (cleared_shape (fromSchema schema))
  refine insertAll_ok (s.scan c) (cleared_blank _).agrees guarded (ok.scan_ids c) (by simp) ?_ ?_
  · intro r inside f m found k key j r' isLive
    simp at isLive
  · refine List.Pairwise.imp_of_mem ?_ (List.pairwise_map.mp (ok.scan_ids c))
    intro r r' inside inside' differ f m found k key key'
    have unique : schema.isUniqueField f = true := by
      rw [← fromSchema_uniqueMaps,← (cleared_shape (fromSchema schema)).unique f,found]
      rfl
    exact differ (distinct f unique r.id r'.id r r' k ((ok.mem_scan_iff c r).mp inside)
      ((ok.mem_scan_iff c r').mp inside') key key')

end

namespace Engine
variable [Host] {storage : Storage}

theorem rebuildIndexes_agree (ok : storage.WellFormed) (schemas : List CollectionSchema) (indexes : Indexes)
    (distinct : (schemas.map (·.name)).Nodup) (rebuilt : rebuildIndexes storage schemas = .ok indexes) :
    ∀ schema ∈ schemas, ∃ idx, indexes[schema.name]? = some idx ∧ SameShape idx (fromSchema schema) ∧
      Agrees idx (storage.get schema.name) := by
  induction schemas generalizing indexes with
  | nil => simp
  | cons first rest ih =>
    obtain ⟨apart,distinct⟩ := List.nodup_cons.mp distinct
    simp only [rebuildIndexes] at rebuilt
    split at rebuilt
    · cases rebuilt
    rename_i idx built
    cases others : rebuildIndexes storage rest with
    | error err => simp [others,Except.map] at rebuilt
    | ok indexes' =>
      simp only [others,Except.map,Except.ok.injEq] at rebuilt
      intro schema inside
      simp only [← rebuilt,TreeMap.getElem?_insert_eq]
      rcases List.mem_cons.mp inside with rfl | later
      · exact ⟨idx,if_pos rfl,ok.rebuild_agrees _ built⟩
      · have other : first.name ≠ schema.name := fun same => apart (List.mem_map.mpr ⟨schema,later,same.symm⟩)
        obtain ⟨idx',found,facts⟩ := ih indexes' distinct others schema later
        exact ⟨idx',by rw [if_neg other]; exact found,facts⟩

theorem storage_openWith {options : EngineOptions} {stats : PlannerStats}
    (opened : openWith storage options stats = .ok e) : e.storage = storage := by
  unfold openWith at opened
  split at opened
  · cases opened
  · cases opened
    rfl

theorem openWith_sound (ok : storage.WellFormed) (options : EngineOptions) (stats : PlannerStats)
    (named : ∀ (c : String) schema, storage.schemas[c]? = some schema → schema.name = c)
    (opened : openWith storage options stats = .ok e) : Sound e := by
  unfold openWith at opened
  split at opened
  · cases opened
  rename_i indexes rebuilt
  cases opened
  have entry (p : String × CollectionSchema) (inside : p ∈ storage.schemas.toList) : p.2.name = p.1 :=
    named p.1 p.2 (ExtTreeMap.mem_toList_iff_getElem?_eq_some.mp inside)
  have names : (storage.schemas.toList.map Prod.snd).map (·.name) = storage.schemas.toList.map Prod.fst := by
    rw [List.map_map]
    exact List.map_congr_left entry
  have distinct := TreeMap.keys_nodup storage.schemas
  rw [← names] at distinct
  refine ⟨ok,?_⟩
  intro c schema found
  have inside : (c,schema) ∈ storage.schemas.toList := ExtTreeMap.mem_toList_iff_getElem?_eq_some.mpr found
  obtain ⟨idx,facts⟩ := rebuildIndexes_agree ok _ indexes distinct rebuilt schema
    (List.mem_map.mpr ⟨_,inside,rfl⟩)
  rw [named c schema found] at facts
  exact ⟨idx,facts⟩

theorem Sound.rebuilds (sound : Sound e) (unique : UniqueKeys e) (c : String) (schema : CollectionSchema)
    (found : e.storage.schemas[c]? = some schema) :
    ∃ idx idx', e.indexes[c]? = some idx ∧ (fromSchema schema).rebuild (e.storage.scan c) = .ok idx' ∧
      Equivalent idx idx' := by
  obtain ⟨idx,held,shape,agrees⟩ := sound.indexed c schema found
  obtain ⟨idx',rebuilt⟩ := sound.storage.rebuild_ok c (unique c schema found)
  obtain ⟨shape',agrees'⟩ := sound.storage.rebuild_agrees c rebuilt
  exact ⟨idx,idx',held,rebuilt,agrees.equivalent agrees' (shape.trans shape'.symm)⟩

end Engine

end AuraDb
