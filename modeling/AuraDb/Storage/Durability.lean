import AuraDb.Library.Run
import AuraDb.Storage.Recovery

/-! Runs of the storage engine over its directory, each call with the file faults it meets. What a call does to
memory and log is said once, as a change; that nothing is lost over a restart follows for every run. -/
namespace AuraDb
open Library Library.Framing Library.VersionChain Std Storage
variable {codec : Codec Batch} {db : Database} {batches : List Batch} {db' : Database}

structure Database where
  disk : Disk
  store : Store

inductive Call where
  | commitBatch (fault : Option AppendFault) (batch : Batch)
  | applyCommittedBatch (fault : Option AppendFault) (batch : Batch) (ts : Nat)
  | put (fault : Option AppendFault) (record : Record)
  | delete (fault : Option AppendFault) (collection : String) (id : RecordId)
  | gc (fault : Option RewriteFault) (stuck : Nat → Bool) (cutoff minRetained : Nat)
  | compact (fault : Option RewriteFault) (stuck : Nat → Bool)
  | flush
  | reopen

structure Ack where
  ts : Nat
  batch : Batch

namespace Database

def acknowledged (batch : Batch) : Result Nat → List Ack
  | .ok ts => if batch.ops.isEmpty then [] else [⟨ts,batch⟩]
  | .error _ => []

def call (codec : Codec Batch) (db : Database) : Call → Option (Database × List Ack)
  | .commitBatch fault batch =>
    let next := db.store.commitBatch codec fault batch db.disk
    some (⟨next.1,next.2.1⟩,acknowledged batch next.2.2)
  | .applyCommittedBatch fault batch ts =>
    let next := db.store.applyCommittedBatch codec fault batch ts db.disk
    some (⟨next.1,next.2.1⟩,
      if ts ≤ db.store.mem.lastCommitTs then [] else acknowledged batch (next.2.2.map (fun () => ts)))
  | .put fault record =>
    let next := db.store.put codec fault record db.disk
    some (⟨next.1,next.2.1⟩,acknowledged ⟨0,[.put 0 record]⟩ next.2.2)
  | .delete fault c i =>
    let next := db.store.delete codec fault c i db.disk
    some (⟨next.1,next.2.1⟩,acknowledged ⟨0,[.delete 0 c i]⟩ next.2.2)
  | .gc fault stuck cutoff minRetained =>
    let next := db.store.gc codec fault stuck cutoff minRetained db.disk
    some (⟨next.1,next.2.1⟩,[])
  | .compact fault stuck =>
    let next := db.store.compact codec fault stuck db.disk
    some (⟨next.1,next.2.1⟩,[])
  | .flush => some (⟨db.store.flush db.disk,db.store⟩,[])
  | .reopen =>
    match openWith codec db.store.syncOnCommit db.disk with
    | (_,.error _) => none
    | (d,.ok st) => some (⟨d,st⟩,[])

def appended (db : Database) (ts : Nat) (batch : Batch) : Option (Nat × Batch) :=
  if batch.ops.isEmpty then none
  else some ((db.disk.read db.store.active).length,Store.stamp ts batch)

def rewritten (st : Store) : Option (Nat × Batch) :=
  if st.retained.ops.isEmpty then none else some (0,st.retained)

def written (db : Database) : Call → Option (Nat × Batch)
  | .commitBatch _ batch => db.appended (db.store.mem.lastCommitTs + 1) batch
  | .applyCommittedBatch _ batch ts =>
    if ts ≤ db.store.mem.lastCommitTs then none else db.appended ts batch
  | .put _ record => db.appended (db.store.mem.lastCommitTs + 1) ⟨0,[.put 0 record]⟩
  | .delete _ c i => db.appended (db.store.mem.lastCommitTs + 1) ⟨0,[.delete 0 c i]⟩
  | .gc _ _ cutoff minRetained =>
    rewritten { db.store with mem := db.store.mem.pruned cutoff (max minRetained 1) }
  | .compact _ _ => rewritten db.store
  | .flush => none
  | .reopen => none

def harmlessAppend (db : Database) : Option AppendFault → Prop
  | none => True
  | some (.write written _) => written = 0
  | some (.sync _) => db.store.syncOnCommit = false

def harmlessRewrite : Option RewriteFault → Prop
  | some (.saveManifest _) | some (.reopen _) => False
  | _ => True

/-- A call whose file fault, if any, left no trace in the log. -/
def Harmless (db : Database) : Call → Prop
  | .commitBatch fault _ => db.harmlessAppend fault
  | .applyCommittedBatch fault _ _ => db.harmlessAppend fault
  | .put fault _ => db.harmlessAppend fault
  | .delete fault _ _ => db.harmlessAppend fault
  | .gc fault _ _ _ => harmlessRewrite fault
  | .compact fault _ => harmlessRewrite fault
  | .flush => True
  | .reopen => True

def faultless : Call → Bool
  | .commitBatch fault _ => fault.isNone
  | .applyCommittedBatch fault _ _ => fault.isNone
  | .put fault _ => fault.isNone
  | .delete fault _ _ => fault.isNone
  | .gc fault _ _ _ => fault.isNone
  | .compact fault _ => fault.isNone
  | .flush => true
  | .reopen => true

/-- Calls after which memory and log are the same: rewrites and restarts. -/
def settling : Call → Bool
  | .gc _ _ _ _ => true
  | .compact _ _ => true
  | .reopen => true
  | _ => false

def Readable (codec : Codec Batch) (place : Option (Nat × Batch)) : Prop :=
  ∀ w ∈ place, codec.Stores w.2 ∧ w.1 + (codec.frame w.2).length < 2^64

instance (codec : Codec Batch) (place : Option (Nat × Batch)) : Decidable (Readable codec place) :=
  inferInstanceAs (Decidable (∀ w ∈ place, _ ∧ _))

end Database

structure Manifest.Sound (m : Manifest) : Prop where
  distinct : m.segments.Nodup
  fresh : ∀ segment ∈ m.segments, segment < m.nextSegmentId

/-- The directory of an open database holds these batches under its manifest, and
the engine appends to the last segment. -/
structure Backed (codec : Codec Batch) (db : Database) (batches : List Batch) : Prop where
  manifest : db.disk.manifest = some db.store.manifest
  version : db.store.manifest.formatVersion = formatVersion
  sound : db.store.manifest.Sound
  active : db.store.manifest.segments.getLast? = some db.store.active
  present : db.store.active ∈ db.disk.files
  holds : Holds codec db.disk db.store.manifest.segments batches
  memory : db.store.mem.WellFormed
  logged : ∀ op ∈ allOps batches, op.commitTs ≤ db.store.mem.lastCommitTs

theorem mem_create (d : Disk) (segment : Nat) : segment ∈ (d.create segment).files := by
  simp [Disk.create]

def Store.retainedBatches (st : Store) : List Batch :=
  if st.retained.ops.isEmpty then [] else [st.retained]

theorem frames_retained (codec : Codec Batch) (st : Store)
    (readable : Database.Readable codec (Database.rewritten st)) :
    codec.Frames 0 (st.retainedBytes codec) st.retainedBatches := by
  simp only [Store.retainedBytes,Store.retainedBatches]
  cases empty : st.retained.ops.isEmpty with
  | true => exact .done 0
  | false =>
    obtain ⟨stores,fits⟩ := readable (0,st.retained) (by simp [Database.rewritten,empty])
    simpa using (Codec.Frames.done 0).append st.retained stores (by simpa using fits)

theorem replay_retained (st : Store) (ok : st.mem.WellFormed) (c : String) (i : RecordId) :
    (replay st.retainedBatches).chainOf c i = st.mem.chainOf c i := by
  have chains := chainOf_retained st.mem ok st.mem.maxTxnId c i
  unfold Store.retainedBatches
  split
  · rename_i empty
    rw [List.isEmpty_iff] at empty
    rw [← chains]
    simp only [Store.retained] at empty
    simp [empty,RecordMap.applyBatch,replay]
  · exact chains

theorem logged_retained (st : Store) (ok : st.mem.WellFormed) :
    ∀ op ∈ allOps st.retainedBatches, op.commitTs ≤ st.mem.lastCommitTs := by
  unfold Store.retainedBatches
  split
  · simp [allOps]
  · simpa [allOps,Store.retained] using retainedOps_bounded st.mem ok

/-- A directory whose manifest names the new segment, all written, holds what the rewrite retained. -/
theorem rewritten_backed (codec : Codec Batch) (d : Disk) (st : Store) (ok : st.mem.WellFormed)
    (readable : Database.Readable codec (Database.rewritten st)) (manifest : d.manifest = some st.rewrittenManifest)
    (file : d.files[st.manifest.nextSegmentId]? = some (st.retainedBytes codec)) :
    Backed codec ⟨d,{ st with manifest := st.rewrittenManifest, active := st.manifest.nextSegmentId }⟩
      st.retainedBatches := by
  refine ⟨manifest,rfl,⟨?_,?_⟩,rfl,?_,?_,ok,logged_retained st ok⟩
  · exact List.pairwise_singleton _ _
  · intro segment inside
    rw [List.mem_singleton.mp inside]
    exact Nat.lt_succ_self _
  · exact ExtTreeMap.mem_iff_isSome_getElem?.mpr (congrArg Option.isSome file)
  · rw [← List.append_nil st.retainedBatches]
    refine .cons st.manifest.nextSegmentId [] st.retainedBatches [] ?_ .nil
    have read : d.read st.manifest.nextSegmentId = st.retainedBytes codec := by
      simp only [Disk.read,file,Option.getD_some]
    rw [read]
    exact frames_retained codec st readable

theorem rewriteSegment_backed (codec : Codec Batch) (stuck : Nat → Bool) (d : Disk) (st : Store)
    (ok : st.mem.WellFormed) (readable : Database.Readable codec (Database.rewritten st)) :
    let next := st.rewriteSegment codec none stuck d
    next.2.1.mem = st.mem ∧ next.2.2 = .ok () ∧ Backed codec ⟨next.1,next.2.1⟩ st.retainedBatches := by
  intro next
  let newId := st.manifest.nextSegmentId
  let removed := st.manifest.segments.filter (fun old => old != newId && !stuck old)
  let saved := { d.write newId (st.retainedBytes codec) with manifest := some st.rewrittenManifest }
  have apart : newId ∉ removed := by simp [removed]
  obtain ⟨files,manifest,catalog⟩ := Disk.foldl_remove removed saved newId apart
  refine ⟨rfl,rfl,rewritten_backed codec next.1 st ok readable manifest ?_⟩
  rw [show next.1.files[newId]? = saved.files[newId]? from files]
  simp [saved,Disk.write]

def recovered (db : Database) (batches : List Batch) : Storage :=
  recoveredStorage db.disk.catalog
    (batches.foldl (recoverBatch false) ⟨∅,0,db.store.manifest.lastCommitTs,0⟩)

namespace Backed
section
variable (backed : Backed codec db batches)
include backed

theorem opens (syncOnCommit : Bool) : openWith codec syncOnCommit db.disk = (db.disk.create db.store.active,
      .ok ⟨syncOnCommit,db.store.manifest,db.store.active,recovered db batches⟩) := by
  have nonempty : db.store.manifest.segments.isEmpty = false := by
    have last := backed.active
    cases segments : db.store.manifest.segments with
    | nil => simp [segments] at last
    | cons segment rest => rfl
  have loaded : db.store.manifest.load = .ok db.store.manifest := by
    simp [Manifest.load,backed.version,nonempty,formatVersion,minReadableFormatVersion]
  have current : decide (db.store.manifest.formatVersion < formatVersion) = false := by simp [backed.version]
  have active : db.store.manifest.active = db.store.active := by
    simp [Manifest.active,List.getLastD_eq_getLast?,backed.active]
  simp only [openWith,openManifest,Disk.loadManifest,backed.manifest,loaded,current,
    recoverSegments_holds backed.holds,Bool.false_eq_true,if_false,active]
  rfl

theorem opened (syncOnCommit : Bool) : Backed codec ⟨db.disk.create db.store.active,
      ⟨syncOnCommit,db.store.manifest,db.store.active,recovered db batches⟩⟩ batches := by
  obtain ⟨wellFormed,facts⟩ := recoveredStorage_facts db.disk.catalog false batches
    db.store.manifest.lastCommitTs
  exact { backed with
    present := mem_create _ _
    holds := backed.holds.congr (fun segment _ => Disk.read_create _ _ segment)
    memory := wellFormed
    logged := (facts rfl).2 }

theorem reopens (syncOnCommit : Bool) : ∃ d st, openWith codec syncOnCommit db.disk = (d,.ok st) ∧
      ∀ c i, st.mem.chainOf c i = (replay batches).chainOf c i :=
  ⟨_,_,backed.opens syncOnCommit,((recoveredStorage_facts _ false batches _).2 rfl).1⟩

theorem congr_disk (d : Disk) (manifest : d.manifest = db.disk.manifest)
    (active : d.files[db.store.active]? = db.disk.files[db.store.active]?)
    (same : ∀ segment ∈ db.store.manifest.segments, d.read segment = db.disk.read segment) :
    Backed codec ⟨d,db.store⟩ batches :=
  { backed with
    manifest := manifest.trans backed.manifest
    present := by
      have present := backed.present
      rw [ExtTreeMap.mem_iff_isSome_getElem?] at present ⊢
      exact active ▸ present
    holds := backed.holds.congr same }

theorem congr_mem (mem : Storage) (same : ∀ c i, mem.chainOf c i = db.store.mem.chainOf c i)
    (later : db.store.mem.lastCommitTs ≤ mem.lastCommitTs) :
    Backed codec ⟨db.disk,{ db.store with mem := mem }⟩ batches :=
  { backed with
    memory := backed.memory.congr same later
    logged := fun op inside => Nat.le_trans (backed.logged op inside) later }

theorem pruned (cutoff keep : Nat) :
    Backed codec ⟨db.disk,{ db.store with mem := db.store.mem.pruned cutoff keep }⟩ batches :=
  { backed with memory := backed.memory.pruned cutoff keep }

theorem appended (ts : Nat) (batch : Batch) (newer : db.store.mem.lastCommitTs < ts)
    (stores : codec.Stores (Store.stamp ts batch))
    (fits : (db.disk.read db.store.active).length + (codec.frame (Store.stamp ts batch)).length < 2^64) :
    Backed codec ⟨db.disk.append db.store.active (codec.frame (Store.stamp ts batch)),
        { db.store with mem := db.store.mem.applied ts batch }⟩
      (batches ++ [Store.stamp ts batch]) :=
  { backed with
    present := by
      have present := backed.present
      simpa [Disk.append] using present
    holds := backed.holds.append backed.sound.distinct _ backed.active backed.present _ stores fits
    memory := backed.memory.applied ts batch newer
    logged := by
      intro op inside
      simp only [allOps,List.flatMap_append,List.flatMap_cons,List.flatMap_nil,List.append_nil,
        List.mem_append] at inside
      rcases inside with old | new
      · exact Nat.le_of_lt (Nat.lt_of_le_of_lt (backed.logged op old) newer)
      · obtain ⟨original,_,rfl⟩ := List.mem_map.mp new
        exact Nat.le_of_eq (LogOp.commitTs_setCommitTs ts original) }

end

end Backed

theorem appendBatch_cases (codec : Codec Batch) (db : Database) (fault : Option AppendFault) (batch : Batch)
    (harmless : db.harmlessAppend fault) : db.store.appendBatch codec fault batch db.disk =
        (db.disk.append db.store.active (codec.frame batch),.ok ()) ∨
      ∃ e, db.store.appendBatch codec fault batch db.disk = (db.disk.append db.store.active [],.error e) := by
  cases fault with
  | none => exact Or.inl rfl
  | some fault =>
    cases fault with
    | write written reason =>
      obtain rfl : written = 0 := harmless
      exact Or.inr ⟨_,rfl⟩
    | sync reason =>
      have unsynced : db.store.syncOnCommit = false := harmless
      exact Or.inl (by simp [Store.appendBatch,unsynced])

theorem append_nil (d : Disk) (segment : Nat) : d.append segment [] = d := by
  have files : d.files.alter segment (fun file => file.map (· ++ [])) = d.files := by
    apply ExtTreeMap.ext_getElem?
    intro other
    rw [TreeMap.getElem?_alter_eq]
    split
    · subst other
      simp
    · rfl
  simp only [Disk.append,files]

/-- Only a replicated batch without ops moves the watermark without a commit; only a failed rewrite prunes
memory and leaves the log. -/
inductive Changed (call : Call) (db : Database) (batches : List Batch) :
    List Ack → Database → List Batch → Prop where
  | idle (db' : Database) (ts : Nat) (later : db.store.mem.lastCommitTs ≤ ts)
      (moved : ts = db.store.mem.lastCommitTs ∨
        ∃ fault batch, call = .applyCommittedBatch fault batch ts ∧ batch.ops.isEmpty = true)
      (which : Database.settling call = false ∨ Database.faultless call = false)
      (store : db'.store = { db.store with mem := { db.store.mem with lastCommitTs := ts } }) :
      Changed call db batches [] db' batches
  | committed (db' : Database) (ts : Nat) (batch : Batch) (newer : db.store.mem.lastCommitTs < ts)
      (nonempty : batch.ops.isEmpty = false) (which : Database.settling call = false)
      (store : db'.store = { db.store with mem := db.store.mem.applied ts batch }) :
      Changed call db batches [⟨ts,batch⟩] db' (batches ++ [Store.stamp ts batch])
  | rewritten (db' : Database) (stuck : Nat → Bool) (which : call = .compact none stuck)
      (mem : db'.store.mem = db.store.mem) (saved : db'.store.manifest = db.store.rewrittenManifest) :
      Changed call db batches [] db' db'.store.retainedBatches
  | collected (db' : Database) (stuck : Nat → Bool) (cutoff minRetained : Nat)
      (which : call = .gc none stuck cutoff minRetained)
      (mem : db'.store.mem = db.store.mem.pruned cutoff (max minRetained 1))
      (saved : db'.store.manifest = db.store.rewrittenManifest) :
      Changed call db batches [] db' db'.store.retainedBatches
  | prunedOnly (db' : Database) (cutoff minRetained : Nat) (unsaved : Database.faultless call = false)
      (store : db'.store = { db.store with mem := db.store.mem.pruned cutoff (max minRetained 1) }) :
      Changed call db batches [] db' batches
  | reopened (db' : Database) (which : call = .reopen) (manifest : db'.store.manifest = db.store.manifest)
      (mem : db'.store.mem = recovered db batches) : Changed call db batches [] db' batches

section changes
variable (call : Call)
section
variable (backed : Backed codec db batches)
include backed

section
variable (fault : Option AppendFault) (batch : Batch)
include fault batch

theorem append_changed (ts : Nat) (newer : db.store.mem.lastCommitTs < ts)
    (nonempty : batch.ops.isEmpty = false) (which : Database.settling call = false)
    (harmless : db.harmlessAppend fault) (readable : Database.Readable codec (db.appended ts batch)) :
    let file := db.store.appendBatch codec fault (Store.stamp ts batch) db.disk
    let mem := if file.2 = .ok () then db.store.mem.applied ts batch else db.store.mem
    ∃ batches', Backed codec ⟨file.1,{ db.store with mem := mem }⟩ batches' ∧
      Changed call db batches (Database.acknowledged batch (file.2.map (fun () => ts)))
        ⟨file.1,{ db.store with mem := mem }⟩ batches' := by
  intro file mem
  obtain ⟨stores,fits⟩ := readable ((db.disk.read db.store.active).length,Store.stamp ts batch)
    (by simp [Database.appended,nonempty])
  rcases appendBatch_cases codec db fault (Store.stamp ts batch) harmless with done | ⟨e,undone⟩
  · simp only [mem,file,done,if_true]
    refine ⟨_,backed.appended ts batch newer stores fits,?_⟩
    simpa [Database.acknowledged,nonempty,Except.map] using Changed.committed _ ts batch newer nonempty which rfl
  · simp only [mem,file,undone,append_nil]
    exact ⟨batches,backed,.idle _ _ (Nat.le_refl _) (.inl rfl) (.inl which) rfl⟩

theorem commitBatch_changed (which : Database.settling call = false) (harmless : db.harmlessAppend fault)
    (readable : Database.Readable codec (db.appended (db.store.mem.lastCommitTs + 1) batch)) :
    let next := db.store.commitBatch codec fault batch db.disk
    ∃ batches', Backed codec ⟨next.1,next.2.1⟩ batches' ∧
      Changed call db batches (Database.acknowledged batch next.2.2) ⟨next.1,next.2.1⟩ batches' := by
  intro next
  cases empty : batch.ops.isEmpty with
  | true =>
    simp only [next,Store.commitBatch,commitBatch,empty,if_true,Database.acknowledged]
    exact ⟨batches,backed,.idle _ _ (Nat.le_refl _) (.inl rfl) (.inl which) rfl⟩
  | false =>
    have change := append_changed call backed fault batch _ (Nat.lt_succ_self _) empty which harmless readable
    simp only [next,Store.commitBatch,commitBatch,empty,Bool.false_eq_true,if_false]
    rcases appendBatch_cases codec db fault (Store.stamp (db.store.mem.lastCommitTs + 1) batch) harmless
      with done | ⟨e,undone⟩
    · simpa [done,Except.map] using change
    · simpa [undone,Except.map] using change

theorem applyCommittedBatch_changed (ts : Nat) (harmless : db.harmlessAppend fault)
    (readable : ¬ ts ≤ db.store.mem.lastCommitTs → Database.Readable codec (db.appended ts batch)) :
    let next := db.store.applyCommittedBatch codec fault batch ts db.disk
    ∃ batches', Backed codec ⟨next.1,next.2.1⟩ batches' ∧
      Changed (.applyCommittedBatch fault batch ts) db batches (if ts ≤ db.store.mem.lastCommitTs then []
        else Database.acknowledged batch (next.2.2.map (fun () => ts))) ⟨next.1,next.2.1⟩ batches' := by
  intro next
  by_cases old : ts ≤ db.store.mem.lastCommitTs
  · simp only [next,Store.applyCommittedBatch,applyCommittedBatch,old,true_or,if_true]
    exact ⟨batches,backed,.idle _ _ (Nat.le_refl _) (.inl rfl) (.inl rfl) rfl⟩
  · cases empty : batch.ops.isEmpty with
    | true =>
      -- a batch without ops moves the watermark in memory only
      simp only [next,Store.applyCommittedBatch,applyCommittedBatch,old,empty,or_true,if_true,
        if_false,Database.acknowledged,Except.map]
      exact ⟨batches,backed.congr_mem _ (fun _ _ => rfl) (Nat.le_of_not_le old),
        .idle _ ts (Nat.le_of_not_le old) (.inr ⟨fault,batch,rfl,empty⟩) (.inl rfl) rfl⟩
    | false =>
      have change := append_changed (.applyCommittedBatch fault batch ts) backed fault batch ts
        (Nat.lt_of_not_le old) empty rfl harmless (readable old)
      simp only [next,Store.applyCommittedBatch,applyCommittedBatch,old,empty,Bool.false_eq_true,or_self,if_false]
      rcases appendBatch_cases codec db fault (Store.stamp ts batch) harmless with done | ⟨e,undone⟩
      · simpa [done,Except.map] using change
      · simpa [undone,Except.map] using change

end

theorem rewriteSegment_failed (fault : RewriteFault) (stuck : Nat → Bool)
    (harmless : Database.harmlessRewrite (some fault)) :
    let next := db.store.rewriteSegment codec (some fault) stuck db.disk
    next.2.1 = db.store ∧ (∃ e, next.2.2 = .error e) ∧ Backed codec ⟨next.1,db.store⟩ batches := by
  have written (bytes : Bytes) :
      Backed codec ⟨db.disk.write db.store.manifest.nextSegmentId bytes,db.store⟩ batches := by
    have apart (segment : Nat) (inside : segment ∈ db.store.manifest.segments) :
        db.store.manifest.nextSegmentId ≠ segment :=
      Ne.symm (Nat.ne_of_lt (backed.sound.fresh segment inside))
    refine backed.congr_disk _ rfl ?_ ?_
    · simp [Disk.write,TreeMap.getElem?_insert_eq,apart _ (List.mem_of_getLast? backed.active)]
    · intro segment inside
      rw [Disk.read_write,if_neg (apart segment inside)]
  cases fault with
  | openNew reason => exact ⟨rfl,⟨_,rfl⟩,backed⟩
  | writeNew n reason | syncNew reason => exact ⟨rfl,⟨_,rfl⟩,written _⟩
  | saveManifest reason | reopen reason => exact harmless.elim

end

theorem gc_mem (rewritten : Result Nat) (cutoff minRetained : Nat) (mem : Storage) :
    (mem.gc rewritten cutoff minRetained).1 = mem.pruned cutoff (max minRetained 1) := by
  cases rewritten <;> rfl

section
variable (backed : Backed codec db batches) (fault : Option RewriteFault) (stuck : Nat → Bool)
include backed fault stuck

theorem gc_changed (cutoff minRetained : Nat) (harmless : Database.harmlessRewrite fault)
    (readable : Database.Readable codec (Database.rewritten
      { db.store with mem := db.store.mem.pruned cutoff (max minRetained 1) })) :
    let next := db.store.gc codec fault stuck cutoff minRetained db.disk
    ∃ batches', Backed codec ⟨next.1,next.2.1⟩ batches' ∧
      Changed (.gc fault stuck cutoff minRetained) db batches [] ⟨next.1,next.2.1⟩ batches' := by
  intro next
  have smaller := backed.pruned cutoff (max minRetained 1)
  simp only [next,Store.gc,gc_mem]
  cases fault with
  | none =>
    obtain ⟨mem,_,after⟩ := rewriteSegment_backed codec stuck db.disk
      { db.store with mem := db.store.mem.pruned cutoff (max minRetained 1) } smaller.memory readable
    exact ⟨_,after,.collected _ stuck cutoff minRetained rfl rfl rfl⟩
  | some fault =>
    obtain ⟨store,_,after⟩ := rewriteSegment_failed smaller fault stuck harmless
    rw [store]
    exact ⟨batches,after,.prunedOnly _ cutoff minRetained rfl rfl⟩

theorem compact_changed (harmless : Database.harmlessRewrite fault)
    (readable : Database.Readable codec (Database.rewritten db.store)) :
    let next := db.store.compact codec fault stuck db.disk
    ∃ batches', Backed codec ⟨next.1,next.2.1⟩ batches' ∧
      Changed (.compact fault stuck) db batches [] ⟨next.1,next.2.1⟩ batches' := by
  intro next
  simp only [next,Store.compact]
  cases fault with
  | none =>
    obtain ⟨mem,_,after⟩ := rewriteSegment_backed codec stuck db.disk db.store backed.memory readable
    exact ⟨_,after,.rewritten _ stuck rfl mem rfl⟩
  | some fault =>
    obtain ⟨store,_,after⟩ := rewriteSegment_failed backed fault stuck harmless
    rw [store]
    exact ⟨batches,after,.idle _ _ (Nat.le_refl _) (.inl rfl) (.inr rfl) rfl⟩

end

variable {acks : List Ack}

theorem call_changed (backed : Backed codec db batches) (harmless : db.Harmless call)
    (readable : Database.Readable codec (db.written call)) (called : db.call codec call = some (db',acks)) :
    ∃ batches', Backed codec db' batches' ∧ Changed call db batches acks db' batches' := by
  cases call with
  | commitBatch fault batch =>
    cases called
    exact commitBatch_changed _ backed fault batch rfl harmless readable
  | applyCommittedBatch fault batch ts =>
    cases called
    exact applyCommittedBatch_changed backed fault batch ts harmless
      (fun newer => by simpa [Database.written,newer] using readable)
  | put fault record | delete fault c i =>
    cases called
    exact commitBatch_changed _ backed fault _ rfl harmless readable
  | gc fault stuck cutoff minRetained =>
    cases called
    exact gc_changed backed fault stuck cutoff minRetained harmless readable
  | compact fault stuck =>
    cases called
    exact compact_changed backed fault stuck harmless readable
  | flush =>
    cases called
    exact ⟨batches,backed.congr_disk _ backed.manifest.symm rfl (fun _ _ => rfl),
      .idle _ _ (Nat.le_refl _) (.inl rfl) (.inl rfl) rfl⟩
  | reopen =>
    have opens := backed.opens db.store.syncOnCommit
    simp only [Database.call,opens,Option.some.injEq,Prod.mk.injEq] at called
    obtain ⟨rfl,rfl⟩ := called
    exact ⟨batches,backed.opened _,.reopened _ rfl rfl rfl⟩

end changes

/-- Where the log was of the older format, opening has rewritten it. -/
structure Opened (codec : Codec Batch) (syncOnCommit : Bool) (d : Disk) (db : Database) : Prop where
  sound : ∀ m ∈ d.manifest, m.Sound
  opened : openWith codec syncOnCommit d = (db.disk,.ok db.store)
  readable : (∃ m ∈ d.manifest, m.formatVersion < formatVersion) →
    Database.Readable codec (Database.rewritten db.store)

/-- An opened database holds what opening recovered, or its log has just been written anew. -/
def Fresh (older : Prop) (db : Database) (batches : List Batch) : Prop :=
  db.store.mem = recovered db batches ∨ older ∧
    batches = db.store.retainedBatches ∧ db.store.manifest.lastCommitTs = db.store.mem.lastCommitTs

variable {syncOnCommit : Bool}

private theorem openManifest_backed {m : Manifest} {d : Disk} (manifest : d.manifest = some m) (sound : m.Sound)
    (nonempty : m.segments ≠ []) (known : m.formatVersion ≤ formatVersion)
    (readable : m.formatVersion < formatVersion → Database.Readable codec (Database.rewritten db.store))
    (opened : openManifest codec syncOnCommit m d = (db.disk,.ok db.store)) :
    ∃ batches, Backed codec db batches ∧ Fresh (m.formatVersion < formatVersion) db batches := by
  obtain ⟨disk,store⟩ := db
  simp only [openManifest] at opened
  cases recovery : recoverSegments codec (decide (m.formatVersion < formatVersion)) m.segments d
      ⟨∅,0,m.lastCommitTs,0⟩ with
  | mk d' result =>
    cases result with
    | error e => simp [recovery] at opened
    | ok r =>
      obtain ⟨batches,holds,rfl,sameManifest,sameCatalog,_⟩ := recoverSegments_ok _ sound.distinct recovery
      obtain ⟨wellFormed,facts⟩ := recoveredStorage_facts d'.catalog
        (decide (m.formatVersion < formatVersion)) batches m.lastCommitTs
      simp only [recovery] at opened
      by_cases migrating : m.formatVersion < formatVersion
      · -- the older format is written anew before anything else happens
        let st : Store := ⟨syncOnCommit,m,m.active,recoveredStorage d'.catalog
          (batches.foldl (recoverBatch (decide (m.formatVersion < formatVersion))) ⟨∅,0,m.lastCommitTs,0⟩)⟩
        let next := st.rewriteSegment codec none (fun _ => false) (d'.create m.active)
        have shape : (next.1,(.ok next.2.1 : Result Store)) = (disk,.ok store) := by
          rw [if_pos (by simpa using migrating)] at opened
          exact opened
        obtain ⟨rfl,rfl⟩ : next.1 = disk ∧ next.2.1 = store := by simpa using shape
        obtain ⟨mem,_,backed⟩ := rewriteSegment_backed codec (fun _ => false) (d'.create m.active) st
          wellFormed (readable migrating)
        exact ⟨_,backed,.inr ⟨migrating,rfl,rfl⟩⟩
      · simp only [migrating,decide_false,Bool.false_eq_true,if_false,Prod.mk.injEq,Except.ok.injEq] at opened
        obtain ⟨rfl,rfl⟩ := opened
        obtain ⟨-,logged⟩ := facts (by simp [migrating])
        simp only [migrating,decide_false] at logged wellFormed
        refine ⟨batches,?_,.inl rfl⟩
        exact {
          manifest := sameManifest.trans manifest
          version := Nat.le_antisymm known (Nat.le_of_not_lt migrating)
          sound := sound
          active := by
            simp only [Manifest.active,List.getLastD_eq_getLast?]
            cases last : m.segments.getLast? with
            | none => exact absurd (List.getLast?_eq_none_iff.mp last) nonempty
            | some segment => rfl
          present := mem_create _ _
          holds := holds.congr (fun segment _ => Disk.read_create _ _ segment)
          memory := wellFormed
          logged := logged }

section
variable {d : Disk} (start : Opened codec syncOnCommit d db)
include start

theorem Opened.fresh : ∃ batches, Backed codec db batches ∧
      Fresh (∃ m ∈ d.manifest, m.formatVersion < formatVersion) db batches := by
  have opened := start.opened
  unfold openWith Disk.loadManifest at opened
  cases manifest : d.manifest with
  | none =>
    simp only [manifest] at opened
    obtain ⟨batches,backed,fresh⟩ := openManifest_backed rfl ⟨by decide,by decide⟩ (by decide) (by decide)
      (fun older => absurd older (by decide)) opened
    exact ⟨batches,backed,fresh.imp_right (fun both => absurd both.1 (by decide))⟩
  | some m =>
    simp only [manifest] at opened
    cases loaded : m.load with
    | error e => simp [loaded] at opened
    | ok m' =>
      simp only [loaded] at opened
      simp only [Manifest.load] at loaded
      split_ifs at loaded with unknown empty
      cases loaded
      obtain ⟨batches,backed,fresh⟩ := openManifest_backed manifest (start.sound m (by simp [manifest]))
        (by simpa using empty) (Nat.le_of_not_lt (fun newer => unknown (Or.inl newer)))
        (fun older => start.readable ⟨m,by simp [manifest],older⟩) opened
      exact ⟨batches,backed,fresh.imp_right (fun both => ⟨⟨m,rfl,both.1⟩,both.2⟩)⟩

theorem Opened.backed :
    ∃ batches, Backed codec db batches ∧ ∀ c i, (replay batches).chainOf c i = db.store.mem.chainOf c i := by
  obtain ⟨batches,backed,fresh⟩ := start.fresh
  refine ⟨batches,backed,?_⟩
  intro c i
  rcases fresh with same | ⟨-,rfl,-⟩
  · rw [same]
    exact (((recoveredStorage_facts _ false batches _).2 rfl).1 c i).symm
  · exact replay_retained db.store backed.memory c i

end

namespace Database

abbrev Runs (codec : Codec Batch) (condition : Database → Call → Prop) :=
  Run (call codec) (fun db c => condition db c ∧ Readable codec (db.written c))

structure SameReads (s s' : Storage) : Prop where
  chains : ∀ c i, s.chainOf c i = s'.chainOf c i
  get : ∀ c i, s.get c i = s'.get c i
  scan : ∀ c, s.scan c = s'.scan c
  getAsOf : ∀ c i t, s.getAsOf c i t = s'.getAsOf c i t
  scanAsOf : ∀ c t, s.scanAsOf c t = s'.scanAsOf c t
  latestCommitTs : ∀ c i, s.latestCommitTs c i = s'.latestCommitTs c i

theorem sameReads_of_chains {s s' : Storage} (chains : ∀ c i, s.chainOf c i = s'.chainOf c i) : SameReads s s' := by
  have get (c : String) (i : RecordId) : s.get c i = s'.get c i := by rw [get_eq,get_eq,chains]
  have getAsOf (c : String) (i : RecordId) (t : Nat) : s.getAsOf c i t = s'.getAsOf c i t := by
    rw [getAsOf_eq,getAsOf_eq,chains]
  refine ⟨chains,get,fun c => scan_congr s s' c (get c),getAsOf,?_,?_⟩
  · exact fun c t => scanAsOf_congr s s' c t t (fun i => getAsOf c i t)
  · exact fun c i => by rw [latestCommitTs_eq,latestCommitTs_eq,chains]

def Exact (codec : Codec Batch) (db : Database) : Prop :=
  ∃ batches, Backed codec db batches ∧ ∀ c i, (replay batches).chainOf c i = db.store.mem.chainOf c i

theorem chainOf_applyBatch_stamp {mem : Storage} (ok : mem.WellFormed) (records : RecordMap)
    (same : ∀ c i, records.chainOf c i = mem.chainOf c i) (ts : Nat) (batch : Batch)
    (newer : mem.lastCommitTs < ts) (c : String) (i : RecordId) :
    (records.applyBatch (Store.stamp ts batch)).chainOf c i = (mem.applied ts batch).chainOf c i := by
  have replayed : ({ mem with records := records } : Storage).WellFormed := ok.congr same (Nat.le_refl _)
  have left := chainOf_applied replayed ts batch newer c i
  rw [chainOf_applied ok ts batch newer]
  exact left.trans (by simp only [chainOf] at same ⊢; simp only [same])

theorem harmless_of_faultless {c : Call} (clean : faultless c = true) : db.Harmless c := by
  cases c <;> simp_all [faultless,Harmless,harmlessAppend,harmlessRewrite]

theorem Exact.call {c : Call} {acks : List Ack} (exact : Exact codec db) (clean : faultless c = true)
    (readable : Readable codec (db.written c)) (called : db.call codec c = some (db',acks)) : Exact codec db' := by
  obtain ⟨batches,backed,same⟩ := exact
  obtain ⟨batches',after,changed⟩ := call_changed c backed (harmless_of_faultless clean) readable called
  refine ⟨batches',after,fun k i => ?_⟩
  cases changed with
  | idle _ _ _ _ _ store =>
    rw [store]
    exact same k i
  | committed _ ts batch newer _ _ store =>
    rw [replay_append,store]
    exact chainOf_applyBatch_stamp backed.memory _ same ts batch newer k i
  | rewritten | collected => exact replay_retained db'.store after.memory k i
  | prunedOnly _ _ _ unsaved _ => simp [clean] at unsaved
  | reopened _ _ _ mem =>
    rw [mem]
    exact (((recoveredStorage_facts _ false batches _).2 rfl).1 k i).symm

theorem Opened.exact_run {d : Disk} {acks : List Ack} (start : Opened codec syncOnCommit d db)
    (run : Runs codec (fun _ c => faultless c = true) db acks db') : Exact codec db' :=
  run.invariant (fun _ db => Exact codec db) start.backed
    (fun _ _ _ _ _ exact allowed called => exact.call allowed.1 allowed.2 called)

theorem Exact.reopens (exact : Exact codec db) (sync : Bool) :
    ∃ d st, openWith codec sync db.disk = (d,.ok st) ∧ SameReads st.mem db.store.mem := by
  obtain ⟨batches,backed,same⟩ := exact
  obtain ⟨d,st,opened,chains⟩ := backed.reopens sync
  exact ⟨d,st,opened,sameReads_of_chains (fun c i => (chains c i).trans (same c i))⟩

/-- Durability: after any run of calls without file faults, opening the directory again gives the same version
chains. -/
theorem reopen_sameReads (codec : Codec Batch) (syncOnCommit : Bool) (d : Disk) (db db' : Database)
    (acks : List Ack) (start : Opened codec syncOnCommit d db)
    (run : Runs codec (fun _ c => faultless c = true) db acks db') :
    ∃ d'' st, openWith codec db'.store.syncOnCommit db'.disk = (d'',.ok st) ∧
      SameReads st.mem db'.store.mem :=
  (Opened.exact_run start run).reopens db'.store.syncOnCommit

/-- One vector of one component, 1.5. -/
def tinyFields : Document := [("v",.vector [⟨0x3fc00000⟩])]

/-- A batch is written as its transaction id. -/
def oneByte (batch : Nat → Batch) : Codec Batch where
  write batch := [UInt8.ofNat batch.txnId]
  read
    | [n] => .ok (batch n.toNat)
    | _ => .error "expected one byte"
  crc bytes := UInt32.ofNat (bytes.foldl (fun sum b => sum + b.toNat) 7)

def tinyCodec : Codec Batch := oneByte fun n => ⟨n,[.put n ⟨n,"Item",tinyFields,1,n⟩]⟩

def tinyBatch (n : Nat) : Batch := ⟨n,[.put 0 ⟨n,"Item",tinyFields,1,n⟩]⟩

def tinyDatabase : Database :=
  ⟨⟨some .default,∅,(∅ : ExtTreeMap Nat Bytes compare).insert 1 []⟩,⟨true,.default,1,⟨∅,∅,0,0⟩⟩⟩

theorem tinyDatabase_opened : Opened tinyCodec true ⟨none,∅,∅⟩ tinyDatabase where
  sound := by simp
  opened := rfl
  readable := by simp

def tinyAfter (db : Database) (c : Call) : Database := ((db.call tinyCodec c).getD (db,[])).1

def tinyCompacted : Database :=
  tinyAfter (tinyAfter tinyDatabase (.commitBatch none (tinyBatch 1))) (.compact none fun _ => false)

theorem reopen_sameReads_tiny : (tinyCompacted.store.mem.get "Item" 1).isSome = true ∧
    ∃ d st, openWith tinyCodec true tinyCompacted.disk = (d,.ok st) ∧ SameReads st.mem tinyCompacted.store.mem := by
  have stored : Runs tinyCodec (fun _ c => faultless c = true) tinyDatabase [⟨1,tinyBatch 1⟩]
      (tinyAfter tinyDatabase (.commitBatch none (tinyBatch 1))) :=
    .next (.start _) (.commitBatch none (tinyBatch 1)) ⟨rfl,by decide +kernel⟩ rfl
  exact ⟨by decide +kernel,reopen_sameReads tinyCodec true ⟨none,∅,∅⟩ tinyDatabase tinyCompacted _ tinyDatabase_opened
    (stored.next (.compact none fun _ => false) ⟨rfl,by decide +kernel⟩ rfl)⟩

end Database

end AuraDb
