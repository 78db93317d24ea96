import AuraDb.Engine.Install
import AuraDb.Raft.Node

/-! The snapshot that a leader ships to a peer which its compacted log can no longer serve: the manifest, the
checks, and the install into the engine and then into the log. An install only adds, and one that fails in the
middle leaves the steps before. -/
namespace AuraDb.Replication
open Std Library Library.Framing Raft

def snapshotFormatVersion : Nat := 1

def maxSnapshotBytes : Nat := 8*1024*1024

structure SnapshotMeta where
  formatVersion : Nat
  clusterId : Option String
  lastIncludedIndex : Nat
  lastIncludedTerm : Nat
  storageFormatVersion : Nat
  digest : UInt32

structure SnapshotManifest where
  metadata : SnapshotMeta
  payload : Bytes

inductive SnapshotError where
  | unsupported (found supported : Nat)
  | malformed (reason : String)
  deriving DecidableEq

structure SnapshotCodec where
  manifest : Codec SnapshotManifest
  state : Codec SnapshotData

namespace SnapshotManifest

def ofData (codec : SnapshotCodec) (data : SnapshotData) (lastIncludedIndex lastIncludedTerm : Nat) :
    SnapshotManifest :=
  ⟨⟨snapshotFormatVersion,none,lastIncludedIndex,lastIncludedTerm,formatVersion,
    codec.state.crc (codec.state.write data)⟩,codec.state.write data⟩

/-- An error of the find is wrapped as a malformed snapshot. -/
def create [Host] [Ranked] (codec : SnapshotCodec) (e : Engine) (elapsed : Stopwatch)
    (lastIncludedIndex lastIncludedTerm : Nat) : Result SnapshotManifest :=
  (e.capture elapsed).map (fun data => .ofData codec data lastIncludedIndex lastIncludedTerm)

def withIdentity (m : SnapshotManifest) (clusterId : Option String) : SnapshotManifest :=
  { m with metadata := { m.metadata with clusterId := clusterId } }

def verifiedPayload (codec : SnapshotCodec) (m : SnapshotManifest) : Except SnapshotError Bytes :=
  if m.metadata.formatVersion > snapshotFormatVersion then
    .error (.unsupported m.metadata.formatVersion snapshotFormatVersion)
  else if codec.state.crc m.payload ≠ m.metadata.digest then .error (.malformed "snapshot payload digest mismatch")
  else .ok m.payload

def decodeState (codec : SnapshotCodec) (m : SnapshotManifest) : Except SnapshotError SnapshotData :=
  match m.verifiedPayload codec with
  | .error e => .error e
  | .ok payload => match codec.state.read payload with
    | .error reason => .error (.malformed reason)
    | .ok data => .ok data

def decode (codec : SnapshotCodec) (bytes : Bytes) : Except SnapshotError SnapshotManifest :=
  match codec.manifest.read bytes with
  | .error reason => .error (.malformed reason)
  | .ok m =>
    if m.metadata.formatVersion > snapshotFormatVersion then
      .error (.unsupported m.metadata.formatVersion snapshotFormatVersion)
    else .ok m

end SnapshotManifest

structure SnapshotRequest where
  term : Nat
  lastIncludedIndex : Nat
  lastIncludedTerm : Nat
  snapshot : Bytes

def SnapshotRequest.ship (codec : SnapshotCodec) (data : SnapshotData) (clusterId : String)
    (term lastIncludedIndex lastIncludedTerm : Nat) : SnapshotRequest :=
  ⟨term,lastIncludedIndex,lastIncludedTerm,codec.manifest.write
    ((SnapshotManifest.ofData codec data lastIncludedIndex lastIncludedTerm).withIdentity (some clusterId))⟩

structure LastSnapshotInfo where
  lastError : Option String := none
  lastIncludedIndex : Nat := 0
  lastIncludedTerm : Nat := 0
  lastInstallUnix : Option Nat := none

structure SnapshotCounters where
  snapshotsInstalled : Nat := 0
  snapshotsRejected : Nat := 0
  snapshotBytesInstalled : Nat := 0
  lastSnapshot : LastSnapshotInfo := {}

/-- What the threads of a node share, as far as an install reads or writes it. -/
structure SharedNode where
  engine : Engine
  raft : RaftNode FileStorage
  commitTsBase : Nat
  clusterId : String
  counters : SnapshotCounters

namespace SharedNode

def countRejected (s : SharedNode) : SharedNode :=
  { s with counters := { s.counters with snapshotsRejected := s.counters.snapshotsRejected + 1 } }

def reject (s : SharedNode) (reason : String) : SharedNode :=
  { s with counters := { s.counters with
      snapshotsRejected := s.counters.snapshotsRejected + 1
      lastSnapshot := { s.counters.lastSnapshot with lastError := some reason } } }

def countInstalled (s : SharedNode) (request : SnapshotRequest) (now : Nat) : SharedNode :=
  { s with counters := { s.counters with
      snapshotsInstalled := s.counters.snapshotsInstalled + 1
      snapshotBytesInstalled := s.counters.snapshotBytesInstalled + request.snapshot.length
      lastSnapshot := ⟨none,request.lastIncludedIndex,request.lastIncludedTerm,some now⟩ } }

/-- The checks, in their order, with the state that passes them. -/
def validate (codec : SnapshotCodec) (s : SharedNode) (request : SnapshotRequest) : Except String SnapshotData :=
  if request.snapshot.length > maxSnapshotBytes then .error "snapshot exceeds the single-message size limit" else
  if request.term < s.raft.term then .error "snapshot from a stale leader term" else
  match SnapshotManifest.decode codec request.snapshot with
  | .error _ => .error "snapshot manifest decode failed"
  | .ok m =>
    if m.metadata.clusterId.any (· ≠ s.clusterId) then .error "snapshot belongs to a different cluster" else
    if m.metadata.storageFormatVersion > formatVersion then .error "snapshot captured from a newer storage format" else
    if m.metadata.lastIncludedIndex ≠ request.lastIncludedIndex ∨
        m.metadata.lastIncludedTerm ≠ request.lastIncludedTerm then
      .error "snapshot boundary disagrees with the manifest" else
    match m.decodeState codec with
    | .error _ => .error "snapshot payload digest mismatch"
    | .ok data => .ok data

/-- `install_snapshot_from_leader`, given how the file steps went: whether it was installed, and the term of the
node. -/
def installSnapshotFromLeader [Host] (codec : SnapshotCodec) (steps : InstallSteps) (files : FileStorage.SnapshotFiles)
    (now : Nat) (s : SharedNode) (request : SnapshotRequest) : SharedNode × Outcome (Bool × Nat) :=
  match s.validate codec request with
  | .error reason => (s.reject reason,.ok (false,s.raft.term))
  | .ok data =>
    match s.engine.installSnapshot steps data (s.commitTsBase + request.lastIncludedIndex) with
    | (engine,.panic message) => ({ s with engine := engine },.panic message)
    | (engine,.err _) => ({ s with engine := engine }.countRejected,.ok (false,s.raft.term))
    | (engine,.ok ()) =>
      match s.raft.storage.tryInstallSnapshot files request.lastIncludedIndex request.lastIncludedTerm with
      | (storage,.error _) =>
        ({ s with engine := engine, raft := { s.raft with storage := storage } }.countRejected,.ok (false,s.raft.term))
      | (storage,.ok _) =>
        let raft := { s.raft with storage := storage }.adoptSnapshot request.lastIncludedIndex
        ({ s with engine := engine, raft := raft }.countInstalled request now,.ok (true,s.raft.term))

theorem installSnapshotFromLeader_done [Host] {codec : SnapshotCodec} {steps : InstallSteps}
    {files : FileStorage.SnapshotFiles} {now term : Nat} {s s' : SharedNode} {request : SnapshotRequest}
    (done : s.installSnapshotFromLeader codec steps files now request = (s',.ok (true,term))) :
    ∃ data, s.validate codec request = .ok data ∧
      s.engine.installSnapshot steps data (s.commitTsBase + request.lastIncludedIndex) = (s'.engine,.ok ()) := by
  unfold installSnapshotFromLeader at done
  split at done
  · cases done
  rename_i data admitted
  refine ⟨data,admitted,?_⟩
  split at done
  · cases done
  · cases done
  · rename_i engine installed
    split at done
    · cases done
    · cases done
      exact installed

end SharedNode

section Logs

structure Readable (codec : SnapshotCodec) (m : SnapshotManifest) (data : SnapshotData) : Prop where
  manifest : codec.manifest.read (codec.manifest.write m) = .ok m
  payload : codec.state.read (codec.state.write data) = .ok data

theorem validate_shipped {codec : SnapshotCodec} {data held : SnapshotData} {clusterId : String} {term index lastTerm : Nat}
    (readable : Readable codec ((SnapshotManifest.ofData codec data index lastTerm).withIdentity (some clusterId)) data)
    {s : SharedNode} (admitted : s.validate codec (.ship codec data clusterId term index lastTerm) = .ok held) :
    held = data := by
  have decoded : SnapshotManifest.decode codec (SnapshotRequest.ship codec data clusterId term index lastTerm).snapshot =
      .ok ((SnapshotManifest.ofData codec data index lastTerm).withIdentity (some clusterId)) := by
    simp only [SnapshotManifest.decode,SnapshotRequest.ship,readable.manifest]
    rfl
  have read : ((SnapshotManifest.ofData codec data index lastTerm).withIdentity (some clusterId)).decodeState codec =
      .ok data := by
    simp [SnapshotManifest.decodeState,SnapshotManifest.verifiedPayload,SnapshotManifest.ofData,
      SnapshotManifest.withIdentity,readable.payload]
  simp only [SharedNode.validate,decoded,read] at admitted
  split_ifs at admitted
  exact (Except.ok.inj admitted).symm

variable [Host]

def applyLog (commitTsBase : Nat) : Nat → List DatabaseCommand → Engine → Option Engine
  | _, [], e => some e
  | index, command::rest, e => match e.applyCommand (.ok ()) (.ok ()) command (commitTsBase + index) with
    | (e,.ok ()) => applyLog commitTsBase (index + 1) rest e
    | _ => none

theorem keyed_applyCommand {e e' : Engine} (keyed : e.Keyed) {command : DatabaseCommand} {logIndex : Nat}
    (done : e.applyCommand (.ok ()) (.ok ()) command logIndex = (e',.ok ())) : e'.Keyed := by
  have applies := Engine.applyCommand_applies keyed.records done
  refine ⟨applies.wellFormed,?_⟩
  rw [applies.catalog]
  intro c schema found
  cases command with
  | noop | write batch => exact keyed.schemas c schema found
  | schema change =>
    cases change with
    | create added =>
      exact TreeMap.forall_insert (P := fun c schema => schema.name = c) rfl
        (fun c schema _ held => keyed.schemas c schema held) c schema found
    | drop name =>
      exact keyed.schemas c schema (TreeMap.of_getElem?_erase found).2

theorem keyed_applyLog {commitTsBase : Nat} (commands : List DatabaseCommand) {index : Nat} {e e' : Engine}
    (keyed : e.Keyed) (done : applyLog commitTsBase index commands e = some e') : e'.Keyed := by
  induction commands generalizing index e with
  | nil =>
    cases done
    exact keyed
  | cons command rest ih =>
    simp only [applyLog] at done
    split at done
    · rename_i mid applied
      exact ih (keyed_applyCommand keyed applied) done
    · cases done

/-- An installed snapshot, whose records carry the ids of their primary keys and whose boundary is above the
follower's watermark, leaves the follower with the schemas and live records of the leader exactly if the leader still
has every collection and record of the follower. -/
theorem snapshot_reaches_leader [Ranked] (codec : SnapshotCodec) (first first' leader : Engine) (began : first.Keyed)
    (began' : first'.Keyed) (prior later : List DatabaseCommand) (s s' : SharedNode) (leaderBase : Nat)
    (followed : applyLog s.commitTsBase 1 prior first = some s.engine)
    (led : applyLog leaderBase 1 (prior ++ later) first' = some leader)
    (elapsed : Stopwatch) (data : SnapshotData) (captured : leader.capture elapsed = .ok data)
    (clusterId : String) (term lastTerm : Nat)
    (readable : Readable codec
      ((SnapshotManifest.ofData codec data (prior ++ later).length lastTerm).withIdentity (some clusterId)) data)
    (steps : InstallSteps) (files : FileStorage.SnapshotFiles) (now answered : Nat)
    (installed : s.installSnapshotFromLeader codec steps files now
      (.ship codec data clusterId term (prior ++ later).length lastTerm) = (s',.ok (true,answered)))
    (derived : leader.IdsDerived)
    (above : s.engine.storage.commitWatermark < s.commitTsBase + (prior ++ later).length) :
    s'.engine.SameState leader ↔ s.engine.Retained leader := by
  have keyed := keyed_applyLog prior began followed
  have keyed' := keyed_applyLog (prior ++ later) began' led
  obtain ⟨held,admitted,done⟩ := SharedNode.installSnapshotFromLeader_done installed
  obtain rfl := validate_shipped readable admitted
  exact Engine.installSnapshot_sameState_iff keyed' derived captured keyed.records above done

end Logs

def emptyEngine : Engine := ⟨⟨∅,∅,0,0⟩,∅,1,∅,60,0,1,∅⟩

theorem emptyEngine_keyed : emptyEngine.Keyed := ⟨Storage.wellFormed_empty,by simp [emptyEngine]⟩

def declareNotes : DatabaseCommand := .schema (.create System.notes)

def putNote (pk : String) : DatabaseCommand :=
  .write ⟨0,[.put 0 ⟨System.noteId pk,"notes",[("id",.text pk)],1,0⟩]⟩

def deleteNote (pk : String) : DatabaseCommand := .write ⟨0,[.delete 0 "notes" (System.noteId pk)]⟩

def ranLog (commands : List DatabaseCommand) : Engine :=
  (@applyLog plainHost 0 1 commands emptyEngine).getD emptyEngine

def capturedNotes (commands : List DatabaseCommand) : SnapshotData :=
  match @Engine.capture plainHost Engine.noRanking (ranLog commands) (fun _ => 0) with
  | .ok data => data
  | .error _ => ⟨[],[]⟩

def codecOf (data : SnapshotData) (index : Nat) : SnapshotCodec :=
  ⟨⟨fun _ => [],fun _ => .ok ⟨⟨1,some "c",index,0,2,0⟩,[]⟩,fun _ => 0⟩,⟨fun _ => [],fun _ => .ok data,fun _ => 0⟩⟩

def followerOf (commands : List DatabaseCommand) : SharedNode :=
  ⟨ranLog commands,.new (.singleNode 1) {},0,"c",{}⟩

def cleanSteps : InstallSteps := ⟨fun _ => .ok (),.ok (),.ok ()⟩

def installNotes (prior later : List DatabaseCommand) : SharedNode × Outcome (Bool × Nat) :=
  let data := capturedNotes (prior ++ later)
  let codec := codecOf data (prior ++ later).length
  @SharedNode.installSnapshotFromLeader plainHost codec cleanSteps ⟨.ok (),.ok (),.ok ()⟩ 0 (followerOf prior)
    (.ship codec data "c" 0 (prior ++ later).length 0)

def allLive (test : String → RecordId → Record → Bool) (s : Storage) : Bool :=
  s.records.toList.all (fun p => p.2.toList.all (fun q => ((VersionChain.latest q.2).bind (·.value)).all (test p.1 q.1)))

theorem allLive_true {test : String → RecordId → Record → Bool} {s : Storage} (check : allLive test s = true)
    (c : String) (i : RecordId) (r : Record) (isLive : s.get c i = some r) : test c i r = true := by
  obtain ⟨chains,held,found⟩ := Option.bind_eq_some_iff.mp isLive
  obtain ⟨chain,listed,last⟩ := Option.bind_eq_some_iff.mp found
  have inside := List.all_eq_true.mp (List.all_eq_true.mp check (c,chains)
    (ExtTreeMap.mem_toList_iff_getElem?_eq_some.mpr held)) (i,chain)
    (ExtTreeMap.mem_toList_iff_getElem?_eq_some.mpr listed)
  rw [last] at inside
  exact inside

def derives (e : Engine) (c : String) (i : RecordId) (r : Record) : Bool :=
  match e.storage.schemas[c]? with
  | none => false
  | some schema => schema.primaryKey.isSome && (@recordIdFor plainHost schema r.fields 0).toOption == some i

theorem derives_true {e : Engine} (check : allLive (derives e) e.storage = true) : @Engine.IdsDerived plainHost e := by
  intro c i r isLive
  have given := allLive_true check c i r isLive
  unfold derives at given
  split at given
  · cases given
  rename_i schema declared
  obtain ⟨keyed,id⟩ := Bool.and_eq_true_iff.mp given
  refine ⟨schema,declared,fun clock => ?_⟩
  rw [@recordIdFor_clock schema plainHost keyed]
  cases made : @recordIdFor plainHost schema r.fields 0 with
  | ok id' => simpa [made,Except.toOption] using id
  | error e => simp [made,Except.toOption] at id

theorem retained_true {e leader : Engine}
    (collections : e.storage.schemas.toList.all (fun p => leader.storage.schemas.contains p.1) = true)
    (records : allLive (fun c i _ => (leader.storage.get c i).isSome) e.storage = true) : e.Retained leader := by
  refine ⟨?_,?_⟩
  · intro c there
    obtain ⟨schema,held⟩ := Option.isSome_iff_exists.mp there
    have inside := List.all_eq_true.mp collections (c,schema) (ExtTreeMap.mem_toList_iff_getElem?_eq_some.mpr held)
    rwa [ExtTreeMap.contains_eq_isSome_getElem?] at inside
  · intro c i there
    obtain ⟨r,isLive⟩ := Option.isSome_iff_exists.mp there
    exact allLive_true records c i r isLive

theorem snapshot_reaches_leader_note :
    (∃ term, (installNotes [declareNotes,putNote "a"] [putNote "b"]).2 = .ok (true,term)) ∧
      (installNotes [declareNotes,putNote "a"] [putNote "b"]).1.engine.SameState
        (ranLog [declareNotes,putNote "a",putNote "b"]) := by
  have reported : (installNotes [declareNotes,putNote "a"] [putNote "b"]).2 = .ok (true,0) := by decide +kernel
  refine ⟨⟨0,reported⟩,?_⟩
  exact (@snapshot_reaches_leader plainHost Engine.noRanking _ emptyEngine emptyEngine _ emptyEngine_keyed
    emptyEngine_keyed [declareNotes,putNote "a"] [putNote "b"] (followerOf [declareNotes,putNote "a"]) _ 0
    (by decide +kernel) (by decide +kernel) (fun _ => 0) _
    (by decide +kernel) "c" 0 0 ⟨rfl,rfl⟩ cleanSteps ⟨.ok (),.ok (),.ok ()⟩ 0 0
    (Prod.ext rfl reported) (derives_true (by decide +kernel)) (by decide +kernel)).mpr
    (retained_true (by decide +kernel) (by decide +kernel))

/-- A note that was deleted after the follower fell behind is live on the follower after
the install. -/
theorem snapshot_keeps_deleted : ∃ (prior later : List DatabaseCommand) (codec : SnapshotCodec) (data : SnapshotData)
    (s s' : SharedNode) (leader : Engine) (term : Nat),
    @applyLog plainHost s.commitTsBase 1 prior emptyEngine = some s.engine ∧
      @applyLog plainHost 0 1 (prior ++ later) emptyEngine = some leader ∧
      @Engine.capture plainHost Engine.noRanking leader (fun _ => 0) = .ok data ∧
      @SharedNode.installSnapshotFromLeader plainHost codec cleanSteps ⟨.ok (),.ok (),.ok ()⟩ 0 s
        (.ship codec data "c" 0 (prior ++ later).length 0) = (s',.ok (true,term)) ∧
      ¬ s'.engine.SameState leader := by
  have reported : (installNotes [declareNotes,putNote "a"] [deleteNote "a"]).2 = .ok (true,0) := by decide +kernel
  refine ⟨[declareNotes,putNote "a"],[deleteNote "a"],_,capturedNotes [declareNotes,putNote "a",deleteNote "a"],
    followerOf [declareNotes,putNote "a"],(installNotes [declareNotes,putNote "a"] [deleteNote "a"]).1,
    ranLog [declareNotes,putNote "a",deleteNote "a"],0,by decide +kernel,by decide +kernel,by decide +kernel,
    Prod.ext rfl reported,?_⟩
  intro same
  have live := congrArg Option.isSome (same.live "notes" (System.noteId "a"))
  revert live
  decide +kernel

section Failures

/-- The log takes the boundary: it is there, or every file step that is reached succeeds. -/
def Installs (s : FileStorage) (files : FileStorage.SnapshotFiles) (lastIncludedIndex : Nat) : Prop :=
  lastIncludedIndex ≤ s.baseIndex ∨ files.boundary = .ok () ∧ files.log = .ok () ∧
    (lastIncludedIndex ≤ s.hardState.commitIndex ∨ files.state = .ok ())

theorem tryInstallSnapshot_cases (s : FileStorage) (files : FileStorage.SnapshotFiles) (index term : Nat) :
    let next := s.tryInstallSnapshot files index term
    (∃ moved, next.2 = .ok moved) ∧ Installs s files index ∨
    (∃ err, next.2 = .error err) ∧ ¬ Installs s files index ∧ (next.1 = s ↔ files.boundary ≠ .ok ()) := by
  obtain ⟨boundary,log,state⟩ := files
  by_cases old : index ≤ s.baseIndex
  · simp [FileStorage.tryInstallSnapshot,Installs,old]
  have moved {hardState : HardState} {entries : List LogEntry} :
      (⟨entries,hardState,index,term⟩ : FileStorage) ≠ s := by
    rintro rfl
    exact old (Nat.le_refl index)
  have later : s.hardState.commitIndex < index ↔ ¬ index ≤ s.hardState.commitIndex := Nat.not_le.symm
  by_cases committed : index ≤ s.hardState.commitIndex <;> rcases boundary with _ | _ <;> rcases log with _ | _ <;>
    rcases state with _ | _ <;> simp [FileStorage.tryInstallSnapshot,Installs,old,later,committed,moved]

variable [Host]

/-- A snapshot that passes the checks is installed, or stopped before anything changed. One that the engine has
already only writes the log. -/
def InstallsWhole (codec : SnapshotCodec) (steps : InstallSteps) (files : FileStorage.SnapshotFiles) (s : SharedNode)
    (request : SnapshotRequest) : Prop :=
  ∀ data, s.validate codec request = .ok data →
    if s.commitTsBase + request.lastIncludedIndex ≤ s.engine.storage.commitWatermark then
      Installs s.raft.storage files request.lastIncludedIndex ∨ files.boundary ≠ .ok ()
    else s.engine.StopsEarly steps data ∨
      s.engine.Installable steps data ∧ Installs s.raft.storage files request.lastIncludedIndex

/-- An install that reports a failure has left the storage and indexes of the engine and the whole Raft node as they
were, exactly where the snapshot is refused by a check, stops early or can be installed. -/
theorem failed_install_unchanged (codec : SnapshotCodec) (steps : InstallSteps) (files : FileStorage.SnapshotFiles)
    (now : Nat) (s : SharedNode) (request : SnapshotRequest) :
    let next := s.installSnapshotFromLeader codec steps files now request
    ((∃ term, next.2 = .ok (false,term)) → next.1.engine.storage = s.engine.storage ∧
      next.1.engine.indexes = s.engine.indexes ∧ next.1.raft = s.raft) ↔ InstallsWhole codec steps files s request := by
  intro next
  have unfolded : next = s.installSnapshotFromLeader codec steps files now request := rfl
  unfold SharedNode.installSnapshotFromLeader at unfolded
  cases admitted : s.validate codec request with
  | error reason =>
    simp only [admitted] at unfolded
    refine iff_of_true (fun _ => by rw [unfolded]; exact ⟨rfl,rfl,rfl⟩) ?_
    intro data passed
    cases admitted.symm.trans passed
  | ok data =>
    have stated : InstallsWhole codec steps files s request ↔ _ :=
      ⟨fun whole => whole data admitted,fun whole data' passed => by
        cases admitted.symm.trans passed
        exact whole⟩
    rw [stated]
    simp only [admitted] at unfolded
    have log := tryInstallSnapshot_cases s.raft.storage files request.lastIncludedIndex request.lastIncludedTerm
    rcases written : s.raft.storage.tryInstallSnapshot files request.lastIncludedIndex request.lastIncludedTerm
      with ⟨storage,result⟩
    simp only [written] at unfolded log
    have node : { s.raft with storage } = s.raft ↔ storage = s.raft.storage := by
      exact ⟨congrArg RaftNode.storage,fun same => by rw [same]⟩
    by_cases old : s.commitTsBase + request.lastIncludedIndex ≤ s.engine.storage.commitWatermark
    · simp only [Engine.installSnapshot,old,if_true] at unfolded ⊢
      rcases log with ⟨⟨moved,rfl⟩,installs⟩ | ⟨⟨err,rfl⟩,refused,kept⟩
      · exact iff_of_true (by rintro ⟨term,failed⟩; cases failed.symm.trans (congrArg Prod.snd unfolded)) (.inl installs)
      · rw [unfolded]
        simp [SharedNode.countRejected,node,kept,refused]
    · rw [if_neg old]
      have above := @Engine.installSnapshot_above s.engine data steps _ _ (Nat.not_le.mp old)
      rcases installed : s.engine.installSnapshot steps data (s.commitTsBase + request.lastIncludedIndex)
        with ⟨engine,outcome⟩
      simp only [installed] at above unfolded
      rcases above with ⟨⟨err,rfl⟩,refused,kept⟩ | ⟨changed,late,⟨rfl,installable⟩ | ⟨⟨err,rfl⟩,refused⟩⟩
      · rw [unfolded]
        simp [SharedNode.countRejected,kept,refused]
      · rcases log with ⟨⟨moved,rfl⟩,installs⟩ | ⟨⟨err,rfl⟩,refused,-⟩
        · exact iff_of_true (by rintro ⟨term,failed⟩; cases failed.symm.trans (congrArg Prod.snd unfolded))
            (.inr ⟨installable,installs⟩)
        · rw [unfolded]
          simp [SharedNode.countRejected,changed,late,refused]
      · rw [unfolded]
        simp [SharedNode.countRejected,changed,late,refused]

end Failures

def receive (commands : List DatabaseCommand) (data : SnapshotData) (index : Nat) (steps : InstallSteps) :
    SharedNode × Outcome (Bool × Nat) :=
  @SharedNode.installSnapshotFromLeader plainHost (codecOf data index) steps ⟨.ok (),.ok (),.ok ()⟩ 0
    (followerOf commands) (.ship (codecOf data index) data "c" 0 index 0)

def unlogged : InstallSteps := { cleanSteps with appended := .error (.io "no space left") }

def receiveUnlogged : SharedNode × Outcome (Bool × Nat) :=
  receive [declareNotes,putNote "a"] (capturedNotes [declareNotes,putNote "a",putNote "b"]) 3 unlogged

theorem failed_install_unchanged_unlogged : (∃ term, receiveUnlogged.2 = .ok (false,term)) ∧
    (capturedNotes [declareNotes,putNote "a",putNote "b"]).records.length = 2 ∧
    receiveUnlogged.1.engine.storage = (ranLog [declareNotes,putNote "a"]).storage ∧
    receiveUnlogged.1.engine.indexes = (ranLog [declareNotes,putNote "a"]).indexes ∧
    receiveUnlogged.1.raft = (followerOf [declareNotes,putNote "a"]).raft := by
  have reported : receiveUnlogged.2 = .ok (false,0) := by decide +kernel
  have listed : (capturedNotes [declareNotes,putNote "a",putNote "b"]).schemas = [System.notes] := by decide +kernel
  have created : (@Engine.createSchema plainHost (.ok ()) System.notes (ranLog [declareNotes,putNote "a"])).2 = .ok () := by
    decide +kernel
  refine ⟨⟨0,reported⟩,by decide +kernel,(@failed_install_unchanged plainHost _ unlogged ⟨.ok (),.ok (),.ok ()⟩ 0
    (followerOf [declareNotes,putNote "a"]) _).mpr ?_ ⟨0,reported⟩⟩
  intro data admitted
  cases admitted
  refine .inl (.inr ⟨?_,by decide +kernel,.inr (by decide +kernel)⟩)
  intro m schema found
  obtain ⟨-,rfl⟩ : m = 0 ∧ System.notes = schema := by
    cases m <;> simp_all
  exact (@Engine.createSchema_ok_iff plainHost _ _ _).mp created

def looseNotes : CollectionSchema :=
  ⟨"notes",[⟨"id",.string,true,false,false,false⟩,⟨"email",.string,false,false,false,false⟩],[],[]⟩

def putAddressed (pk : String) : DatabaseCommand :=
  .write ⟨0,[.put 0 ⟨System.noteId pk,"notes",[("id",.text pk),("email",.text "x")],1,0⟩]⟩

def twoAddressed : List DatabaseCommand := [.schema (.create looseNotes),putAddressed "a",putAddressed "b"]

def uniqueNotes : SnapshotData := ⟨[System.notes],[("notes",[("id",.text "a"),("email",.text "x")])]⟩

def receiveUnique : SharedNode × Outcome (Bool × Nat) :=
  receive twoAddressed uniqueNotes 5 cleanSteps

/-- The leader has deleted one of two notes with one address and then made the address unique. The follower has
both, and the failed install leaves the new schema over the old index. -/
theorem failed_install_leaves_schema : (∃ term, receiveUnique.2 = .ok (false,term)) ∧
      (followerOf twoAddressed).engine.storage.schemas["notes"]? = some looseNotes ∧
      receiveUnique.1.engine.storage.schemas["notes"]? = some System.notes := by
  exact ⟨⟨0,by decide +kernel⟩,by decide +kernel,by decide +kernel⟩

end AuraDb.Replication
