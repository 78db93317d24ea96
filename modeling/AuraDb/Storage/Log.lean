import AuraDb.Library.Framing
import AuraDb.Storage.Memory

/-! The durable half of `auradb-storage`: segment files, the manifest, recovery on open, appends and the rewrite
of the log. A file step can fail where the source propagates an error. The manifest and the catalog are replaced
by a rename, so they are values here. -/
namespace AuraDb
open Library Library.Framing Library.VersionChain Std

def formatVersion : Nat := 2

def minReadableFormatVersion : Nat := 1

structure Manifest where
  formatVersion : Nat
  segments : List Nat
  nextSegmentId : Nat
  lastTxnId : Nat
  lastCommitTs : Nat
  deriving DecidableEq, Repr

namespace Manifest

def default : Manifest := ⟨AuraDb.formatVersion,[1],2,0,0⟩

def active (m : Manifest) : Nat := m.segments.getLastD 0

def load (m : Manifest) : Result Manifest :=
  if AuraDb.formatVersion < m.formatVersion ∨ m.formatVersion < minReadableFormatVersion then
    .error (.unsupported ("storage format version " ++ toString m.formatVersion ++
      " (this build supports " ++ toString minReadableFormatVersion ++ "..=" ++
      toString AuraDb.formatVersion ++ ")"))
  else if m.segments.isEmpty then .error (.corruption "manifest lists no segments")
  else .ok m

end Manifest

structure Disk where
  manifest : Option Manifest
  catalog : ExtTreeMap String CollectionSchema compare
  files : ExtTreeMap Nat Bytes compare

namespace Disk

def read (d : Disk) (segment : Nat) : Bytes := d.files[segment]?.getD []

/-- What is written to a file that was removed while the handle was open is lost. -/
def append (d : Disk) (segment : Nat) (bytes : Bytes) : Disk :=
  { d with files := d.files.alter segment (fun file => file.map (· ++ bytes)) }

def create (d : Disk) (segment : Nat) : Disk :=
  { d with files := d.files.alter segment (fun file => some (file.getD [])) }

def write (d : Disk) (segment : Nat) (bytes : Bytes) : Disk :=
  { d with files := d.files.insert segment bytes }

def setLen (d : Disk) (segment len : Nat) : Disk :=
  { d with files := d.files.alter segment (fun file => file.map (·.take len)) }

def remove (d : Disk) (segment : Nat) : Disk := { d with files := d.files.erase segment }

def loadManifest (d : Disk) : Disk × Result Manifest :=
  match d.manifest with
  | none => ({ d with manifest := some .default },.ok .default)
  | some m => (d,m.load)

end Disk

structure Store where
  syncOnCommit : Bool
  manifest : Manifest
  active : Nat
  mem : Storage

inductive AppendFault where
  | write (written : Nat) (reason : String)
  | sync (reason : String)
  deriving DecidableEq, Repr

/-- At opening, writing or syncing the new segment, saving the manifest, or opening the new segment for appends.
-/
inductive RewriteFault where
  | openNew (reason : String)
  | writeNew (written : Nat) (reason : String)
  | syncNew (reason : String)
  | saveManifest (reason : String)
  | reopen (reason : String)
  deriving DecidableEq, Repr

def faultError : Fault → Error
  | .lengthOverflow => .corruption "batch length overflow"
  | .checksum offset => .corruption ("batch checksum mismatch at offset " ++ toString offset)
  | .malformed offset reason => .corruption ("malformed batch at offset " ++ toString offset ++ ": " ++ reason)

def parseSegment (codec : Codec Batch) (buf : Bytes) : Result (Parsed Batch) :=
  match codec.parse buf with
  | .ok parsed => .ok parsed
  | .error fault => .error (faultError fault)

structure Recovery where
  records : RecordMap
  maxTxnId : Nat
  lastCommitTs : Nat
  migrateTs : Nat

def restamp : Nat → List LogOp → List LogOp
  | _, [] => []
  | ts, op::rest => op.setCommitTs (ts+1)::restamp (ts+1) rest

def recoverBatch (migrating : Bool) (r : Recovery) (batch : Batch) : Recovery :=
  let ops := if migrating then restamp r.migrateTs batch.ops else batch.ops
  { records := r.records.applyBatch ⟨batch.txnId,ops⟩
    maxTxnId := max r.maxTxnId batch.txnId
    lastCommitTs := ops.foldl (fun ts op => max ts op.commitTs) r.lastCommitTs
    migrateTs := if migrating then r.migrateTs + batch.ops.length else r.migrateTs }

/-- Replay the segments in order. Only the last one may end in a torn batch, which
is cut off. -/
def recoverSegments (codec : Codec Batch) (migrating : Bool) : List Nat → Disk → Recovery → Disk × Result Recovery
  | [], d, r => (d,.ok r)
  | segment::rest, d, r =>
    match parseSegment codec (d.read segment) with
    | .error e => (d,.error e)
    | .ok parsed =>
      if parsed.truncated && !rest.isEmpty then
        (d,.error (.corruption ("sealed segment " ++ toString segment ++ " has a torn batch")))
      else
        let d := if parsed.truncated then d.setLen segment parsed.validLen else d
        recoverSegments codec migrating rest d (parsed.items.foldl (recoverBatch migrating) r)

def ensureCollections (names : List String) (records : RecordMap) : RecordMap :=
  names.foldl (fun records name => records.alter name (fun chains => some (chains.getD ∅))) records

def retainedOp (c : String) (i : RecordId) (v : Version Record) : LogOp :=
  match v.value with
  | some record => .put v.commitTs record
  | none => .delete v.commitTs c i

def retainedOps (records : RecordMap) : List LogOp :=
  records.toList.flatMap (fun p => p.2.toList.flatMap (fun q => q.2.map (retainedOp p.1 q.1)))

namespace Store

def retained (st : Store) : Batch := ⟨st.mem.maxTxnId,retainedOps st.mem.records⟩

def retainedBytes (codec : Codec Batch) (st : Store) : Bytes :=
  if st.retained.ops.isEmpty then [] else codec.frame st.retained

def appendBatch (codec : Codec Batch) (fault : Option AppendFault) (batch : Batch) (d : Disk)
    (st : Store) : Disk × Result Unit :=
  let bytes := codec.frame batch
  match fault with
  | none => (d.append st.active bytes,.ok ())
  | some (.write written reason) => (d.append st.active (bytes.take written),.error (.io reason))
  | some (.sync reason) =>
    (d.append st.active bytes,if st.syncOnCommit then .error (.io reason) else .ok ())

def stamp (ts : Nat) (batch : Batch) : Batch := ⟨batch.txnId,batch.ops.map (LogOp.setCommitTs ts)⟩

def commitBatch (codec : Codec Batch) (fault : Option AppendFault) (batch : Batch) (d : Disk)
    (st : Store) : Disk × Store × Result Nat :=
  let file := if batch.ops.isEmpty then (d,.ok ())
    else st.appendBatch codec fault (stamp (st.mem.lastCommitTs + 1) batch) d
  let next := st.mem.commitBatch file.2 batch
  (file.1,{ st with mem := next.1 },next.2)

def applyCommittedBatch (codec : Codec Batch) (fault : Option AppendFault) (batch : Batch) (ts : Nat)
    (d : Disk) (st : Store) : Disk × Store × Result Unit :=
  let file := if ts ≤ st.mem.lastCommitTs ∨ batch.ops.isEmpty then (d,.ok ())
    else st.appendBatch codec fault (stamp ts batch) d
  let next := st.mem.applyCommittedBatch file.2 batch ts
  (file.1,{ st with mem := next.1 },next.2)

def put (codec : Codec Batch) (fault : Option AppendFault) (record : Record) (d : Disk) (st : Store) :
    Disk × Store × Result Nat := st.commitBatch codec fault ⟨0,[.put 0 record]⟩ d

def delete (codec : Codec Batch) (fault : Option AppendFault) (c : String) (i : RecordId) (d : Disk)
    (st : Store) : Disk × Store × Result Nat := st.commitBatch codec fault ⟨0,[.delete 0 c i]⟩ d

def flush (d : Disk) (st : Store) : Disk := { d with manifest := some st.manifest }

def rewrittenManifest (st : Store) : Manifest :=
  { formatVersion := AuraDb.formatVersion
    segments := [st.manifest.nextSegmentId]
    nextSegmentId := st.manifest.nextSegmentId + 1
    lastTxnId := st.mem.maxTxnId
    lastCommitTs := st.mem.lastCommitTs }

/-- Write all chains to a fresh segment, point the manifest at it and remove the old segments. The manifest in
memory changes before the file does; `stuck` says which removals fail. -/
def rewriteSegment (codec : Codec Batch) (fault : Option RewriteFault) (stuck : Nat → Bool) (d : Disk)
    (st : Store) : Disk × Store × Result Unit :=
  let newId := st.manifest.nextSegmentId
  let bytes := st.retainedBytes codec
  match fault with
  | some (.openNew reason) => (d,st,.error (.io reason))
  | some (.writeNew written reason) => (d.write newId (bytes.take written),st,.error (.io reason))
  | some (.syncNew reason) => (d.write newId bytes,st,.error (.io reason))
  | some (.saveManifest reason) =>
    (d.write newId bytes,{ st with manifest := st.rewrittenManifest },.error (.io reason))
  | some (.reopen reason) =>
    ((st.manifest.segments.filter (fun old => old != newId && !stuck old)).foldl Disk.remove
      { d.write newId bytes with manifest := some st.rewrittenManifest },
      { st with manifest := st.rewrittenManifest },.error (.io reason))
  | none =>
    ((st.manifest.segments.filter (fun old => old != newId && !stuck old)).foldl Disk.remove
      { d.write newId bytes with manifest := some st.rewrittenManifest },
      { st with manifest := st.rewrittenManifest, active := newId },.ok ())

def segmentBytes (d : Disk) (st : Store) : Nat :=
  (st.manifest.segments.map (fun segment => (d.read segment).length)).sum

def gc (codec : Codec Batch) (fault : Option RewriteFault) (stuck : Nat → Bool) (cutoff minRetained : Nat)
    (d : Disk) (st : Store) : Disk × Store × Result GcReport :=
  let pruned := { st with mem := st.mem.pruned cutoff (max minRetained 1) }
  let file := pruned.rewriteSegment codec fault stuck d
  let next := st.mem.gc (file.2.2.map (fun () => st.segmentBytes d - file.2.1.segmentBytes file.1))
    cutoff minRetained
  (file.1,{ file.2.1 with mem := next.1 },next.2)

structure CompactionReport where
  segmentsBefore : Nat
  segmentsAfter : Nat
  liveRecords : Nat
  deriving DecidableEq, Repr

def compact (codec : Codec Batch) (fault : Option RewriteFault) (stuck : Nat → Bool) (d : Disk)
    (st : Store) : Disk × Store × Result CompactionReport :=
  let file := st.rewriteSegment codec fault stuck d
  (file.1,file.2.1,file.2.2.map (fun () =>
    ⟨st.manifest.segments.length,1,(st.mem.records.keys.map st.mem.count).sum⟩))

end Store

def recoveredStorage (catalog : ExtTreeMap String CollectionSchema compare) (r : Recovery) : Storage :=
  ⟨catalog,ensureCollections catalog.keys r.records,r.maxTxnId,r.lastCommitTs⟩

def openManifest (codec : Codec Batch) (syncOnCommit : Bool) (manifest : Manifest) (d : Disk) : Disk × Result Store :=
  let migrating := decide (manifest.formatVersion < formatVersion)
  match recoverSegments codec migrating manifest.segments d ⟨∅,0,manifest.lastCommitTs,0⟩ with
  | (d,.error e) => (d,.error e)
  | (d,.ok r) =>
    let st : Store := ⟨syncOnCommit,manifest,manifest.active,recoveredStorage d.catalog r⟩
    let d := d.create manifest.active
    if migrating then
      match st.rewriteSegment codec none (fun _ => false) d with
      | (d,_,.error e) => (d,.error e)
      | (d,st,.ok ()) => (d,.ok st)
    else (d,.ok st)

def openWith (codec : Codec Batch) (syncOnCommit : Bool) (d : Disk) : Disk × Result Store :=
  match d.loadManifest with
  | (d,.error e) => (d,.error e)
  | (d,.ok manifest) => openManifest codec syncOnCommit manifest d

end AuraDb
