import AuraDb.Library.Consensus
import Mathlib.Data.List.Basic

/-! The Raft log: entries, commands, the hard state, and the operations every log storage implements, with the
in-memory backend and the file-backed one with its compacted part: the retained entries follow the last included
index, whose term is kept, and writes to the files succeed. A term and a log index are natural numbers, without
the bound of 64 bits. -/
namespace AuraDb.Raft

abbrev NodeId := Nat

inductive CommandKind where
  | noop
  | database
  | schema
  | metadata
  | config
  deriving DecidableEq, Repr

structure Command where
  version : Nat
  kind : CommandKind
  payload : List UInt8
  deriving DecidableEq, Repr

def commandVersion : Nat := 1

def Command.new (kind : CommandKind) (payload : List UInt8) : Command := ⟨commandVersion,kind,payload⟩

def Command.noop : Command := .new .noop []

structure LogEntry where
  term : Nat
  index : Nat
  command : Command
  deriving DecidableEq, Repr

instance : Library.Consensus.Stamped LogEntry where
  term := LogEntry.term

structure HardState where
  currentTerm : Nat := 0
  votedFor : Option NodeId := none
  commitIndex : Nat := 0
  deriving DecidableEq, Repr

inductive RaftError where
  | io (path : String) (reason : String)
  | corruption (reason : String)
  | invalidAppend (reason : String)
  | compacted (requested lastIncluded : Nat)
  | compactionRefused (reason : String)
  | notLeader (leader : Option NodeId)
  deriving DecidableEq, Repr

def RaftError.display : RaftError → String
  | .io path reason => "raft io error at " ++ path ++ ": " ++ reason
  | .corruption reason => "raft log corruption: " ++ reason
  | .invalidAppend reason => "invalid raft log append: " ++ reason
  | .compacted requested lastIncluded =>
    s!"raft log index {requested} is at or below the compacted prefix (last included index {lastIncluded})" ++
      "; those entries are no longer present"
  | .compactionRefused reason => "raft log compaction refused: " ++ reason
  | .notLeader leader => "not leader: this node cannot accept writes" ++
      leader.elim "" (fun id => s!" (current leader: {id})")

abbrev RaftResult := Except RaftError

/-- What the consensus core needs of a log. A failed operation leaves the storage
it returns behind. -/
class RaftStorage (S : Type) where
  append : S → List LogEntry → S × RaftResult Unit
  truncateFrom : S → Nat → S × RaftResult Unit
  termAt : S → Nat → Option Nat
  entryAt : S → Nat → Option LogEntry
  entriesFrom : S → Nat → List LogEntry
  lastIndex : S → Nat
  lastTerm : S → Nat
  saveHardState : S → HardState → S × RaftResult Unit
  hardState : S → HardState

def validateSuffix (lastIndex : Nat) (lastTerm : Nat) : List LogEntry → RaftResult Unit
  | [] => .ok ()
  | entry::rest =>
    if entry.index ≠ lastIndex + 1 then
      .error (.invalidAppend s!"expected index {lastIndex + 1}, got {entry.index} (log gap)")
    else if entry.term < lastTerm then
      .error (.invalidAppend s!"term regression at index {entry.index}: {entry.term} < {lastTerm}")
    else validateSuffix (lastIndex + 1) entry.term rest

structure MemStorage where
  entries : List LogEntry := []
  hardState : HardState := {}
  deriving DecidableEq, Repr

namespace MemStorage

def lastIndex (s : MemStorage) : Nat := s.entries.length

def lastTerm (s : MemStorage) : Nat := (s.entries.getLast?.map LogEntry.term).getD 0

def append (s : MemStorage) (entries : List LogEntry) : MemStorage × RaftResult Unit :=
  match validateSuffix s.lastIndex s.lastTerm entries with
  | .error e => (s,.error e)
  | .ok () => ({ s with entries := s.entries ++ entries },.ok ())

def truncateFrom (s : MemStorage) (index : Nat) : MemStorage × RaftResult Unit :=
  ({ s with entries := s.entries.take (index - 1) },.ok ())

def termAt (s : MemStorage) (index : Nat) : Option Nat :=
  if index = 0 then some 0 else s.entries[index - 1]?.map LogEntry.term

def entryAt (s : MemStorage) (index : Nat) : Option LogEntry :=
  if index = 0 then none else s.entries[index - 1]?

def entriesFrom (s : MemStorage) (index : Nat) : List LogEntry := s.entries.drop (index - 1)

instance : RaftStorage MemStorage where
  append := append
  truncateFrom := truncateFrom
  termAt := termAt
  entryAt := entryAt
  entriesFrom := entriesFrom
  lastIndex := lastIndex
  lastTerm := lastTerm
  saveHardState s hs := ({ s with hardState := hs },.ok ())
  hardState := MemStorage.hardState

end MemStorage

structure FileStorage where
  entries : List LogEntry := []
  hardState : HardState := {}
  baseIndex : Nat := 0
  baseTerm : Nat := 0
  deriving DecidableEq, Repr

structure CompactionOutcome where
  compacted : Bool
  entriesDiscarded : Nat
  lastIncludedIndex : Nat
  lastIncludedTerm : Nat
  lastIndex : Nat
  dryRun : Bool
  deriving DecidableEq, Repr

namespace FileStorage

def slot (s : FileStorage) (index : Nat) : Option Nat :=
  if index ≤ s.baseIndex then none
  else if index - s.baseIndex - 1 < s.entries.length then some (index - s.baseIndex - 1) else none

def lastIndex (s : FileStorage) : Nat := s.baseIndex + s.entries.length

def lastTerm (s : FileStorage) : Nat := (s.entries.getLast?.map LogEntry.term).getD s.baseTerm

def append (s : FileStorage) (entries : List LogEntry) : FileStorage × RaftResult Unit :=
  match validateSuffix s.lastIndex s.lastTerm entries with
  | .error e => (s,.error e)
  | .ok () => ({ s with entries := s.entries ++ entries },.ok ())

def truncateFrom (s : FileStorage) (index : Nat) : FileStorage × RaftResult Unit :=
  if index ≠ 0 ∧ index ≤ s.baseIndex then (s,.error (.compacted index s.baseIndex))
  else ({ s with entries := s.entries.take (index - s.baseIndex - 1) },.ok ())

def termAt (s : FileStorage) (index : Nat) : Option Nat :=
  if index = 0 then some 0
  else if index = s.baseIndex then some s.baseTerm
  else (s.slot index).bind (fun rel => s.entries[rel]?.map LogEntry.term)

def entryAt (s : FileStorage) (index : Nat) : Option LogEntry :=
  (s.slot index).bind (fun rel => s.entries[rel]?)

def entriesFrom (s : FileStorage) (index : Nat) : List LogEntry :=
  match s.slot (max index (s.baseIndex + 1)) with
  | some rel => s.entries.drop rel
  | none => []

instance : RaftStorage FileStorage where
  append := append
  truncateFrom := truncateFrom
  termAt := termAt
  entryAt := entryAt
  entriesFrom := entriesFrom
  lastIndex := lastIndex
  lastTerm := lastTerm
  saveHardState s hs := ({ s with hardState := hs },.ok ())
  hardState := FileStorage.hardState

def compactablePrefix (s : FileStorage) (applied : Nat) : Nat :=
  max (min (min applied s.hardState.commitIndex) s.lastIndex) s.baseIndex

def planCompaction (s : FileStorage) (upTo applied : Nat) (dryRun : Bool) : RaftResult CompactionOutcome :=
  let last := s.lastIndex
  if upTo > last then
    .error (.compactionRefused
      s!"last included index {upTo} is beyond the end of the log (last index {last})")
  else if upTo > s.hardState.commitIndex then
    .error (.compactionRefused
      s!"last included index {upTo} is beyond the committed index {s.hardState.commitIndex}")
  else if upTo > applied then
    .error (.compactionRefused
      s!"last included index {upTo} has not been applied yet (applied index {applied})")
  else if upTo ≤ s.baseIndex then
    .ok ⟨false,0,s.baseIndex,s.baseTerm,last,dryRun⟩
  else match s.termAt upTo with
    | none => .error (.compactionRefused s!"cannot resolve the term of last included index {upTo}")
    | some term => .ok ⟨true,upTo - s.baseIndex,upTo,term,last,dryRun⟩

def compact (s : FileStorage) (upTo applied : Nat) : FileStorage × RaftResult CompactionOutcome :=
  match s.planCompaction upTo applied false with
  | .error e => (s,.error e)
  | .ok plan =>
    if ¬ plan.compacted then (s,.ok plan)
    else ({ s with
      baseIndex := upTo
      baseTerm := plan.lastIncludedTerm
      entries := s.entries.filter (fun e => e.index > upTo) },.ok plan)

/-- The entries a snapshot leaves: those after it where the log has its last entry, none where it does not. -/
def afterSnapshot (s : FileStorage) (lastIncludedIndex lastIncludedTerm : Nat) : List LogEntry :=
  if s.termAt lastIncludedIndex = some lastIncludedTerm then
    s.entries.filter (fun e => e.index > lastIncludedIndex)
  else []

def installSnapshot (s : FileStorage) (lastIncludedIndex lastIncludedTerm : Nat) : FileStorage × Bool :=
  if lastIncludedIndex ≤ s.baseIndex then (s,false) else
  ({ entries := s.afterSnapshot lastIncludedIndex lastIncludedTerm
     hardState := { s.hardState with commitIndex := max s.hardState.commitIndex lastIncludedIndex }
     baseIndex := lastIncludedIndex
     baseTerm := lastIncludedTerm },true)

structure SnapshotFiles where
  boundary : RaftResult Unit
  log : RaftResult Unit
  state : RaftResult Unit

/-- `install_snapshot` where a file step may fail; memory is ahead of the log file from the boundary on. -/
def tryInstallSnapshot (files : SnapshotFiles) (s : FileStorage) (lastIncludedIndex lastIncludedTerm : Nat) :
    FileStorage × RaftResult Bool :=
  if lastIncludedIndex ≤ s.baseIndex then (s,.ok false) else
  match files.boundary with
  | .error e => (s,.error e)
  | .ok () =>
    let s := { s with
      entries := s.afterSnapshot lastIncludedIndex lastIncludedTerm
      baseIndex := lastIncludedIndex
      baseTerm := lastIncludedTerm }
    match files.log with
    | .error e => (s,.error e)
    | .ok () =>
      if s.hardState.commitIndex < lastIncludedIndex then
        match files.state with
        | .error e => (s,.error e)
        | .ok () => ({ s with hardState := { s.hardState with commitIndex := lastIncludedIndex } },.ok true)
      else (s,.ok true)

theorem tryInstallSnapshot_ok (s : FileStorage) (lastIncludedIndex lastIncludedTerm : Nat) :
    s.tryInstallSnapshot ⟨.ok (),.ok (),.ok ()⟩ lastIncludedIndex lastIncludedTerm =
      ((s.installSnapshot lastIncludedIndex lastIncludedTerm).1,
        .ok (s.installSnapshot lastIncludedIndex lastIncludedTerm).2) := by
  unfold tryInstallSnapshot installSnapshot
  split
  · rfl
  dsimp only
  split
  · rename_i behind
    rw [Nat.max_eq_right behind.le]
  · rename_i ahead
    rw [Nat.max_eq_left (Nat.not_lt.mp ahead)]

end FileStorage

end AuraDb.Raft
