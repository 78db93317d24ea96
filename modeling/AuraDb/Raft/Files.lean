import AuraDb.Library.Files
import AuraDb.Library.Run
import AuraDb.Raft.Lawful

/-! The files of the file-backed log: frames of entries, the boundary of what was compacted, and the hard state.
Each operation is a list of file steps. -/
namespace AuraDb.Raft
open Library Library.Files Library.Framing

inductive RaftFile where
  | log | logTmp | state | stateTmp | compaction | compactionTmp
  deriving DecidableEq, Repr

structure CompactionMeta where
  formatVersion : Nat
  lastIncludedIndex : Nat
  lastIncludedTerm : Nat
  deriving DecidableEq, Repr

structure RaftCodec where
  entry : Codec LogEntry
  writeMeta : CompactionMeta → Bytes
  readMeta : Bytes → Except String CompactionMeta
  writeState : HardState → Bytes
  readState : Bytes → Except String HardState

structure RaftCodec.Lawful (codec : RaftCodec) : Prop where
  boundary : ∀ m, codec.readMeta (codec.writeMeta m) = .ok m
  state : ∀ hs, codec.readState (codec.writeState hs) = .ok hs

def compactionFormatVersion : Nat := 1

namespace FileStorage
variable (codec : RaftCodec)

def loadCompaction (disk : Disk RaftFile) : RaftResult (Nat × Nat) :=
  match disk .compaction with
  | none => .ok (0,0)
  | some text => match codec.readMeta text with
    | .error reason => .error (.corruption ("malformed raft compaction metadata: " ++ reason))
    | .ok m =>
      if m.formatVersion > compactionFormatVersion then .error (.corruption
        (s!"raft compaction metadata declares format version {m.formatVersion} but this build " ++
          s!"supports up to {compactionFormatVersion}"))
      else .ok (m.lastIncludedIndex,m.lastIncludedTerm)

def loadState (disk : Disk RaftFile) : RaftResult HardState :=
  match disk .state with
  | none => .ok {}
  | some text => match codec.readState text with
    | .error reason => .error (.corruption ("malformed raft hard state: " ++ reason))
    | .ok hs => .ok hs

def faultText : Fault → String
  | .lengthOverflow => "frame length overflow"
  | .checksum offset => s!"raft log frame checksum mismatch at offset {offset}"
  | .malformed offset reason => s!"malformed raft entry at offset {offset}: {reason}"

def replayCheck (baseIndex : Nat) (first : Bool) (lastIndex lastTerm : Nat) (entry : LogEntry) : RaftResult Unit :=
  if first ∧ baseIndex ≠ 0 ∧ entry.index ≠ baseIndex + 1 then .error (.corruption
    (s!"raft compaction metadata (last included index {baseIndex}) disagrees with " ++
      s!"the retained log (first entry index {entry.index})"))
  else match validateSuffix lastIndex lastTerm [entry] with
    | .error e => .error (.corruption e.display)
    | .ok () => .ok ()

/-- The loop of `replay_log`: the entries and how many bytes they take. -/
def replayLoop (baseIndex : Nat) : Nat → Bool → Nat → Nat → Nat → Bytes → RaftResult (List LogEntry × Nat)
  | 0, _, offset, _, _, _ => .ok ([],offset)
  | rounds+1, first, offset, lastIndex, lastTerm, rest =>
    if rest.isEmpty then .ok ([],offset) else
    match codec.entry.frameAt offset rest with
    | .error fault => .error (.corruption (faultText fault))
    | .ok none => .ok ([],offset)
    | .ok (some (entry,size)) => match replayCheck baseIndex first lastIndex lastTerm entry with
      | .error e => .error e
      | .ok () => (replayLoop baseIndex rounds false (offset + size) entry.index entry.term
          (rest.drop size)).map (fun p => (entry::p.1,p.2))

def replayLog (disk : Disk RaftFile) (baseIndex baseTerm : Nat) : RaftResult (List LogEntry × Nat) :=
  match disk .log with
  | none => .ok ([],0)
  | some buf => replayLoop codec baseIndex buf.length true 0 baseIndex baseTerm buf

def openDirectory (disk : Disk RaftFile) : RaftResult (FileStorage × Disk RaftFile) :=
  match loadCompaction codec disk with
  | .error e => .error e
  | .ok (baseIndex,baseTerm) => match replayLog codec disk baseIndex baseTerm with
    | .error e => .error e
    | .ok (entries,validLen) =>
      let disk := Function.update disk .log (some (((disk .log).getD []).take validLen))
      match loadState codec disk with
      | .error e => .error e
      | .ok hs => .ok (⟨entries,hs,baseIndex,baseTerm⟩,disk)

def writeCompaction (lastIncludedIndex lastIncludedTerm : Nat) : List (Step RaftFile) :=
  replace .compactionTmp .compaction
    (codec.writeMeta ⟨compactionFormatVersion,lastIncludedIndex,lastIncludedTerm⟩)

def rewriteLog (entries : List LogEntry) : List (Step RaftFile) :=
  replace .logTmp .log (codec.entry.frames entries)

def writeState (hs : HardState) : List (Step RaftFile) := replace .stateTmp .state (codec.writeState hs)

end FileStorage

inductive FileOp where
  | append (entries : List LogEntry)
  | truncateFrom (index : Nat)
  | compact (upTo applied : Nat)
  | installSnapshot (lastIncludedIndex lastIncludedTerm : Nat)
  | saveHardState (hs : HardState)

namespace FileOp

def run (s : FileStorage) : FileOp → FileStorage
  | .append entries => (s.append entries).1
  | .truncateFrom index => (s.truncateFrom index).1
  | .compact upTo applied => (s.compact upTo applied).1
  | .installSnapshot lastIncludedIndex lastIncludedTerm =>
    (s.installSnapshot lastIncludedIndex lastIncludedTerm).1
  | .saveHardState hs => { s with hardState := hs }

def steps (codec : RaftCodec) (s : FileStorage) : FileOp → List (Step RaftFile)
  | .append entries => match validateSuffix s.lastIndex s.lastTerm entries with
    | .error _ => []
    | .ok () => if entries.isEmpty then [] else [.write .log (codec.entry.frames entries)]
  | .truncateFrom index =>
    if index ≠ 0 ∧ index ≤ s.baseIndex then [] else
    if index - s.baseIndex - 1 < s.entries.length then
      FileStorage.rewriteLog codec (s.entries.take (index - s.baseIndex - 1))
    else []
  | .compact upTo applied => match s.planCompaction upTo applied false with
    | .error _ => []
    | .ok plan =>
      if ¬ plan.compacted then [] else
      FileStorage.writeCompaction codec upTo plan.lastIncludedTerm ++
        FileStorage.rewriteLog codec (s.entries.filter (fun e => e.index > upTo))
  | .installSnapshot lastIncludedIndex lastIncludedTerm =>
    if lastIncludedIndex ≤ s.baseIndex then [] else
    FileStorage.writeCompaction codec lastIncludedIndex lastIncludedTerm ++
      (FileStorage.rewriteLog codec (s.afterSnapshot lastIncludedIndex lastIncludedTerm) ++
        if s.hardState.commitIndex < lastIncludedIndex then
          FileStorage.writeState codec { s.hardState with commitIndex := lastIncludedIndex }
        else [])
  | .saveHardState hs => FileStorage.writeState codec hs

def Stored (codec : RaftCodec) : FileOp → Prop
  | .append entries => ∀ e ∈ entries, codec.entry.Stores e
  | _ => True

end FileOp

structure LogDirectory where
  mem : FileStorage
  disk : Disk RaftFile

namespace LogDirectory

def fresh : LogDirectory := ⟨{},fun file => if file = .log then some [] else none⟩

inductive DirAct where
  | op (op : FileOp)
  | crash (op : FileOp) (left : Disk RaftFile)

def step (codec : RaftCodec) (d : LogDirectory) : DirAct → Option (LogDirectory × List Empty)
  | .op op => some (⟨op.run d.mem,run (op.steps codec d.mem) d.disk⟩,[])
  | .crash _ left => match FileStorage.openDirectory codec left with
    | .error _ => none
    | .ok (mem,disk) => some (⟨mem,disk⟩,[])

def Possible (codec : RaftCodec) (d : LogDirectory) : DirAct → Prop
  | .op op => op.Stored codec
  | .crash op left => op.Stored codec ∧ Crash (op.steps codec d.mem) d.disk left

end LogDirectory

/-! The file steps of a log operation in order: the boundary, the log, the hard state. What
the files are after each of them, for every operation but the append, which has one write. -/
open FileOp

def endTerm (lastTerm : Nat) (entries : List LogEntry) : Nat := (entries.getLast?.map LogEntry.term).getD lastTerm

theorem endTerm_cons (lastTerm : Nat) (e : LogEntry) (rest : List LogEntry) :
    endTerm lastTerm (e::rest) = endTerm e.term rest := by
  cases rest with
  | nil => rfl
  | cons e' rest =>
    rfl

variable {lastIndex lastTerm : Nat} {e : LogEntry} {entries : List LogEntry} {s : FileStorage} {codec : RaftCodec}
  {op : FileOp}

theorem validateSuffix_cons {rest : List LogEntry} : validateSuffix lastIndex lastTerm (e::rest) = .ok () ↔
      e.index = lastIndex + 1 ∧ lastTerm ≤ e.term ∧ validateSuffix (lastIndex + 1) e.term rest = .ok () := by
  rw [validateSuffix]
  split
  · rename_i gap
    simp [gap]
  · rename_i next
    split
    · rename_i older
      simp [Nat.not_le.mpr older]
    · rename_i later
      simp [not_not.mp next,Nat.not_lt.mp later]

theorem validateSuffix_append {first second : List LogEntry} :
    validateSuffix lastIndex lastTerm (first ++ second) = .ok () ↔ validateSuffix lastIndex lastTerm first = .ok () ∧
        validateSuffix (lastIndex + first.length) (endTerm lastTerm first) second = .ok () := by
  induction first generalizing lastIndex lastTerm with
  | nil => simp [validateSuffix,endTerm]
  | cons e rest ih =>
    rw [List.cons_append,validateSuffix_cons,validateSuffix_cons,ih,endTerm_cons,List.length_cons,
      Nat.add_right_comm lastIndex 1,← Nat.add_assoc]
    simp only [and_assoc]

section
variable (valid : validateSuffix lastIndex lastTerm entries = .ok ())
include valid

theorem index_of_valid {i : Nat} (found : entries[i]? = some e) : e.index = lastIndex + i + 1 := by
  induction entries generalizing lastIndex lastTerm i with
  | nil => simp at found
  | cons first rest ih =>
    obtain ⟨next,-,others⟩ := validateSuffix_cons.mp valid
    cases i with
    | zero =>
      cases found
      exact next
    | succ i =>
      rw [ih others found]
      omega

theorem filter_of_valid (upTo : Nat) :
    entries.filter (fun e => decide (e.index > upTo)) = entries.drop (upTo - lastIndex) := by
  induction entries generalizing lastIndex lastTerm with
  | nil => simp
  | cons first rest ih =>
    obtain ⟨next,-,others⟩ := validateSuffix_cons.mp valid
    rw [List.filter_cons,ih others]
    rcases Nat.lt_or_ge lastIndex upTo with inside | past
    · have some : upTo - lastIndex = upTo - (lastIndex + 1) + 1 := by omega
      rw [some,List.drop_succ_cons,if_neg (by simp; omega)]
    · rw [Nat.sub_eq_zero_of_le past,Nat.sub_eq_zero_of_le (by omega),List.drop_zero,List.drop_zero,
        if_pos (by simp; omega)]

end

theorem endTerm_take {k : Nat} (found : entries[k]? = some e) : endTerm lastTerm (entries.take (k + 1)) = e.term := by
  rw [endTerm,List.take_add_one,found]
  simp

namespace FileStorage
variable {disk disk' : Disk RaftFile}

theorem valid_after (valid : validateSuffix s.baseIndex s.baseTerm s.entries = .ok ()) {b t : Nat}
    (later : s.baseIndex < b) (found : s.termAt b = some t) :
    validateSuffix b t (s.entries.filter (fun e => decide (e.index > b))) = .ok () := by
  rw [termAt,if_neg (by omega),if_neg (by omega),slot,if_neg (by omega)] at found
  split at found
  · rw [Option.bind_some,Option.map_eq_some_iff] at found
    obtain ⟨e,at',rfl⟩ := found
    rw [filter_of_valid valid]
    have count : b - s.baseIndex - 1 + 1 = b - s.baseIndex := by omega
    rw [← List.take_append_drop (b - s.baseIndex) s.entries,validateSuffix_append,← count,endTerm_take at',count,
      List.length_take_of_le (by omega)] at valid
    have reached : s.baseIndex + (b - s.baseIndex) = b := by omega
    rw [reached] at valid
    exact valid.2
  · cases found

section Steps
variable {b t : Nat} {hs : HardState}

theorem loadCompaction_writeCompaction (lawful : codec.Lawful) (disk : Disk RaftFile) (b t : Nat) :
    loadCompaction codec (run (writeCompaction codec b t) disk) = .ok (b,t) := by
  simp [writeCompaction,run_replace,loadCompaction,lawful.boundary]

theorem crash_rewriteLog (crash : Crash (rewriteLog codec entries) disk disk') :
    disk' .compaction = disk .compaction ∧ disk' .state = disk .state ∧
      (disk' .log = disk .log ∨ disk' .log = some (codec.entry.frames entries)) := by
  rcases crash.replace with same | rfl
  · exact ⟨same _ (by decide),same _ (by decide),.inl (same _ (by decide))⟩
  · simp [run_replace]

theorem crash_writeState (lawful : codec.Lawful) (crash : Crash (writeState codec hs) disk disk') :
    disk' .compaction = disk .compaction ∧ disk' .log = disk .log ∧
      (disk' .state = disk .state ∨ loadState codec disk' = .ok hs) := by
  rcases crash.replace with same | rfl
  · exact ⟨same _ (by decide),same _ (by decide),.inl (same _ (by decide))⟩
  · simp [run_replace,loadState,lawful.state]

theorem crash_writeCompaction (lawful : codec.Lawful) (crash : Crash (writeCompaction codec b t) disk disk') :
    disk' .log = disk .log ∧ disk' .state = disk .state ∧
      (disk' .compaction = disk .compaction ∨ loadCompaction codec disk' = .ok (b,t)) := by
  rcases crash.replace with same | rfl
  · exact ⟨same _ (by decide),same _ (by decide),.inl (same _ (by decide))⟩
  · refine ⟨?_,?_,.inr (loadCompaction_writeCompaction lawful disk b t)⟩ <;> simp [run_replace]

theorem loadCompaction_congr (codec : RaftCodec) (same : disk' .compaction = disk .compaction) :
    loadCompaction codec disk' = loadCompaction codec disk := by
  rw [loadCompaction,same,loadCompaction]

theorem done_writeCompaction (lawful : codec.Lawful) (disk : Disk RaftFile) (b t : Nat) :
    run (writeCompaction codec b t) disk .log = disk .log ∧ run (writeCompaction codec b t) disk .state = disk .state ∧
      loadCompaction codec (run (writeCompaction codec b t) disk) = .ok (b,t) := by
  refine ⟨?_,?_,loadCompaction_writeCompaction lawful disk b t⟩ <;> simp [writeCompaction,run_replace]

theorem done_rewriteLog (codec : RaftCodec) (disk : Disk RaftFile) (entries : List LogEntry) :
    run (rewriteLog codec entries) disk .compaction = disk .compaction ∧
      run (rewriteLog codec entries) disk .state = disk .state ∧
      run (rewriteLog codec entries) disk .log = some (codec.entry.frames entries) := by
  simp [rewriteLog,run_replace]

theorem done_writeState (lawful : codec.Lawful) (disk : Disk RaftFile) (hs : HardState) :
    run (writeState codec hs) disk .compaction = disk .compaction ∧ run (writeState codec hs) disk .log = disk .log ∧
      loadState codec (run (writeState codec hs) disk) = .ok hs := by
  simp [writeState,run_replace,loadState,lawful.state]

end Steps

end FileStorage

namespace FileOp
open FileStorage

def boundary (s : FileStorage) : FileOp → Option (Nat × Nat)
  | .compact upTo applied => match s.planCompaction upTo applied false with
    | .error _ => none
    | .ok plan => if plan.compacted then some (upTo,plan.lastIncludedTerm) else none
  | .installSnapshot b t => if b ≤ s.baseIndex then none else some (b,t)
  | _ => none

def rewritten (s : FileStorage) : FileOp → Option (List LogEntry)
  | .truncateFrom index =>
    if index ≠ 0 ∧ index ≤ s.baseIndex then none
    else if index - s.baseIndex - 1 < s.entries.length then some (s.entries.take (index - s.baseIndex - 1)) else none
  | .compact upTo applied => match s.planCompaction upTo applied false with
    | .error _ => none
    | .ok plan => if plan.compacted then some (s.entries.filter (fun e => e.index > upTo)) else none
  | .installSnapshot b t => if b ≤ s.baseIndex then none else some (s.afterSnapshot b t)
  | _ => none

def saved (s : FileStorage) : FileOp → Option HardState
  | .installSnapshot b _ =>
    if b ≤ s.baseIndex then none
    else if s.hardState.commitIndex < b then some { s.hardState with commitIndex := b } else none
  | .saveHardState hs => some hs
  | _ => none

def changed (s : FileStorage) (op : FileOp) : FileStorage where
  entries := (op.rewritten s).getD s.entries
  hardState := s.hardState
  baseIndex := ((op.boundary s).getD (s.baseIndex,s.baseTerm)).1
  baseTerm := ((op.boundary s).getD (s.baseIndex,s.baseTerm)).2

def isAppend : FileOp → Bool
  | .append _ => true
  | _ => false

theorem append_or_other (op : FileOp) : (∃ entries, op = .append entries) ∨ op.isAppend = false := by
  cases op with
  | append entries => exact .inl ⟨entries,rfl⟩
  | truncateFrom | compact | installSnapshot | saveHardState => exact .inr rfl

variable (codec : RaftCodec)

def boundarySteps (s : FileStorage) (op : FileOp) : List (Step RaftFile) :=
  match op.boundary s with
  | some (b,t) => writeCompaction codec b t
  | none => []

def logSteps (s : FileStorage) (op : FileOp) : List (Step RaftFile) :=
  match op.rewritten s with
  | some entries => rewriteLog codec entries
  | none => []

def stateSteps (s : FileStorage) (op : FileOp) : List (Step RaftFile) :=
  match op.saved s with
  | some hs => writeState codec hs
  | none => []

theorem boundary_later {s : FileStorage} {op : FileOp} {b t : Nat} (reached : op.boundary s = some (b,t)) :
    s.baseIndex < b := by
  cases op with
  | append | truncateFrom | saveHardState => cases reached
  | compact upTo applied =>
    simp only [boundary] at reached
    split at reached
    · cases reached
    rename_i plan planned
    split at reached
    · rename_i compacted
      cases reached
      exact (planCompaction_compacted planned compacted).1
    · cases reached
  | installSnapshot b t =>
    simp only [boundary] at reached
    split at reached
    · cases reached
    · rename_i later
      cases reached
      exact Nat.not_le.mp later

theorem steps_eq (s : FileStorage) {op : FileOp} (other : op.isAppend = false) :
    op.steps codec s = op.boundarySteps codec s ++ (op.logSteps codec s ++ op.stateSteps codec s) := by
  cases op with
  | append => cases other
  | compact upTo applied =>
    simp only [steps,boundarySteps,logSteps,stateSteps,boundary,rewritten,saved]
    cases s.planCompaction upTo applied false with
    | error e => rfl
    | ok plan => cases compacted : plan.compacted <;> simp [compacted]
  | truncateFrom index | installSnapshot b t =>
    simp only [steps,boundarySteps,logSteps,stateSteps,boundary,rewritten,saved]
    split
    · rfl
    · split <;> simp
  | saveHardState hs => simp [steps,boundarySteps,logSteps,stateSteps,boundary,rewritten,saved]

variable {codec}

theorem run_eq (other : op.isAppend = false) :
    op.run s = { op.changed s with hardState := (op.saved s).getD s.hardState } := by
  cases op with
  | append => cases other
  | truncateFrom index =>
    simp only [run,FileStorage.truncateFrom,changed,boundary,rewritten,saved]
    split
    · rfl
    split
    · rfl
    · rename_i past
      rw [List.take_of_length_le (Nat.not_lt.mp past)]
      rfl
  | compact upTo applied =>
    simp only [run,FileStorage.compact,changed,boundary,rewritten,saved]
    cases s.planCompaction upTo applied false with
    | error e => rfl
    | ok plan => cases compacted : plan.compacted <;> simp [compacted]
  | installSnapshot b t =>
    simp only [run,FileStorage.installSnapshot,changed,boundary,rewritten,saved]
    split
    · rfl
    split
    · rename_i behind
      rw [Nat.max_eq_right behind.le]
      rfl
    · rename_i ahead
      rw [Nat.max_eq_left (Nat.not_lt.mp ahead)]
      rfl
  | saveHardState hs => rfl

end FileOp

namespace FileStorage

structure Kept (codec : RaftCodec) (disk : Disk RaftFile) (s : FileStorage) : Prop where
  boundary : loadCompaction codec disk = .ok (s.baseIndex,s.baseTerm)
  state : loadState codec disk = .ok s.hardState
  valid : validateSuffix s.baseIndex s.baseTerm s.entries = .ok ()
  stored : ∀ e ∈ s.entries, codec.entry.Stores e

variable {disk disk' : Disk RaftFile}

theorem Kept.congr (kept : Kept codec disk s) (compaction : disk' .compaction = disk .compaction)
    (state : disk' .state = disk .state) : Kept codec disk' s where
  boundary := (loadCompaction_congr codec compaction).trans kept.boundary
  state := by
    rw [loadState,state]
    exact kept.state
  valid := kept.valid
  stored := kept.stored

theorem Kept.append (kept : Kept codec disk s) (stored : ∀ e ∈ entries, codec.entry.Stores e) :
    Kept codec disk (s.append entries).1 := by
  unfold FileStorage.append
  split
  · exact kept
  · rename_i valid
    exact ⟨kept.boundary,kept.state,validateSuffix_append.mpr ⟨kept.valid,valid⟩,
      fun e inside => (List.mem_append.mp inside).elim (kept.stored e) (stored e)⟩

section
variable (valid : validateSuffix s.baseIndex s.baseTerm s.entries = .ok ())
include valid

theorem valid_afterSnapshot {b t : Nat}
    (later : ¬ b ≤ s.baseIndex) : validateSuffix b t (s.afterSnapshot b t) = .ok () := by
  unfold afterSnapshot
  split
  · rename_i found
    exact valid_after valid (Nat.not_le.mp later) found
  · rfl

theorem valid_changed (op : FileOp) :
    validateSuffix (op.changed s).baseIndex (op.changed s).baseTerm (op.changed s).entries = .ok () := by
  cases op with
  | append | saveHardState => exact valid
  | truncateFrom index =>
    have kept : validateSuffix s.baseIndex s.baseTerm (s.entries.take (index - s.baseIndex - 1)) = .ok () := by
      rw [← List.take_append_drop (index - s.baseIndex - 1) s.entries] at valid
      exact (validateSuffix_append.mp valid).1
    simp only [changed,boundary,rewritten]
    split
    · exact valid
    · split
      · exact kept
      · exact valid
  | compact upTo applied =>
    simp only [changed,boundary,rewritten]
    cases planned : s.planCompaction upTo applied false with
    | error e => exact valid
    | ok plan =>
      cases compacted : plan.compacted with
      | false => simpa [compacted] using valid
      | true =>
        obtain ⟨later,-,-,-,found⟩ := planCompaction_compacted planned compacted
        simpa [compacted] using valid_after valid later found
  | installSnapshot b t =>
    simp only [changed,boundary,rewritten]
    split
    · exact valid
    · rename_i later
      exact valid_afterSnapshot valid later

end

theorem mem_changed (op : FileOp) (inside : e ∈ (op.changed s).entries) : e ∈ s.entries := by
  cases op with
  | append | saveHardState => exact inside
  | truncateFrom index =>
    simp only [changed,rewritten] at inside
    split at inside
    · exact inside
    · split at inside
      · exact List.mem_of_mem_take inside
      · exact inside
  | compact upTo applied =>
    simp only [changed,rewritten] at inside
    split at inside
    · exact inside
    · split at inside
      · exact (List.mem_filter.mp inside).1
      · exact inside
  | installSnapshot b t =>
    simp only [changed,rewritten,afterSnapshot] at inside
    split at inside
    · exact inside
    split at inside
    · exact (List.mem_filter.mp inside).1
    · cases inside

theorem Kept.changed (lawful : codec.Lawful) (kept : Kept codec disk s) (op : FileOp) :
    Kept codec (run (op.boundarySteps codec s) disk) (op.changed s) ∧
      run (op.boundarySteps codec s) disk .log = disk .log := by
  have valid := valid_changed kept.valid op
  have stored (e : LogEntry) (inside : e ∈ (op.changed s).entries) := kept.stored e (mem_changed op inside)
  unfold FileOp.boundarySteps
  cases written : op.boundary s with
  | none =>
    have same : (op.changed s).baseIndex = s.baseIndex ∧ (op.changed s).baseTerm = s.baseTerm := by
      simp [FileOp.changed,written]
    refine ⟨⟨?_,kept.state,valid,stored⟩,rfl⟩
    rw [same.1,same.2]
    exact kept.boundary
  | some at' =>
    obtain ⟨b,t⟩ := at'
    obtain ⟨log,state,boundary⟩ := done_writeCompaction lawful disk b t
    have moved : (op.changed s).baseIndex = b ∧ (op.changed s).baseTerm = t := by simp [FileOp.changed,written]
    refine ⟨⟨?_,?_,valid,stored⟩,log⟩
    · rw [moved.1,moved.2]
      exact boundary
    · exact kept.state

theorem Kept.rewritten (lawful : codec.Lawful) (kept : Kept codec disk s) (op : FileOp) :
    Kept codec (run (op.logSteps codec s) (run (op.boundarySteps codec s) disk)) (op.changed s) ∧
      ((op.rewritten s).isSome ∨ disk .log = some (codec.entry.frames s.entries) →
        run (op.logSteps codec s) (run (op.boundarySteps codec s) disk) .log =
          some (codec.entry.frames (op.changed s).entries)) := by
  obtain ⟨before,same⟩ := kept.changed lawful op
  unfold FileOp.logSteps
  cases written : op.rewritten s with
  | none =>
    have entries : (op.changed s).entries = s.entries := by simp [FileOp.changed,written]
    refine ⟨before,?_⟩
    rintro (rewrites | log)
    · cases rewrites
    · rw [entries,← log]
      exact same
  | some entries =>
    obtain ⟨compaction,state,log⟩ := done_rewriteLog codec (run (op.boundarySteps codec s) disk) entries
    have moved : (op.changed s).entries = entries := by simp [FileOp.changed,written]
    refine ⟨before.congr compaction state,fun _ => ?_⟩
    rw [moved]
    exact log

theorem Kept.saved (lawful : codec.Lawful) (kept : Kept codec disk s) (op : FileOp) :
    Kept codec (run (op.stateSteps codec s) (run (op.logSteps codec s) (run (op.boundarySteps codec s) disk)))
        { op.changed s with hardState := (op.saved s).getD s.hardState } ∧
      ((op.rewritten s).isSome ∨ disk .log = some (codec.entry.frames s.entries) →
        run (op.stateSteps codec s) (run (op.logSteps codec s) (run (op.boundarySteps codec s) disk)) .log =
          some (codec.entry.frames (op.changed s).entries)) := by
  obtain ⟨before,log⟩ := kept.rewritten lawful op
  unfold stateSteps
  cases op.saved s with
  | none => exact ⟨before,log⟩
  | some hs =>
    obtain ⟨compaction,same,state⟩ := done_writeState lawful
      (run (op.logSteps codec s) (run (op.boundarySteps codec s) disk)) hs
    refine ⟨⟨(loadCompaction_congr codec compaction).trans before.boundary,state,before.valid,before.stored⟩,?_⟩
    intro rewrote
    exact same.trans (log rewrote)

end FileStorage

end AuraDb.Raft
