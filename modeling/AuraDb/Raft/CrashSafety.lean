import AuraDb.Raft.Files

/-! What a crash leaves of the file-backed log: one of the logs an operation goes through, with a part of a
frame behind it at most, or a boundary ahead of the first retained entry, which opening refuses. -/
namespace AuraDb.Raft
open Library Library.Files Library.Framing
namespace FileStorage

/-- Every file that opening reads is as the storage says, up to a part of a frame at the
end of the log. -/
structure Left (codec : RaftCodec) (disk : Disk RaftFile) (s : FileStorage) (torn : Bytes) : Prop where
  log : disk .log = some (codec.entry.frames s.entries ++ torn)
  part : torn = [] ∨ ∃ a, codec.entry.Stores a ∧ ∃ m < (codec.entry.frame a).length, torn = (codec.entry.frame a).take m
  boundary : loadCompaction codec disk = .ok (s.baseIndex,s.baseTerm)
  state : loadState codec disk = .ok s.hardState
  valid : validateSuffix s.baseIndex s.baseTerm s.entries = .ok ()
  stored : ∀ e ∈ s.entries, codec.entry.Stores e

def Ahead (codec : RaftCodec) (disk : Disk RaftFile) : Prop :=
  ∃ e rest baseIndex baseTerm, disk .log = some (codec.entry.frames (e::rest)) ∧ codec.entry.Stores e ∧
    loadCompaction codec disk = .ok (baseIndex,baseTerm) ∧ baseIndex ≠ 0 ∧ e.index ≠ baseIndex + 1

def SameLog (s s' : FileStorage) : Prop :=
  s.entries = s'.entries ∧ s.baseIndex = s'.baseIndex ∧ s.baseTerm = s'.baseTerm

variable {codec : RaftCodec} {disk disk' : Disk RaftFile} {s s' : FileStorage} {torn : Bytes}

theorem SameLog.refl (s : FileStorage) : s.SameLog s := ⟨rfl,rfl,rfl⟩

private theorem replayLoop_torn (part : torn = [] ∨ ∃ a, codec.entry.Stores a ∧
      ∃ m < (codec.entry.frame a).length, torn = (codec.entry.frame a).take m)
    (baseIndex rounds offset lastIndex lastTerm : Nat) (first : Bool) :
    (∃ reason, replayLoop codec baseIndex rounds first offset lastIndex lastTerm torn =
        .error (.corruption reason) ∧ torn ≠ []) ∨
      replayLoop codec baseIndex rounds first offset lastIndex lastTerm torn = .ok ([],offset) := by
  cases rounds with
  | zero => exact .inr rfl
  | succ rounds =>
    rw [replayLoop]
    rcases part with rfl | ⟨a,stores,m,short,rfl⟩
    · exact .inr rfl
    · split
      · exact .inr rfl
      · rename_i some
        rcases Codec.frameAt_torn offset a stores short with none | ⟨overflow,_⟩
        · simp [none]
        · simpa [overflow] using some

/-- The frames of entries that follow each other are read back; only a length that overflows stops the scan. -/
theorem replayLoop_frames {entries : List LogEntry} {baseIndex rounds offset lastIndex lastTerm : Nat} {first : Bool}
    (stored : ∀ e ∈ entries, codec.entry.Stores e) (part : torn = [] ∨ ∃ a, codec.entry.Stores a ∧
      ∃ m < (codec.entry.frame a).length, torn = (codec.entry.frame a).take m)
    (valid : validateSuffix lastIndex lastTerm entries = .ok ()) (begins : first = true → lastIndex = baseIndex)
    (enough : (codec.entry.frames entries ++ torn).length ≤ rounds) :
    (∃ reason, replayLoop codec baseIndex rounds first offset lastIndex lastTerm
        (codec.entry.frames entries ++ torn) = .error (.corruption reason) ∧
        (torn = [] → 2^64 ≤ offset + (codec.entry.frames entries).length)) ∨
      replayLoop codec baseIndex rounds first offset lastIndex lastTerm (codec.entry.frames entries ++ torn) =
        .ok (entries,offset + (codec.entry.frames entries).length) := by
  induction entries generalizing rounds first offset lastIndex lastTerm with
  | nil =>
    rcases replayLoop_torn part baseIndex rounds offset lastIndex lastTerm first with ⟨reason,failed,some⟩ | read
    · exact .inl ⟨reason,failed,fun none => absurd none some⟩
    · exact .inr read
  | cons e rest ih =>
    obtain ⟨next,later,others⟩ := validateSuffix_cons.mp valid
    have split : codec.entry.frames (e::rest) ++ torn = codec.entry.frame e ++ (codec.entry.frames rest ++ torn) := by
      simp [Codec.frames,List.append_assoc]
    have size : (codec.entry.frames (e::rest)).length =
        (codec.entry.frame e).length + (codec.entry.frames rest).length := by simp [Codec.frames]
    have long := @Codec.length_frame _ codec.entry e
    rw [split] at enough ⊢
    rw [List.length_append] at enough
    cases rounds with
    | zero => omega
    | succ rounds =>
      have nonempty : (codec.entry.frame e ++ (codec.entry.frames rest ++ torn)).isEmpty = false := by
        rw [← Bool.not_eq_true,List.isEmpty_iff_length_eq_zero,List.length_append]
        omega
      have checked : replayCheck baseIndex first lastIndex lastTerm e = .ok () := by
        have fits : ¬ (first = true ∧ baseIndex ≠ 0 ∧ e.index ≠ baseIndex + 1) := by
          rintro ⟨start,-,other⟩
          exact other (by rw [next,begins start])
        have one : validateSuffix lastIndex lastTerm [e] = .ok () := validateSuffix_cons.mpr ⟨next,later,rfl⟩
        rw [replayCheck,if_neg fits,one]
      rw [replayLoop,if_neg (by simp [nonempty]),Codec.frameAt_frame_append offset e (stored e (by simp))]
      by_cases overflow : 2^64 ≤ offset + (codec.entry.frame e).length
      · rw [if_pos overflow]
        exact .inl ⟨_,rfl,fun _ => by omega⟩
      · rw [if_neg overflow]
        simp only [checked,List.drop_left]
        rw [next]
        have tail : (∃ reason, replayLoop codec baseIndex rounds false (offset + (codec.entry.frame e).length)
            (lastIndex + 1) e.term (codec.entry.frames rest ++ torn) = .error (.corruption reason) ∧ _) ∨ _ :=
          ih (fun e inside => stored e (by simp [inside])) others (by simp) (by omega)
        rcases tail with ⟨reason,failed,large⟩ | read
        · exact .inl ⟨reason,by simp [failed,Except.map],fun none => by have := large none; omega⟩
        · refine .inr ?_
          simp only [read,Except.map,size]
          congr 2
          omega

theorem Left.opens (left : Left codec disk s torn) :
    (∃ reason, openDirectory codec disk = .error (.corruption reason) ∧
        (torn = [] → 2^64 ≤ (codec.entry.frames s.entries).length)) ∨
      ∃ disk', openDirectory codec disk = .ok (s,disk') ∧ Left codec disk' s [] := by
  have scanned : (∃ reason, replayLoop codec s.baseIndex (codec.entry.frames s.entries ++ torn).length true 0
      s.baseIndex s.baseTerm (codec.entry.frames s.entries ++ torn) = .error (.corruption reason) ∧ _) ∨ _ :=
    replayLoop_frames left.stored left.part left.valid (fun _ => rfl) le_rfl
  unfold openDirectory
  simp only [left.boundary,replayLog,left.log]
  rcases scanned with ⟨reason,failed,large⟩ | read
  · exact .inl ⟨reason,by rw [failed],by simpa using large⟩
  · have cut : Function.update disk .log (some ((codec.entry.frames s.entries ++ torn).take
        (0 + (codec.entry.frames s.entries).length))) =
        Function.update disk .log (some (codec.entry.frames s.entries)) := by
      rw [Nat.zero_add,List.take_left]
    have state : loadState codec (Function.update disk .log (some (codec.entry.frames s.entries))) = .ok s.hardState := by
      simpa [loadState] using left.state
    refine .inr ⟨Function.update disk .log (some (codec.entry.frames s.entries)),?_,?_⟩
    · simp only [read,Option.getD_some,cut,state]
    · refine ⟨by simp,.inl rfl,?_,state,left.valid,left.stored⟩
      simpa [loadCompaction] using left.boundary

theorem Ahead.opens (ahead : Ahead codec disk) :
    ∃ reason, openDirectory codec disk = .error (.corruption reason) := by
  obtain ⟨e,rest,baseIndex,baseTerm,log,stores,boundary,positive,gap⟩ := ahead
  have split : codec.entry.frames (e::rest) = codec.entry.frame e ++ codec.entry.frames rest := rfl
  have long := @Codec.length_frame _ codec.entry e
  have failed : ∃ reason, replayLog codec disk baseIndex baseTerm = .error (.corruption reason) := by
    simp only [replayLog,log]
    obtain ⟨rounds,more⟩ : ∃ rounds, (codec.entry.frames (e::rest)).length = rounds + 1 :=
      Nat.exists_eq_succ_of_ne_zero (by rw [split,List.length_append]; omega)
    have nonempty : (codec.entry.frames (e::rest)).isEmpty = false := by
      rw [← Bool.not_eq_true,List.isEmpty_iff_length_eq_zero]
      omega
    have disagrees : ∃ reason, replayCheck baseIndex true baseIndex baseTerm e = .error (.corruption reason) := by
      rw [replayCheck,if_pos ⟨rfl,positive,gap⟩]
      exact ⟨_,rfl⟩
    obtain ⟨reason,disagrees⟩ := disagrees
    rw [more,replayLoop,if_neg (by simp [nonempty]),split,Codec.frameAt_frame_append 0 e stores]
    split
    · exact ⟨_,rfl⟩
    · rename_i same
      split at same <;> simp at same
    · rename_i entry size same
      split at same
      · cases same
      · cases same
        rw [disagrees]
        exact ⟨reason,rfl⟩
  obtain ⟨reason,failed⟩ := failed
  refine ⟨reason,?_⟩
  unfold openDirectory
  simp only [boundary,failed]

theorem Left.kept (left : Left codec disk s torn) : Kept codec disk s := { left with }

theorem Left.whole (left : Left codec disk s []) : disk .log = some (codec.entry.frames s.entries) := by
  simpa using left.log

theorem Kept.left (kept : Kept codec disk s) (log : disk .log = some (codec.entry.frames s.entries)) :
    Left codec disk s [] := { kept with log := by rw [log,List.append_nil], part := .inl rfl }

theorem Left.congr (left : Left codec disk s torn) (log : disk' .log = disk .log)
    (compaction : disk' .compaction = disk .compaction) (state : disk' .state = disk .state) :
    Left codec disk' s torn where
  log := log.trans left.log
  part := left.part
  boundary := by
    rw [loadCompaction,compaction]
    exact left.boundary
  state := by
    rw [loadState,state]
    exact left.state
  valid := left.valid
  stored := left.stored

theorem Left.behind (left : Left codec disk s []) (log : disk' .log = disk .log) {b t : Nat}
    (boundary : loadCompaction codec disk' = .ok (b,t)) (state : disk' .state = disk .state)
    (later : s.baseIndex < b) : Ahead codec disk' ∨
      s.entries = [] ∧ Left codec disk' { s with baseIndex := b, baseTerm := t } [] := by
  have held := log.trans left.log
  rw [List.append_nil] at held
  cases entries : s.entries with
  | nil =>
    rw [entries] at held
    refine .inr ⟨rfl,⟨held,.inl rfl,boundary,?_,rfl,by simp⟩⟩
    rw [loadState,state]
    exact left.state
  | cons e rest =>
    have first := index_of_valid left.valid (i := 0) (e := e) (by simp [entries])
    rw [entries] at held
    exact .inl ⟨e,rest,b,t,held,left.stored e (by simp [entries]),boundary,by omega,by omega⟩

end FileStorage

namespace FileOp
open FileStorage

/-- The logs a crash may leave: the one before, the one after, or the one before with a part of the appended
entries. -/
def Between (s : FileStorage) (op : FileOp) (s' : FileStorage) : Prop :=
  s'.SameLog s ∨ s'.SameLog (op.run s) ∨
    ∃ entries k, op = .append entries ∧ s'.SameLog { s with entries := s.entries ++ entries.take k }

variable {codec : RaftCodec} {disk disk' : Disk RaftFile} {s : FileStorage}

def Leaves (codec : RaftCodec) (s : FileStorage) (op : FileOp) (disk' : Disk RaftFile) : Prop :=
  (∃ s' torn, Left codec disk' s' torn ∧ op.Between s s') ∨ Ahead codec disk'

theorem Leaves.before (left : Left codec disk s []) (op : FileOp) : op.Leaves codec s disk :=
  .inl ⟨s,[],left,.inl (.refl s)⟩

variable {op : FileOp}

theorem Leaves.congr (leaves : op.Leaves codec s disk) (log : disk' .log = disk .log)
    (compaction : disk' .compaction = disk .compaction) (state : disk' .state = disk .state) :
    op.Leaves codec s disk' := by
  rcases leaves with ⟨s',torn,left,between⟩ | ⟨e,rest,b,t,held,stores,boundary,ahead⟩
  · exact .inl ⟨s',torn,left.congr log compaction state,between⟩
  · exact .inr ⟨e,rest,b,t,log.trans held,stores,(loadCompaction_congr codec compaction).trans boundary,ahead⟩

theorem left_append (left : Left codec disk s []) {new : List LogEntry} {torn : Bytes}
    (valid : validateSuffix s.lastIndex s.lastTerm new = .ok ()) (stored : ∀ e ∈ new, codec.entry.Stores e)
    (part : torn = [] ∨ ∃ a, codec.entry.Stores a ∧
      ∃ m < (codec.entry.frame a).length, torn = (codec.entry.frame a).take m) :
    Left codec (extend disk .log (codec.entry.frames new ++ torn)) { s with entries := s.entries ++ new } torn where
  log := by
    simp only [extend,Function.update_self,left.log,Codec.frames_append,List.append_nil,Option.getD_some,
      List.append_assoc]
  part := part
  boundary := by simpa [loadCompaction,extend] using left.boundary
  state := by simpa [loadState,extend] using left.state
  valid := validateSuffix_append.mpr ⟨left.valid,valid⟩
  stored e inside := (List.mem_append.mp inside).elim (left.stored e) (stored e)

theorem crash_append (left : Left codec disk s []) {entries : List LogEntry}
    (stored : ∀ e ∈ entries, codec.entry.Stores e)
    (crash : Crash ((FileOp.append entries).steps codec s) disk disk') :
    (FileOp.append entries).Leaves codec s disk' := by
  simp only [steps] at crash
  split at crash
  · cases crash
    exact .before left _
  rename_i valid
  split at crash
  · cases crash
    exact .before left _
  -- a write that is done is one that stopped after its last byte
  have reached : disk' = disk ∨ ∃ count, disk' = extend disk .log ((codec.entry.frames entries).take count) := by
    cases crash with
    | stop => exact .inl rfl
    | torn file bytes count => exact .inr ⟨count,rfl⟩
    | next later =>
      cases later with
      | stop => exact .inr ⟨_,by rw [List.take_length]; rfl⟩
  rcases reached with rfl | ⟨count,rfl⟩
  · exact .before left _
  obtain ⟨k,torn,cut,part⟩ := @Codec.take_frames _ codec.entry entries count
  rw [cut]
  rw [← List.take_append_drop k entries,validateSuffix_append] at valid
  refine .inl ⟨_,torn,left_append left valid.1 (fun e inside => stored e (List.mem_of_mem_take inside)) ?_,
    .inr (.inr ⟨entries,k,rfl,.refl _⟩)⟩
  refine part.imp_right ?_
  rintro ⟨a,member,cut⟩
  exact ⟨a,stored a member,cut⟩

theorem sameLog_changed (other : op.isAppend = false) (hs : HardState) :
    { op.changed s with hardState := hs }.SameLog (op.run s) := by
  rw [run_eq other]
  exact ⟨rfl,rfl,rfl⟩

theorem Leaves.moved (left : Left codec disk s []) (other : op.isAppend = false) {b t : Nat}
    (reached : op.boundary s = some (b,t)) (log : disk' .log = disk .log) (state : disk' .state = disk .state)
    (written : loadCompaction codec disk' = .ok (b,t)) : op.Leaves codec s disk' := by
  rcases left.behind log written state (boundary_later reached) with refused | ⟨empty,left'⟩
  · exact .inr refused
  · -- without entries the old log is the new one
    have none : (op.changed s).entries = [] := List.eq_nil_iff_forall_not_mem.mpr fun e inside => by
      simpa [empty] using mem_changed op inside
    obtain ⟨entries,index,term⟩ := sameLog_changed (s := s) other s.hardState
    refine .inl ⟨_,[],left',.inr (.inl ⟨empty.trans (none.symm.trans entries),?_,?_⟩)⟩
    · rw [← index]
      simp [changed,reached]
    · rw [← term]
      simp [changed,reached]

theorem Leaves.after (other : op.isAppend = false) {hs : HardState}
    (kept : Kept codec disk' { op.changed s with hardState := hs })
    (log : disk' .log = some (codec.entry.frames (op.changed s).entries)) : op.Leaves codec s disk' :=
  .inl ⟨_,[],kept.left log,.inr (.inl (sameLog_changed other hs))⟩

section
variable (lawful : codec.Lawful) (left : Left codec disk s [])
include lawful left

section
variable (other : op.isAppend = false)
include other

theorem crash_boundary (crash : Crash (op.boundarySteps codec s) disk disk') : op.Leaves codec s disk' := by
  unfold boundarySteps at crash
  cases reached : op.boundary s with
  | none =>
    rw [reached] at crash
    cases crash
    exact .before left op
  | some at' =>
    rw [reached] at crash
    obtain ⟨log,state,compaction⟩ := crash_writeCompaction lawful crash
    rcases compaction with same | written
    · exact .before (left.congr log same state) op
    · exact .moved left other reached log state written

theorem crash_log (crash : Crash (op.logSteps codec s) (Files.run (op.boundarySteps codec s) disk) disk') :
    op.Leaves codec s disk' := by
  have early := crash_boundary lawful left other (Crash.done (op.boundarySteps codec s) disk)
  unfold logSteps at crash
  cases reached : op.rewritten s with
  | none =>
    rw [reached] at crash
    cases crash
    exact early
  | some entries =>
    rw [reached] at crash
    obtain ⟨compaction,state,log⟩ := crash_rewriteLog crash
    rcases log with same | rewritten
    · exact early.congr same compaction state
    · refine .after other ((left.kept.changed lawful op).1.congr compaction state) ?_
      simpa [changed,reached] using rewritten

theorem crash_state (crash : Crash (op.stateSteps codec s)
      (Files.run (op.logSteps codec s) (Files.run (op.boundarySteps codec s) disk)) disk') : op.Leaves codec s disk' := by
  obtain ⟨kept,log⟩ := left.kept.rewritten lawful op
  have rewritten := log (.inr left.whole)
  unfold stateSteps at crash
  cases reached : op.saved s with
  | none =>
    rw [reached] at crash
    cases crash
    exact .after other kept rewritten
  | some hs =>
    rw [reached] at crash
    obtain ⟨compaction,same,state⟩ := crash_writeState lawful crash
    rcases state with unsaved | saved
    · exact .after other (kept.congr compaction unsaved) (same.trans rewritten)
    · have boundary := (loadCompaction_congr codec compaction).trans kept.boundary
      have now : Kept codec disk' { op.changed s with hardState := hs } := ⟨boundary,saved,kept.valid,kept.stored⟩
      exact .after other now (same.trans rewritten)

end

theorem crashes (stored : op.Stored codec)
    (crash : Crash (op.steps codec s) disk disk') : op.Leaves codec s disk' := by
  rcases op.append_or_other with ⟨entries,rfl⟩ | other
  · exact crash_append left stored crash
  · rw [steps_eq codec s other] at crash
    rcases crash.append with first | later
    · exact crash_boundary lawful left other first
    · rcases later.append with middle | last
      · exact crash_log lawful left other middle
      · exact crash_state lawful left other last

theorem completes (stored : op.Stored codec) : Left codec (Files.run (op.steps codec s) disk) (op.run s) [] := by
  rcases op.append_or_other with ⟨entries,rfl⟩ | other
  · simp only [steps,FileOp.run,FileStorage.append]
    cases valid : validateSuffix s.lastIndex s.lastTerm entries with
    | error e => exact left
    | ok u =>
      by_cases none : entries.isEmpty = true
      · rw [List.isEmpty_iff.mp none,List.append_nil]
        exact left
      · simpa [Files.run,Step.run,none] using left_append left valid stored (.inl rfl)
  · obtain ⟨kept,log⟩ := left.kept.saved lawful op
    rw [steps_eq codec s other,Files.run_append,Files.run_append,run_eq other]
    exact kept.left (log (.inr left.whole))

end

end FileOp

theorem LogDirectory.left_run {codec : RaftCodec} (lawful : codec.Lawful) {d : LogDirectory} {shown : List Empty}
    (run : Library.Run (LogDirectory.step codec) (LogDirectory.Possible codec) .fresh shown d) :
    FileStorage.Left codec d.disk d.mem [] := by
  induction run with
  | start => exact ⟨rfl,.inl rfl,rfl,rfl,rfl,by simp [LogDirectory.fresh]⟩
  | next before act possible taken ih =>
    cases act with
    | op op =>
      cases taken
      exact op.completes lawful ih possible
    | crash op left =>
      simp only [LogDirectory.step] at taken
      split at taken
      · cases taken
      rename_i mem disk opened
      cases taken
      rcases op.crashes lawful ih possible.1 possible.2 with ⟨s',torn,held,-⟩ | ahead
      · rcases held.opens with ⟨reason,failed,-⟩ | ⟨disk',ok,held'⟩
        · rw [failed] at opened
          cases opened
        · rw [ok] at opened
          cases opened
          exact held'
      · obtain ⟨reason,failed⟩ := ahead.opens
        rw [failed] at opened
        cases opened

/-- After a crash in any operation, opening reports a corruption or finds the log from before the operation, the
log after it, or the log before it with a part of the appended entries. -/
theorem raft_log_crash_safety {codec : RaftCodec} (lawful : codec.Lawful) {d : LogDirectory} {shown : List Empty}
    (run : Library.Run (LogDirectory.step codec) (LogDirectory.Possible codec) .fresh shown d) (op : FileOp)
    (stored : op.Stored codec) {left : Disk RaftFile} (crash : Crash (op.steps codec d.mem) d.disk left) :
    match FileStorage.openDirectory codec left with
    | .error e => ∃ reason, e = .corruption reason
    | .ok (s,_) => s.SameLog d.mem ∨ s.SameLog (op.run d.mem) ∨
        ∃ entries k, op = .append entries ∧
          s.SameLog { d.mem with entries := d.mem.entries ++ entries.take k } := by
  rcases op.crashes lawful (LogDirectory.left_run lawful run) stored crash with ⟨s',torn,held,between⟩ | ahead
  · rcases held.opens with ⟨reason,failed,-⟩ | ⟨disk',ok,-⟩
    · rw [failed]
      exact ⟨reason,rfl⟩
    · rw [ok]
      exact between
  · obtain ⟨reason,failed⟩ := ahead.opens
    rw [failed]
    exact ⟨reason,rfl⟩

def writeNumber (n : Nat) : Bytes := List.replicate n 1 ++ [0]

def readNumber : Bytes → Nat × Bytes
  | [] => (0,[])
  | b::rest => if b = 0 then (0,rest) else ((readNumber rest).1 + 1,(readNumber rest).2)

theorem readNumber_writeNumber (n : Nat) (rest : Bytes) : readNumber (writeNumber n ++ rest) = (n,rest) := by
  induction n with
  | zero => rfl
  | succ n ih =>
    have first : writeNumber (n + 1) ++ rest = 1::(writeNumber n ++ rest) := rfl
    rw [first,readNumber,if_neg (by decide),ih]

theorem readNumber_last (n : Nat) : readNumber (writeNumber n) = (n,[]) := by
  simpa using readNumber_writeNumber n []

def plainCodec : RaftCodec where
  entry :=
    { write := fun e => writeNumber e.term ++ (writeNumber e.index ++
        ((if e.command.kind = .noop then 0 else 1) :: e.command.payload))
      read := fun bytes =>
        let (term,bytes) := readNumber bytes
        let (index,bytes) := readNumber bytes
        .ok ⟨term,index,.new (if bytes.head? = some 0 then .noop else .database) bytes.tail⟩
      crc := fun bytes => UInt32.ofNat bytes.length }
  writeMeta m := writeNumber m.formatVersion ++ (writeNumber m.lastIncludedIndex ++ writeNumber m.lastIncludedTerm)
  readMeta bytes :=
    let (version,bytes) := readNumber bytes
    let (index,bytes) := readNumber bytes
    .ok ⟨version,index,(readNumber bytes).1⟩
  writeState hs := writeNumber hs.currentTerm ++ (writeNumber hs.commitIndex ++
    hs.votedFor.elim [] (fun id => 1 :: writeNumber id))
  readState bytes :=
    let (term,bytes) := readNumber bytes
    let (commit,bytes) := readNumber bytes
    .ok ⟨term,if bytes.isEmpty then none else some (readNumber bytes.tail).1,commit⟩

theorem plainCodec_lawful : plainCodec.Lawful where
  boundary m := by simp [plainCodec,readNumber_writeNumber,readNumber_last]
  state hs := by
    obtain ⟨term,vote,commit⟩ := hs
    cases vote with
    | none | some id => simp [plainCodec,readNumber_writeNumber,readNumber_last]

def twoEntries : List LogEntry := [⟨1,1,.noop⟩,⟨1,2,.new .database [7]⟩]

theorem twoEntries_stored : ∀ e ∈ twoEntries, plainCodec.entry.Stores e := by
  intro e inside
  rcases List.mem_cons.mp inside with rfl | later
  · exact ⟨rfl,by decide⟩
  · rw [List.mem_singleton.mp later]
    exact ⟨rfl,by decide⟩

def tornAppend : Disk RaftFile :=
  extend LogDirectory.fresh.disk .log ((plainCodec.entry.frames twoEntries).take 20)

theorem raft_log_crash_safety_torn :
    Crash ((FileOp.append twoEntries).steps plainCodec {}) LogDirectory.fresh.disk tornAppend ∧
    (FileStorage.openDirectory plainCodec tornAppend).toOption.map (fun p => p.1.entries) = some [⟨1,1,.noop⟩] ∧
    match FileStorage.openDirectory plainCodec tornAppend with
    | .error e => ∃ reason, e = .corruption reason
    | .ok (s,_) => s.SameLog {} ∨ s.SameLog ((FileOp.append twoEntries).run {}) ∨
        ∃ entries k, FileOp.append twoEntries = .append entries ∧ s.SameLog { entries := [] ++ entries.take k } := by
  have crash : Crash ((FileOp.append twoEntries).steps plainCodec {}) LogDirectory.fresh.disk tornAppend := by
    exact .torn RaftFile.log _ 20 [] _
  refine ⟨crash,by decide +kernel,?_⟩
  exact raft_log_crash_safety plainCodec_lawful (.start LogDirectory.fresh) (.append twoEntries) twoEntries_stored crash

end AuraDb.Raft
