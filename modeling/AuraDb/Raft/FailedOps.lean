import AuraDb.Raft.CrashSafety

/-! Calls of the file-backed log that fail at a file step, after which the process goes on. An append that fails
leaves bytes in the file; the other calls change memory before the log is rewritten. -/
namespace AuraDb.Raft
open Library Library.Files Library.Framing FileStorage FileOp
variable {entries : List LogEntry} {stage : Stage} {op : FileOp}

/-- The file steps a call goes through. -/
inductive Stage where
  | frames | boundary | log | reopen | state
  deriving DecidableEq, Repr

/-- The file the stage is for; what is written before a rename is written beside it. -/
def Stage.path : Stage → String
  | .frames | .log | .reopen => "raft-log.bin"
  | .boundary => "raft-compaction.json"
  | .state => "raft-state.json"

def Stage.result (failed : Option Stage) (stage : Stage) : RaftResult Unit :=
  if failed = some stage then .error (.io stage.path "file step failed") else .ok ()

def rewriteResult (failed : Option Stage) : RaftResult Unit := do
  Stage.log.result failed
  Stage.reopen.result failed

namespace FileStorage

def tryAppend (frames : RaftResult Unit) (s : FileStorage) (entries : List LogEntry) : FileStorage × RaftResult Unit :=
  match validateSuffix s.lastIndex s.lastTerm entries with
  | .error e => (s,.error e)
  | .ok () =>
    if entries.isEmpty then (s,.ok ()) else
    match frames with
    | .error e => (s,.error e)
    | .ok () => ({ s with entries := s.entries ++ entries },.ok ())

def tryTruncateFrom (log : RaftResult Unit) (s : FileStorage) (index : Nat) : FileStorage × RaftResult Unit :=
  if index ≠ 0 ∧ index ≤ s.baseIndex then (s,.error (.compacted index s.baseIndex))
  else if index - s.baseIndex - 1 < s.entries.length then
    ({ s with entries := s.entries.take (index - s.baseIndex - 1) },log)
  else (s,.ok ())

def tryCompact (boundary log : RaftResult Unit) (s : FileStorage) (upTo applied : Nat) :
    FileStorage × RaftResult CompactionOutcome :=
  match s.planCompaction upTo applied false with
  | .error e => (s,.error e)
  | .ok plan =>
    if ¬ plan.compacted then (s,.ok plan) else
    match boundary with
    | .error e => (s,.error e)
    | .ok () => ({ s with
        baseIndex := upTo
        baseTerm := plan.lastIncludedTerm
        entries := s.entries.filter (fun e => e.index > upTo) },log.map fun _ => plan)

def trySaveHardState (state : RaftResult Unit) (s : FileStorage) (hs : HardState) : FileStorage × RaftResult Unit :=
  match state with
  | .error e => (s,.error e)
  | .ok () => ({ s with hardState := hs },.ok ())

end FileStorage

namespace FileOp
open FileStorage

/-- What a call that fails at a stage leaves in memory. -/
def tryRun (failed : Option Stage) (s : FileStorage) : FileOp → FileStorage
  | .append entries => (s.tryAppend (Stage.frames.result failed) entries).1
  | .truncateFrom index => (s.tryTruncateFrom (rewriteResult failed) index).1
  | .compact upTo applied => (s.tryCompact (Stage.boundary.result failed) (rewriteResult failed) upTo applied).1
  | .installSnapshot lastIncludedIndex lastIncludedTerm => (s.tryInstallSnapshot
      ⟨Stage.boundary.result failed,rewriteResult failed,Stage.state.result failed⟩ lastIncludedIndex lastIncludedTerm).1
  | .saveHardState hs => (s.trySaveHardState (Stage.state.result failed) hs).1

variable {s : FileStorage}

theorem tryRun_none (s : FileStorage) (op : FileOp) : op.tryRun none s = op.run s := by
  cases op with
  | append entries =>
    simp only [tryRun,tryAppend,run,FileStorage.append,Stage.result]
    cases validateSuffix s.lastIndex s.lastTerm entries with
    | error e => rfl
    | ok _ => cases entries <;> simp
  | truncateFrom index =>
    simp only [tryRun,tryTruncateFrom,run,FileStorage.truncateFrom]
    split
    · rfl
    split
    · rfl
    · rename_i past
      rw [List.take_of_length_le (Nat.not_lt.mp past)]
  | compact upTo applied =>
    simp only [tryRun,tryCompact,run,FileStorage.compact,Stage.result]
    cases s.planCompaction upTo applied false with
    | error e => rfl
    | ok plan => cases compacted : plan.compacted <;> simp [compacted]
  | installSnapshot b t => exact congrArg Prod.fst (tryInstallSnapshot_ok s b t)
  | saveHardState hs => rfl

theorem tryRun_frames (s : FileStorage) (entries : List LogEntry) : (append entries).tryRun (some .frames) s = s := by
  simp only [tryRun,tryAppend,Stage.result]
  split
  · rfl
  · split <;> simp

theorem tryRun_boundary {b t : Nat} (reached : op.boundary s = some (b,t)) : op.tryRun (some .boundary) s = s := by
  cases op with
  | append | truncateFrom | saveHardState => cases reached
  | compact upTo applied =>
    simp only [tryRun,tryCompact,Stage.result]
    split
    · rfl
    · split <;> simp
  | installSnapshot b t =>
    simp only [tryRun,tryInstallSnapshot,Stage.result]
    split <;> simp

theorem tryRun_rewrite (at' : stage = .log ∨ stage = .reopen)
    (reached : op.rewritten s = some entries) : op.tryRun (some stage) s = op.changed s := by
  have first : Stage.boundary.result (some stage) = .ok () := by rcases at' with rfl | rfl <;> rfl
  have second : ∃ e, rewriteResult (some stage) = .error e := by rcases at' with rfl | rfl <;> exact ⟨_,rfl⟩
  obtain ⟨e,second⟩ := second
  cases op with
  | append | saveHardState => cases reached
  | truncateFrom index =>
    simp only [tryRun,tryTruncateFrom,changed,boundary,rewritten]
    split
    · rfl
    · split <;> rfl
  | compact upTo applied =>
    simp only [tryRun,tryCompact,changed,boundary,rewritten,first]
    cases s.planCompaction upTo applied false with
    | error e => rfl
    | ok plan => cases compacted : plan.compacted <;> simp [compacted]
  | installSnapshot b t =>
    simp only [tryRun,tryInstallSnapshot,changed,boundary,rewritten,first,second]
    split <;> rfl

theorem tryRun_state {hs : HardState} (reached : op.saved s = some hs) : op.tryRun (some .state) s = op.changed s := by
  cases op with
  | append | truncateFrom | compact => cases reached
  | installSnapshot b t =>
    simp only [saved] at reached
    simp only [tryRun,tryInstallSnapshot,changed,boundary,rewritten]
    split
    · rfl
    rename_i later
    rw [if_neg later] at reached
    split at reached
    · rename_i behind
      simp [Stage.result,rewriteResult,behind,bind,Except.bind]
    · cases reached
  | saveHardState hs => rfl

end FileOp

/-- What has become of the log: entries whose append returned Ok, and those that were taken away. -/
inductive LogEvent where
  | appended (entries : List LogEntry)
  | truncated (index : Nat)
  | covered (upTo : Nat)
  | replaced

def LogEvent.apply (held : List LogEntry) : LogEvent → List LogEntry
  | .appended entries => held ++ entries
  | .truncated index => held.filter fun e => decide (e.index < index)
  | .covered upTo => held.filter fun e => decide (e.index > upTo)
  | .replaced => []

def outstanding (shown : List LogEvent) : List LogEntry := shown.foldl LogEvent.apply []

namespace FileOp
open FileStorage

def events (failed : Option Stage) (s : FileStorage) : FileOp → List LogEvent
  | .append entries =>
    if failed ≠ some .frames ∧ validateSuffix s.lastIndex s.lastTerm entries = .ok () then [.appended entries] else []
  | .truncateFrom index => if index ≠ 0 ∧ index ≤ s.baseIndex then [] else [.truncated index]
  | .compact upTo applied =>
    if failed = some .boundary then []
    else (((compact upTo applied).boundary s).map fun at' => LogEvent.covered at'.1).toList
  | .installSnapshot b t =>
    if failed = some .boundary ∨ b ≤ s.baseIndex then []
    else if s.termAt b = some t then [.covered b] else [.replaced]
  | .saveHardState _ => []

end FileOp

theorem take_of_valid {lastIndex lastTerm : Nat}
    (valid : validateSuffix lastIndex lastTerm entries = .ok ()) (index : Nat) :
    entries.filter (fun e => decide (e.index < index)) = entries.take (index - lastIndex - 1) := by
  induction entries generalizing lastIndex lastTerm with
  | nil => simp
  | cons first rest ih =>
    obtain ⟨next,-,others⟩ := validateSuffix_cons.mp valid
    rw [List.filter_cons,ih others]
    rcases Nat.lt_or_ge (lastIndex + 1) index with inside | past
    · have some : index - lastIndex - 1 = index - (lastIndex + 1) - 1 + 1 := by omega
      rw [some,List.take_succ_cons,if_pos (by simp; omega)]
    · rw [if_neg (by simp; omega),Nat.sub_eq_zero_of_le (by omega : index - lastIndex ≤ 1),
        Nat.sub_eq_zero_of_le (by omega : index - (lastIndex + 1) ≤ 1),List.take_zero,List.take_zero]

structure OpenLog where
  mem : FileStorage
  disk : Disk RaftFile
  /-- The append handle is on the file that has the log's name. -/
  attached : Bool
  /-- A failed call may have left the log file out of step, and it was not rewritten since. -/
  dirty : Bool

namespace OpenLog

def fresh : OpenLog := ⟨{},LogDirectory.fresh.disk,true,false⟩

inductive LogAct where
  | done (op : FileOp)
  | fails (op : FileOp) (stage : Stage) (left : Disk RaftFile)
  | reopen

variable (codec : RaftCodec)

def rewrites (d : OpenLog) (op : FileOp) : Bool := (op.rewritten d.mem).isSome

def stillAttached (d : OpenLog) (op : FileOp) : Stage → Bool
  | .frames | .boundary | .log => d.attached
  | .reopen => false
  | .state => d.attached || d.rewrites op

def stillDirty (d : OpenLog) (op : FileOp) (left : Disk RaftFile) : Stage → Bool
  | .frames => d.dirty || left .log != d.disk .log
  | .boundary => d.dirty
  | .log | .reopen => true
  | .state => d.dirty && !d.rewrites op

def step (d : OpenLog) : LogAct → Option (OpenLog × List LogEvent)
  | .done op => some (⟨op.tryRun none d.mem,
      -- through a handle on the replaced file nothing reaches the log
      if op.isAppend && !d.attached then d.disk else run (op.steps codec d.mem) d.disk,
      d.attached || d.rewrites op,d.dirty && !d.rewrites op⟩,op.events none d.mem)
  | .fails op stage left => some (⟨op.tryRun (some stage) d.mem,left,d.stillAttached op stage,d.stillDirty op left stage⟩,
      op.events (some stage) d.mem)
  | .reopen => match openDirectory codec d.disk with
    | .error _ => none
    | .ok (mem,disk) => some (⟨mem,disk,true,d.dirty⟩,[])

/-- The stages before the failed one are done, and of its own steps a part. A rename that fails is not done. -/
def Fails (d : OpenLog) (op : FileOp) (left : Disk RaftFile) : Stage → Prop
  | .frames => ∃ entries, op = .append entries ∧ op.steps codec d.mem ≠ [] ∧
      if d.attached then Crash (op.steps codec d.mem) d.disk left else left = d.disk
  | .boundary => ∃ b t, op.boundary d.mem = some (b,t) ∧
      Crash (writeCompaction codec b t).dropLast d.disk left
  | .log => ∃ entries, op.rewritten d.mem = some entries ∧
      Crash (rewriteLog codec entries).dropLast (run (op.boundarySteps codec d.mem) d.disk) left
  | .reopen => (op.rewritten d.mem).isSome ∧
      left = run (op.logSteps codec d.mem) (run (op.boundarySteps codec d.mem) d.disk)
  | .state => ∃ hs, op.saved d.mem = some hs ∧ Crash (writeState codec hs).dropLast
      (run (op.logSteps codec d.mem) (run (op.boundarySteps codec d.mem) d.disk)) left

/-- What the store is after opening a log that is out of step is not followed further. -/
def Possible (d : OpenLog) : LogAct → Prop
  | .done op => op.Stored codec
  | .fails op stage left => op.Stored codec ∧ Fails codec d op left stage
  | .reopen => d.dirty = false

end OpenLog

theorem Stage.result_of_ne {failed : Option Stage} (other : failed ≠ some stage) :
    stage.result failed = .ok () := if_neg other

theorem FileOp.entries_events {s : FileStorage} (valid : validateSuffix s.baseIndex s.baseTerm s.entries = .ok ())
    (op : FileOp) (failed : Option Stage) :
    (op.tryRun failed s).entries = (op.events failed s).foldl LogEvent.apply s.entries := by
  cases op with
  | append entries =>
    simp only [tryRun,tryAppend,events]
    cases accepted : validateSuffix s.lastIndex s.lastTerm entries with
    | error e => simp
    | ok _ =>
      by_cases early : failed = some .frames
      · subst early
        cases entries <;> simp [Stage.result]
      · rw [Stage.result_of_ne early]
        cases entries <;> simp [early,LogEvent.apply]
  | truncateFrom index =>
    simp only [tryRun,tryTruncateFrom,events]
    split
    · rfl
    simp only [List.foldl_cons,List.foldl_nil,LogEvent.apply,take_of_valid valid]
    split
    · rfl
    · rename_i past
      exact (List.take_of_length_le (Nat.not_lt.mp past)).symm
  | compact upTo applied =>
    simp only [tryRun,tryCompact,events,boundary]
    cases s.planCompaction upTo applied false with
    | error e => simp
    | ok plan =>
      by_cases early : failed = some .boundary
      · subst early
        cases compacted : plan.compacted <;> simp [Stage.result,compacted]
      · rw [Stage.result_of_ne early]
        cases compacted : plan.compacted <;> simp [compacted,early,LogEvent.apply]
  | installSnapshot b t =>
    simp only [tryRun,tryInstallSnapshot,events]
    by_cases old : b ≤ s.baseIndex
    · simp [old]
    by_cases early : failed = some .boundary
    · subst early
      simp [Stage.result,old]
    have after : s.afterSnapshot b t =
        (if s.termAt b = some t then [LogEvent.covered b] else [.replaced]).foldl LogEvent.apply s.entries := by
      rw [afterSnapshot]
      split <;> rfl
    simp only [Stage.result_of_ne early,early,old,or_self,if_false,← after]
    cases rewriteResult failed with
    | error e => rfl
    | ok _ =>
      dsimp only
      split
      · cases Stage.state.result failed <;> rfl
      · rfl
  | saveHardState hs =>
    simp only [tryRun,trySaveHardState,events]
    cases Stage.state.result failed <;> rfl

namespace OpenLog
open FileStorage

structure InStep (codec : RaftCodec) (d : OpenLog) : Prop where
  kept : Kept codec d.disk d.mem
  clean : d.dirty = false → d.attached = true ∧ d.disk .log = some (codec.entry.frames d.mem.entries)

variable {codec : RaftCodec} {d u : OpenLog} {shown : List LogEvent}

theorem crash_append {disk left : Disk RaftFile} {s : FileStorage} {file : RaftFile}
    (crash : Crash ((FileOp.append entries).steps codec s) disk left) (other : file ≠ .log) : left file = disk file := by
  simp only [FileOp.steps] at crash
  split at crash
  · cases crash
    rfl
  · split at crash
    · cases crash
      rfl
    · cases crash with
      | stop => rfl
      | torn => simp [extend,other]
      | next later =>
        cases later
        simp [Step.run,extend,other]

theorem InStep.settled (inStep : InStep codec d) {log : Prop}
    (written : (op.rewritten d.mem).isSome ∨ d.disk .log = some (codec.entry.frames d.mem.entries) → log)
    (clean : (d.dirty && !d.rewrites op) = false) : (d.attached || d.rewrites op) = true ∧ log := by
  cases rewrote : d.rewrites op with
  | true => exact ⟨by simp,written (.inl rewrote)⟩
  | false =>
    obtain ⟨attached,same⟩ := inStep.clean (by simpa [rewrote] using clean)
    exact ⟨by simp [attached],written (.inr same)⟩

section
variable (lawful : codec.Lawful) (inStep : InStep codec d)
include lawful inStep

theorem InStep.append (stored : ∀ e ∈ entries, codec.entry.Stores e)
    (taken : d.step codec (.done (.append entries)) = some (u,shown)) : InStep codec u := by
  obtain rfl := (Prod.mk.inj (Option.some.inj taken)).1
  have kept := inStep.kept.append stored
  rw [tryRun_none]
  refine ⟨?_,?_⟩
  · split
    · exact kept
    · have ran := Crash.done ((append entries).steps codec d.mem) d.disk
      exact kept.congr (crash_append ran (by decide)) (crash_append ran (by decide))
  · intro settled
    have clean : d.dirty = false := by simpa [rewrites,rewritten] using settled
    obtain ⟨attached,log⟩ := inStep.clean clean
    simp only [attached,Bool.not_true,Bool.and_false,Bool.false_eq_true,if_false,Bool.true_or,true_and]
    have known : (append entries).Stored codec := stored
    exact (completes lawful (inStep.kept.left log) known).whole

theorem InStep.done (stored : op.Stored codec)
    (taken : d.step codec (.done op) = some (u,shown)) : InStep codec u := by
  rcases op.append_or_other with ⟨entries,rfl⟩ | other
  · exact inStep.append lawful stored taken
  obtain rfl := (Prod.mk.inj (Option.some.inj taken)).1
  obtain ⟨kept,log⟩ := inStep.kept.saved lawful op
  rw [tryRun_none,run_eq other,steps_eq codec d.mem other,run_append,run_append,other]
  exact ⟨kept,inStep.settled log⟩

theorem InStep.fails {left : Disk RaftFile} (failed : Fails codec d op left stage)
    (taken : d.step codec (.fails op stage left) = some (u,shown)) : InStep codec u := by
  obtain rfl := (Prod.mk.inj (Option.some.inj taken)).1
  cases stage with
  | frames =>
    obtain ⟨entries,rfl,_,reached⟩ := failed
    have others (file : RaftFile) (other : file ≠ .log) : left file = d.disk file := by
      split at reached
      · exact crash_append reached other
      · rw [reached]
    rw [tryRun_frames]
    refine ⟨inStep.kept.congr (others _ (by decide)) (others _ (by decide)),?_⟩
    intro settled
    simp only [stillDirty,Bool.or_eq_false_iff,bne_eq_false_iff_eq] at settled
    obtain ⟨attached,log⟩ := inStep.clean settled.1
    exact ⟨attached,settled.2.trans log⟩
  | boundary =>
    obtain ⟨b,t,reached,crash⟩ := failed
    have others := crash.replace_dropLast
    rw [tryRun_boundary reached]
    refine ⟨inStep.kept.congr (others _ (by decide)) (others _ (by decide)),?_⟩
    intro settled
    obtain ⟨attached,log⟩ := inStep.clean settled
    exact ⟨attached,(others _ (by decide)).trans log⟩
  | log =>
    obtain ⟨entries,reached,crash⟩ := failed
    have others := crash.replace_dropLast
    rw [tryRun_rewrite (.inl rfl) reached]
    refine ⟨(inStep.kept.changed lawful op).1.congr (others _ (by decide)) (others _ (by decide)),?_⟩
    intro settled
    cases settled
  | reopen =>
    obtain ⟨reached,rfl⟩ := failed
    obtain ⟨entries,reached⟩ := Option.isSome_iff_exists.mp reached
    rw [tryRun_rewrite (.inr rfl) reached]
    refine ⟨(inStep.kept.rewritten lawful op).1,?_⟩
    intro settled
    cases settled
  | state =>
    obtain ⟨hs,reached,crash⟩ := failed
    have others := crash.replace_dropLast
    obtain ⟨kept,log⟩ := inStep.kept.rewritten lawful op
    rw [tryRun_state reached]
    refine ⟨kept.congr (others _ (by decide)) (others _ (by decide)),inStep.settled fun rewrote => ?_⟩
    exact (others _ (by decide)).trans (log rewrote)

end

theorem InStep.opens (inStep : InStep codec d) (clean : d.dirty = false)
    (small : (codec.entry.frames d.mem.entries).length < 2^64) :
    ∃ disk, openDirectory codec d.disk = .ok (d.mem,disk) := by
  rcases (inStep.kept.left (inStep.clean clean).2).opens with ⟨reason,-,large⟩ | ⟨disk,opened,-⟩
  · exact absurd (large rfl) (Nat.not_le.mpr small)
  · exact ⟨disk,opened⟩

theorem InStep.reopen (inStep : InStep codec d) (clean : d.dirty = false)
    (taken : d.step codec .reopen = some (u,shown)) : InStep codec u ∧ u.mem = d.mem ∧ shown = [] := by
  rcases (inStep.kept.left (inStep.clean clean).2).opens with ⟨reason,failed,-⟩ | ⟨disk,opened,left⟩
  · simp [step,failed] at taken
  · simp only [step,opened,Option.some.injEq,Prod.mk.injEq] at taken
    obtain ⟨rfl,rfl⟩ := taken
    exact ⟨⟨left.kept,fun _ => ⟨rfl,left.whole⟩⟩,rfl,rfl⟩

theorem outstanding_append (before now : List LogEvent) :
    outstanding (before ++ now) = now.foldl LogEvent.apply (outstanding before) := List.foldl_append ..

theorem inStep_run (lawful : codec.Lawful) (run : Library.Run (step codec) (Possible codec) fresh shown d) :
    InStep codec d ∧ d.mem.entries = outstanding shown := by
  refine run.invariant (fun shown d => InStep codec d ∧ d.mem.entries = outstanding shown) ?_ ?_
  · exact ⟨⟨⟨rfl,rfl,rfl,by simp [fresh]⟩,fun _ => ⟨rfl,rfl⟩⟩,rfl⟩
  · rintro before t act u now ⟨inStep,held⟩ possible taken
    cases act with
    | done op =>
      refine ⟨inStep.done lawful possible taken,?_⟩
      obtain ⟨rfl,rfl⟩ := Prod.mk.inj (Option.some.inj taken)
      rw [outstanding_append,← held]
      exact op.entries_events inStep.kept.valid none
    | fails op stage left =>
      refine ⟨inStep.fails lawful possible.2 taken,?_⟩
      obtain ⟨rfl,rfl⟩ := Prod.mk.inj (Option.some.inj taken)
      rw [outstanding_append,← held]
      exact op.entries_events inStep.kept.valid (some stage)
    | reopen =>
      obtain ⟨after,same,rfl⟩ := inStep.reopen possible taken
      exact ⟨after,by rw [same,List.append_nil,held]⟩

end OpenLog

/-- Calls may fail at any file step. Once the log was rewritten after the last failure that left it out of step,
it opens to the log in memory, which holds all appended entries that were not truncated or covered since. -/
theorem failed_calls_survive {codec : RaftCodec} (lawful : codec.Lawful) {shown : List LogEvent} {d : OpenLog}
    (run : Library.Run (OpenLog.step codec) (OpenLog.Possible codec) .fresh shown d) (settled : d.dirty = false)
    (small : (codec.entry.frames d.mem.entries).length < 2^64) :
    ∃ disk, FileStorage.openDirectory codec d.disk = .ok (d.mem,disk) ∧ d.mem.entries = outstanding shown := by
  obtain ⟨inStep,held⟩ := OpenLog.inStep_run lawful run
  obtain ⟨disk,opened⟩ := inStep.opens settled small
  exact ⟨disk,opened,held⟩

namespace OpenLog

def failedAppend (count : Nat) : LogAct :=
  .fails (.append twoEntries) .frames (extend fresh.disk .log ((plainCodec.entry.frames twoEntries).take count))

theorem exists_after_failedAppend (count : Nat) (ops : List FileOp) (P : OpenLog → List LogEvent → Prop)
    (stored : ∀ op ∈ ops, op.Stored plainCodec)
    (found : ∃ p ∈ Library.steps (step plainCodec) fresh (failedAppend count::ops.map .done), P p.1 p.2) :
    ∃ d shown, Library.Run (step plainCodec) (Possible plainCodec) fresh shown d ∧ P d shown := by
  have possible : Possible plainCodec fresh (failedAppend count) := by
    refine ⟨twoEntries_stored,twoEntries,rfl,by decide +kernel,?_⟩
    exact .torn RaftFile.log (plainCodec.entry.frames twoEntries) count [] fresh.disk
  have later : ∀ act ∈ ops.map LogAct.done, ∀ t, Possible plainCodec t act := by
    intro act planned t
    obtain ⟨op,inside,rfl⟩ := List.mem_map.mp planned
    exact stored op inside
  obtain ⟨⟨d,shown⟩,taken,holds⟩ := found
  exact ⟨d,shown,.of_along (_::_) ⟨possible,fun t _ _ => Library.Run.along_of_all _ later t⟩ taken,holds⟩

end OpenLog

theorem failed_calls_survive_truncated : ∃ d shown disk,
    Library.Run (OpenLog.step plainCodec) (OpenLog.Possible plainCodec) .fresh shown d ∧
      d.mem.entries = [⟨1,1,.noop⟩,⟨2,2,.noop⟩] ∧
      FileStorage.openDirectory plainCodec d.disk = .ok (d.mem,disk) ∧ d.mem.entries = outstanding shown := by
  have new : plainCodec.entry.Stores ⟨2,2,.noop⟩ := ⟨rfl,by decide⟩
  obtain ⟨d,shown,run,held,settled,small⟩ := OpenLog.exists_after_failedAppend 20
    [.append twoEntries,.truncateFrom 2,.append [⟨2,2,.noop⟩]]
    (fun d _ => d.mem.entries = [⟨1,1,.noop⟩,⟨2,2,.noop⟩] ∧ d.dirty = false ∧
      (plainCodec.entry.frames d.mem.entries).length < 2^64)
    (by simpa [FileOp.Stored] using ⟨twoEntries_stored,new⟩) (by decide +kernel)
  obtain ⟨disk,opened,same⟩ := failed_calls_survive plainCodec_lawful run settled small
  exact ⟨d,shown,disk,run,held,opened,same⟩

/-- The bytes of an append whose sync failed stay in the log: once the same entries are appended the log no
longer opens. -/
theorem retried_append_unreadable : ∃ d shown,
    Library.Run (OpenLog.step plainCodec) (OpenLog.Possible plainCodec) .fresh shown d ∧
      d.mem.entries = twoEntries ∧ outstanding shown = twoEntries ∧
      (FileStorage.openDirectory plainCodec d.disk).toOption = none := by
  obtain ⟨d,shown,run,held,appended,failed⟩ := OpenLog.exists_after_failedAppend
    (plainCodec.entry.frames twoEntries).length [.append twoEntries] (fun d shown => d.mem.entries = twoEntries ∧
      outstanding shown = twoEntries ∧ (FileStorage.openDirectory plainCodec d.disk).toOption.isNone = true)
    (by simpa [FileOp.Stored] using twoEntries_stored) (by decide +kernel)
  exact ⟨d,shown,run,held,appended,Option.isNone_iff_eq_none.mp failed⟩

end AuraDb.Raft
