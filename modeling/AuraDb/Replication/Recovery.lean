import AuraDb.Engine.Replicated
import AuraDb.Replication.Convergence

/-! Recovery of a node: each start replays the committed entries that its log retains
into an engine that has applied them before. -/
namespace AuraDb.Replication
open Std Raft RaftStorage LawfulRaftStorage
variable {entry : LogEntry} {command : DatabaseCommand}

inductive Recovered where
  | complete
  | undecodable (index : Nat)
  | stopped (index : Nat) (outcome : Outcome Unit)

section Model
variable [Host]

/-- The loop of `recover` over the indexes; a compacted one has no entry. -/
def recoverAt (decode : Command → Option DatabaseCommand) (entryAt : Nat → Option LogEntry) (commitTsBase : Nat) :
    List Nat → Engine → Engine × Recovered
  | [], e => (e,.complete)
  | index::rest, e => match entryAt index with
    | none => recoverAt decode entryAt commitTsBase rest e
    | some entry => match decode entry.command with
      | none => (e,.undecodable index)
      | some command => match e.applyCommand (.ok ()) (.ok ()) command (commitTsBase + index) with
        | (e,.ok ()) => recoverAt decode entryAt commitTsBase rest e
        | (e,outcome) => (e,.stopped index outcome)

def recover (decode : Command → Option DatabaseCommand) (s : FileStorage) (commitTsBase commitIndex : Nat) (e : Engine) :
    Engine × Recovered :=
  recoverAt decode s.entryAt commitTsBase (List.range' 1 commitIndex) e

structure Replica where
  engine : Engine
  commitTsBase : Nat
  storage : FileStorage

inductive ReplicaAct where
  | commit (entry : LogEntry)
  | compact (upTo : Nat)
  | restart (options : EngineOptions) (stats : PlannerStats)

/-- What a run shows: each recovery, with the engine it began and ended with. -/
inductive ReplicaEvent where
  | recovered (before after : Engine) (how : Recovered)

namespace Replica

def commitIndex (r : Replica) : Nat := r.storage.hardState.commitIndex

def commit (decode : Command → Option DatabaseCommand) (r : Replica) (entry : LogEntry) : Option Replica :=
  match r.storage.append [entry], decode entry.command with
  | (storage,.ok ()), some command =>
    match r.engine.applyCommand (.ok ()) (.ok ()) command (r.commitTsBase + entry.index) with
    | (engine,.ok ()) => some { r with
        engine := engine
        storage := { storage with hardState := { storage.hardState with commitIndex := entry.index } } }
    | _ => none
  | _, _ => none

def restart (decode : Command → Option DatabaseCommand) (r : Replica) (options : EngineOptions) (stats : PlannerStats) :
    Option (Replica × List ReplicaEvent) :=
  match Engine.openWith r.engine.storage options stats with
  | .error _ => none
  | .ok e =>
    let (e',how) := recover decode r.storage r.commitTsBase r.commitIndex e
    some ({ r with engine := e' },[.recovered e e' how])

def step (decode : Command → Option DatabaseCommand) (r : Replica) : ReplicaAct → Option (Replica × List ReplicaEvent)
  | .commit entry => (r.commit decode entry).map (fun r => (r,[]))
  | .compact upTo => some ({ r with storage := (r.storage.compact upTo r.commitIndex).1 },[])
  | .restart options stats => r.restart decode options stats

end Replica

def Repeatable (decode : Command → Option DatabaseCommand) (r : Replica) : ReplicaAct → Prop
  | .restart _ _ => ∀ index entry command, r.storage.entryAt index = some entry →
      decode entry.command = some command → r.engine.Replayable command
  | _ => True

end Model

section Runs
variable {decode : Command → Option DatabaseCommand}

def commandsOf (decode : Command → Option DatabaseCommand) (entries : List LogEntry) : List DatabaseCommand :=
  entries.filterMap (fun entry => decode entry.command)

theorem commandsOf_cons (decoded : decode entry.command = some command)
    (rest : List LogEntry) : commandsOf decode (entry::rest) = command::commandsOf decode rest := by
  simp [commandsOf,decoded]

theorem commandsOf_append (entries more : List LogEntry) :
    commandsOf decode (entries ++ more) = commandsOf decode entries ++ commandsOf decode more :=
  List.filterMap_append

variable [Host] {e : Engine}

theorem recoverAt_again {entryAt : Nat → Option LogEntry} {commitTsBase : Nat} (indexes : List Nat)
    (ok : e.storage.WellFormed)
    (again : ∀ index ∈ indexes, ∀ entry, entryAt index = some entry → ∃ command, decode entry.command = some command ∧
      e.Settled (commitTsBase + index) command ∧ e.Replayable command) :
    ∃ e', recoverAt decode entryAt commitTsBase indexes e = (e',.complete) ∧ e'.storage.WellFormed ∧
      Engine.SameData e e' ∧ e'.storage.schemas =
        DatabaseCommand.declareAll (commandsOf decode (indexes.filterMap entryAt)) e.storage.schemas := by
  induction indexes generalizing e with
  | nil => exact ⟨e,rfl,ok,⟨fun _ => rfl,rfl⟩,rfl⟩
  | cons index rest ih =>
    cases found : entryAt index with
    | none =>
      obtain ⟨e',done,kept⟩ := ih ok (fun index inside => again index (List.mem_cons_of_mem _ inside))
      refine ⟨e',?_,?_⟩
      · simpa only [recoverAt,found] using done
      · rwa [List.filterMap_cons_none found]
    | some entry =>
      obtain ⟨command,decoded,settled,replayable⟩ := again index List.mem_cons_self entry found
      obtain ⟨mid,applied,same⟩ := Engine.applyCommand_again ok settled replayable
      have applies := Engine.applyCommand_applies ok applied
      obtain ⟨e',done,wellFormed,later,catalog⟩ := ih applies.wellFormed (by
        intro index inside entry found
        obtain ⟨command,decoded,settled,replayable⟩ := again index (List.mem_cons_of_mem _ inside) entry found
        exact ⟨command,decoded,settled.mono applies.later,same.replayable replayable⟩)
      refine ⟨e',?_,wellFormed,same.trans later,?_⟩
      · simpa only [recoverAt,found,decoded,applied] using done
      · rw [catalog,applies.catalog,List.filterMap_cons_some found,commandsOf_cons decoded]
        rfl

/-- The engine has applied every entry of the log, the compacted ones included. -/
structure CaughtUp (decode : Command → Option DatabaseCommand) (first : ExtTreeMap String CollectionSchema compare)
    (r : Replica) (log : List LogEntry) : Prop where
  retains : r.storage.Retains log
  commit : r.commitIndex = log.length
  wellFormed : r.engine.storage.WellFormed
  decodes : ∀ entry ∈ log, ∃ command, decode entry.command = some command ∧
    r.engine.Settled (r.commitTsBase + entry.index) command
  catalog : r.engine.storage.schemas = DatabaseCommand.declareAll (commandsOf decode log) first

variable {first : ExtTreeMap String CollectionSchema compare} {r r' : Replica} {log : List LogEntry}
section
variable (caught : CaughtUp decode first r log)
include caught

theorem CaughtUp.commit_next
    (taken : r.commit decode entry = some r') : CaughtUp decode first r' (log ++ [entry]) := by
  unfold Replica.commit at taken
  split at taken
  swap
  · cases taken
  rename_i storage command appended decoded
  split at taken
  swap
  · cases taken
  rename_i engine applied
  cases taken
  have next : entry.index = log.length + 1 := by
    by_contra gap
    have held : LawfulRaftStorage.Holds r.storage log := caught.retains
    obtain ⟨err,refused⟩ := append_gap held gap
    cases appended.symm.trans refused
  have grown : storage = { r.storage with entries := r.storage.entries ++ [entry] } := by
    unfold FileStorage.append at appended
    split at appended
    · cases appended
    · cases appended
      rfl
  subst grown
  have applies := Engine.applyCommand_applies caught.wellFormed applied
  have held := caught.retains.append next
  refine ⟨{ held with },?_,applies.wellFormed,?_,?_⟩
  · simp [Replica.commitIndex,next]
  · intro old inside
    rcases List.mem_append.mp inside with before | now
    · obtain ⟨command,decoded,settled⟩ := caught.decodes old before
      exact ⟨command,decoded,settled.mono applies.later⟩
    · obtain rfl := List.mem_singleton.mp now
      exact ⟨command,decoded,applies.settled⟩
  · rw [applies.catalog,caught.catalog,commandsOf_append,commandsOf_cons decoded,DatabaseCommand.declareAll_append]
    rfl

theorem CaughtUp.recovers (opened : e.storage = r.engine.storage)
    (repeatable : ∀ index entry command, r.storage.entryAt index = some entry → decode entry.command = some command →
      r.engine.Replayable command) : ∃ e', recover decode r.storage r.commitTsBase r.commitIndex e = (e',.complete) ∧
      CaughtUp decode first { r with engine := e' } log ∧ Engine.SameData e e' ∧
      e'.storage.schemas = e.storage.schemas := by
  have retained : (List.range' 1 r.commitIndex).filterMap r.storage.entryAt = log.drop r.storage.baseIndex := by
    have low : LawfulRaftStorage.base r.storage ≤ r.commitIndex := caught.commit ▸ caught.retains.base_le
    have range := entries_upto caught.retains (cleared_file r.storage) low (Nat.le_of_eq caught.commit)
    rw [List.take_of_length_le (Nat.le_of_eq caught.commit.symm)] at range
    exact range
  have ready : ∀ index ∈ List.range' 1 r.commitIndex, ∀ entry, r.storage.entryAt index = some entry →
      ∃ command, decode entry.command = some command ∧ e.Settled (r.commitTsBase + index) command ∧
        e.Replayable command := by
    intro index inside entry found
    have same : Engine.SameData r.engine e := ⟨fun c => by rw [opened],by rw [opened]⟩
    have position : index - 1 + 1 = index := by
      have positive := (List.mem_range'_1.mp inside).1
      omega
    have place : log[index - 1]? = some entry := by
      by_cases cut : index ≤ r.storage.baseIndex
      · have none : r.storage.entryAt index = none := cleared_file r.storage index (by omega) cut
        cases none.symm.trans found
      · have here : r.storage.entryAt index = log[index - 1]? := caught.retains.slot (Nat.not_le.mp cut)
        exact here.symm.trans found
    obtain ⟨command,decoded,settled⟩ := caught.decodes entry (List.mem_of_getElem? place)
    rw [caught.retains.numbered _ entry place,position] at settled
    exact ⟨command,decoded,settled.mono (Nat.le_of_eq same.watermark.symm),
      same.replayable (repeatable index entry command found decoded)⟩
  obtain ⟨e',done,wellFormed,same,catalog⟩ := recoverAt_again _ (opened ▸ caught.wellFormed) ready
  -- the retained commands have the last word on the catalog, now as before
  have settled : e'.storage.schemas = e.storage.schemas := by
    have split := List.take_append_drop r.storage.baseIndex log
    rw [catalog,retained,opened,caught.catalog]
    rw [← split,commandsOf_append,DatabaseCommand.declareAll_append,split]
    exact DatabaseCommand.declareAll_again ..
  refine ⟨e',done,⟨caught.retains,caught.commit,wellFormed,?_,?_⟩,same,settled⟩
  · intro entry inside
    obtain ⟨command,decoded,settled⟩ := caught.decodes entry inside
    have later : r.engine.storage.commitWatermark ≤ e'.storage.commitWatermark := by rw [same.watermark,opened]
    exact ⟨command,decoded,settled.mono later⟩
  · rw [settled,opened]
    exact caught.catalog

theorem CaughtUp.step {act : ReplicaAct} {now : List ReplicaEvent}
    (repeatable : Repeatable decode r act) (taken : r.step decode act = some (r',now)) :
    (∃ log', CaughtUp decode first r' log') ∧ ∀ before after how, .recovered before after how ∈ now →
      how = .complete ∧ Engine.SameData before after ∧ after.storage.schemas = before.storage.schemas := by
  cases act with
  | commit entry =>
    obtain ⟨next,done,same⟩ := Option.map_eq_some_iff.mp taken
    cases same
    exact ⟨⟨_,caught.commit_next done⟩,by simp⟩
  | compact upTo =>
    cases taken
    obtain ⟨retains,hardState,-⟩ := caught.retains.compact upTo r.commitIndex
    refine ⟨⟨log,{ caught with retains, commit := ?_ }⟩,by simp⟩
    exact (congrArg HardState.commitIndex hardState).trans caught.commit
  | restart options stats =>
    simp only [Replica.step,Replica.restart] at taken
    split at taken
    · cases taken
    rename_i e opened
    obtain ⟨e',done,caught',same,catalog⟩ := caught.recovers (Engine.storage_openWith opened) repeatable
    rw [done] at taken
    cases taken
    refine ⟨⟨log,caught'⟩,?_⟩
    intro before after how inside
    cases List.mem_singleton.mp inside
    exact ⟨rfl,same,catalog⟩

end

end Runs

/-- As long as the log holds only commands that can be repeated, each recovery succeeds and leaves schemas, live
records and watermark as they were. -/
theorem recovery_idempotent [Host] (decode : Command → Option DatabaseCommand) (engine : Engine)
    (ok : engine.storage.WellFormed) (commitTsBase : Nat) {events : List ReplicaEvent} {r : Replica}
    (run : Library.Run (Replica.step decode) (Repeatable decode) ⟨engine,commitTsBase,{}⟩ events r)
    {before after : Engine} {how : Recovered} (shown : .recovered before after how ∈ events) :
    how = .complete ∧ after.storage.schemas = before.storage.schemas ∧
      (∀ c i, after.storage.get c i = before.storage.get c i) ∧
      after.storage.commitWatermark = before.storage.commitWatermark := by
  have started : CaughtUp decode engine.storage.schemas ⟨engine,commitTsBase,{}⟩ [] :=
    ⟨⟨by simp [Raft.Numbered],le_rfl,rfl,rfl⟩,rfl,ok,by simp,rfl⟩
  have along := run.invariant (fun events r => (∃ log, CaughtUp decode engine.storage.schemas r log) ∧
      ∀ before after how, .recovered before after how ∈ events →
        how = .complete ∧ Engine.SameData before after ∧ after.storage.schemas = before.storage.schemas)
    ⟨⟨[],started⟩,by simp⟩ ?_
  · obtain ⟨complete,same,catalog⟩ := along.2 before after how shown
    exact ⟨complete,catalog,fun c i => congrFun (same.live c) i,same.watermark⟩
  · rintro events r act r' now ⟨⟨log,caught⟩,kept⟩ repeatable taken
    obtain ⟨next,fine⟩ := caught.step repeatable taken
    refine ⟨next,?_⟩
    intro before after how inside
    rcases List.mem_append.mp inside with old | new
    · exact kept before after how old
    · exact fine before after how new

def decodeItem (command : Command) : Option DatabaseCommand :=
  match command.payload with
  | [0] => some (.schema (.create (Engine.items false)))
  | [1] => some (.schema (.drop "Item"))
  | [n] => some (.write (itemBatch n.toNat))
  | _ => some .noop

def commandEntry (index : Nat) (payload : UInt8) : LogEntry := ⟨1,index,.new .database [payload]⟩

def itemReplica : Replica := ⟨⟨⟨∅,∅,0,0⟩,∅,1,∅,60,0,1,∅⟩,0,{}⟩

def dropless (r : Replica) : ReplicaAct → Bool
  | .restart _ _ => r.storage.entries.all (fun entry => decide (entry.command.payload ≠ [1]))
  | _ => true

theorem replayable_item [Host] (e : Engine)
    (decoded : decodeItem entry.command = some command) (kept : entry.command.payload ≠ [1]) : e.Replayable command := by
  unfold decodeItem at decoded
  split at decoded
  · cases decoded
    intro f unique
    simp [Engine.items,CollectionSchema.isUniqueField] at unique
  · rename_i drops
    exact absurd drops kept
  · cases decoded
    trivial
  · cases decoded
    trivial

theorem dropless_sound [Host] (r : Replica) (act : ReplicaAct) (passed : dropless r act = true) :
    Repeatable decodeItem r act := by
  cases act with
  | restart options stats =>
    intro index entry command found decoded
    obtain ⟨slot,-,inside⟩ := Option.bind_eq_some_iff.mp found
    have kept := of_decide_eq_true (List.all_eq_true.mp passed entry (List.mem_of_getElem? inside))
    exact replayable_item r.engine decoded kept
  | _ => trivial

def recoversItem (i : RecordId) (lost : Bool) : ReplicaEvent → Bool
  | .recovered e e' .complete => decide ((e.storage.get "Item" i).isSome ∧ (e'.storage.get "Item" i).isNone = lost)
  | _ => false

theorem exists_of_recoversItem {events : List ReplicaEvent} {i : RecordId} {lost : Bool}
    (any : events.any (recoversItem i lost) = true) : ∃ before after, .recovered before after .complete ∈ events ∧
      (before.storage.get "Item" i).isSome ∧ (after.storage.get "Item" i).isNone = lost := by
  obtain ⟨event,inside,hit⟩ := List.any_eq_true.mp any
  unfold recoversItem at hit
  split at hit
  · rename_i before after
    exact ⟨before,after,inside,of_decide_eq_true hit⟩
  · cases hit

theorem recovery_idempotent_item : ∃ events r before after,
    Library.Run (@Replica.step plainHost decodeItem) (@Repeatable plainHost decodeItem) itemReplica events r ∧
    .recovered before after .complete ∈ events ∧ (before.storage.get "Item" 2).isSome ∧
    after.storage.schemas = before.storage.schemas ∧
    ∀ c i, after.storage.get c i = before.storage.get c i := by
  obtain ⟨r,events,run,any⟩ := @Library.Run.exists_of_guarded _ _ _ (@Replica.step plainHost decodeItem)
    (@Repeatable plainHost decodeItem) [.commit (commandEntry 1 0),.commit (commandEntry 2 1),.commit (commandEntry 3 0),
      .commit (commandEntry 4 2),.compact 2,.restart ⟨60,1⟩ ∅,.restart ⟨60,1⟩ ∅] itemReplica dropless
    (fun _ events => events.any (recoversItem 2 false) = true) (by decide +kernel)
    (fun r act _ => @dropless_sound plainHost r act)
  obtain ⟨before,after,inside,there,-⟩ := exists_of_recoversItem any
  obtain ⟨-,catalog,live,-⟩ := @recovery_idempotent plainHost decodeItem itemReplica.engine Storage.wellFormed_empty 0
    events r run before after .complete inside
  exact ⟨events,r,before,after,run,inside,there,catalog,live⟩

/-- The log still has the drop of a collection when the node starts again, and the item written since is gone.
-/
theorem recovery_loses_item : ∃ events r before after,
    Library.Run (@Replica.step plainHost decodeItem) (fun _ _ => True) itemReplica events r ∧
    .recovered before after .complete ∈ events ∧ (before.storage.get "Item" 3).isSome ∧
    (after.storage.get "Item" 3).isNone := by
  obtain ⟨r,events,run,any⟩ := Library.Run.exists_free (@Replica.step plainHost decodeItem)
    [.commit (commandEntry 1 0),.commit (commandEntry 2 2),.commit (commandEntry 3 1),.commit (commandEntry 4 0),
      .commit (commandEntry 5 3),.restart ⟨60,1⟩ ∅] itemReplica (fun _ events => events.any (recoversItem 3 true) = true)
    (by decide +kernel)
  obtain ⟨before,after,inside,there,gone⟩ := exists_of_recoversItem any
  exact ⟨events,r,before,after,run,inside,there,gone⟩

end AuraDb.Replication
