import AuraDb.Engine.Restore
import AuraDb.Library.DependencyOrder
import AuraDb.Library.Lines

/-! The `dump` and `restore` commands: a file of lines, schemas before records, with the collections in an order
of dependency, and the loop that applies it to an engine. -/
namespace AuraDb.Cli
open Std Library Library.Framing Library.Lines Engine Relation

inductive DumpLine where
  | schema (schema : CollectionSchema)
  | record (collection : String) (fields : Document)
  deriving DecidableEq

/-- The JSON of a line, and what `restore` asks of a line before it parses it. -/
structure DumpCodec where
  write : DumpLine → Bytes
  read : Bytes → Except String DumpLine
  isUtf8 : Bytes → Bool
  isBlank : Bytes → Bool

inductive CliError where
  | message (text : String)
  | engine (err : Error)
  | panicked (text : String)
  deriving DecidableEq

def maxRestoreLineBytes : Nat := 64*1024*1024

/-- A schema can be placed once the targets of its relationships are, itself and those outside the set apart. -/
def isReady (names : List String) (placed : List CollectionSchema) (schema : CollectionSchema) : Bool :=
  schema.relationships.all (fun r =>
    r.target == schema.name || !names.contains r.target || (placed.map (·.name)).contains r.target)

def orderSchemasByDependency (schemas : List CollectionSchema) : List CollectionSchema :=
  DependencyOrder.order (isReady (schemas.map (·.name))) [] schemas

def DependsOn (schemas : List CollectionSchema) (schema target : CollectionSchema) : Prop :=
  schema ∈ schemas ∧ target ∈ schemas ∧ target.name ≠ schema.name ∧ ∃ r ∈ schema.relationships, r.target = target.name

/-- The order is one of the same schemas, and a schema that reaches no cycle of several schemas comes after all
that it depends on. -/
theorem schemas_ordered (schemas : List CollectionSchema) (distinct : (schemas.map (·.name)).Nodup) :
    (orderSchemasByDependency schemas).Perm schemas ∧ ∀ schema ∈ schemas,
      (∀ other, ReflTransGen (DependsOn schemas) schema other → ¬TransGen (DependsOn schemas) other other) →
      ∃ before after, orderSchemasByDependency schemas = before ++ schema::after ∧
        ∀ target, DependsOn schemas schema target → target ∈ before := by
  have perm := @DependencyOrder.order_perm _ (isReady (schemas.map (·.name))) [] schemas
  obtain ⟨front,left,split,closed,waits⟩ := @DependencyOrder.order_split _
    (isReady (schemas.map (·.name))) [] schemas (fun before x after split => by simp at split)
  have same : (front ++ left).Perm schemas := split ▸ perm
  have named (s t : CollectionSchema) (first : s ∈ schemas) (second : t ∈ schemas) (one : s.name = t.name) : s = t :=
    List.inj_on_of_nodup_map distinct first second one
  refine ⟨perm,fun schema inside acyclic => ?_⟩
  -- what is left waits for something else that is left, so it reaches a cycle
  have placed : schema ∈ front := by
    rcases List.mem_append.mp (same.mem_iff.mpr inside) with placed | held
    · exact placed
    refine absurd ?_ (not_exists.mpr fun other => not_and.mpr (acyclic other))
    refine DependencyOrder.exists_cycle (fun s isLeft => ?_) held
    have stuck := waits s isLeft
    simp only [isReady,List.all_eq_false,Bool.or_eq_true,beq_iff_eq,Bool.not_eq_true',List.contains_eq_mem,
      decide_eq_true_eq,decide_eq_false_iff_not,not_or,not_not] at stuck
    obtain ⟨r,listed,⟨notSelf,known⟩,unplaced⟩ := stuck
    obtain ⟨t,member,isTarget⟩ := List.mem_map.mp known
    refine ⟨t,?_,same.mem_iff.mp (by simp [isLeft]),member,
      fun one => notSelf (isTarget.symm.trans one),r,listed,isTarget.symm⟩
    rcases List.mem_append.mp (same.mem_iff.mpr member) with early | late
    · exact absurd (List.mem_map.mpr ⟨t,early,isTarget⟩) unplaced
    · exact late
  obtain ⟨before,after,rfl⟩ := List.append_of_mem placed
  refine ⟨before,after ++ left,by rw [orderSchemasByDependency,split]; simp,?_⟩
  rintro target ⟨_,member,notSelf,r,listed,isTarget⟩
  have isReady := List.all_eq_true.mp (closed before schema after rfl) r listed
  have known : r.target ∈ schemas.map (·.name) := List.mem_map.mpr ⟨target,member,isTarget.symm⟩
  simp only [isTarget,Bool.or_eq_true,beq_iff_eq,notSelf,List.contains_eq_mem,Bool.not_eq_true',
    decide_eq_false_iff_not,isTarget ▸ known,not_true,false_or,decide_eq_true_eq] at isReady
  obtain ⟨t,early,one⟩ := List.mem_map.mp isReady
  rwa [← named t target (same.mem_iff.mp (by simp [early])) member one]

def comments : CollectionSchema := { System.tasks with name := "comments" }

theorem schemas_ordered_comments : ∃ before after,
    orderSchemasByDependency [comments,System.tasks] = before ++ comments::after ∧ System.tasks ∈ before := by
  have edge (a b : CollectionSchema) (edge : DependsOn [comments,System.tasks] a b) :
      a = comments ∧ b = System.tasks := by
    obtain ⟨first,second,differ,r,listed,isTarget⟩ := edge
    simp only [List.mem_cons,List.not_mem_nil,or_false] at first second
    rcases first with rfl | rfl <;> rcases second with rfl | rfl
    · exact absurd rfl differ
    · exact ⟨rfl,rfl⟩
    · rw [List.mem_singleton.mp listed] at isTarget
      exact absurd isTarget (by decide)
    · exact absurd rfl differ
  obtain ⟨_,placed⟩ := schemas_ordered [comments,System.tasks] (by decide)
  obtain ⟨before,after,same,first⟩ := placed comments (by simp) (fun other _ loop => by
    obtain ⟨_,last,_⟩ := TransGen.head'_iff.mp loop
    obtain ⟨_,_,final⟩ := TransGen.tail'_iff.mp loop
    exact absurd ((edge _ _ last).1.symm.trans (edge _ _ final).2) (by decide))
  exact ⟨before,after,same,first _ ⟨by simp,by simp,by decide,_,List.mem_singleton_self _,rfl⟩⟩

def dumpedSchemas (e : Engine) : List CollectionSchema := orderSchemasByDependency e.listSchemas

def linesOf (schemas : List CollectionSchema) (records : List (String × Document)) : List DumpLine :=
  schemas.map .schema ++ records.map (fun p => .record p.1 p.2)

def fileOf (codec : DumpCodec) (lines : List DumpLine) : Bytes := lines.flatMap (fun line => ended (codec.write line))

section
variable {e f : Engine}

theorem dumpedSchemas_perm (e : Engine) : (dumpedSchemas e).Perm e.listSchemas := DependencyOrder.order_perm [] e.listSchemas

def dumpOf (e : Engine) : List DumpLine := linesOf (dumpedSchemas e) ((e.recordsOf (dumpedSchemas e)).map shownAs)

theorem dumpOf_congr (reads : ReadsBack e.storage f.storage) : dumpOf f = dumpOf e := by
  have schemas : f.listSchemas = e.listSchemas := by rw [listSchemas,reads.schemas,listSchemas]
  have scans (c : String) : f.storage.scan c = e.storage.scan c := Storage.scan_congr _ _ c (reads.live c)
  simp only [dumpOf,dumpedSchemas,recordsOf,schemas,scans]

variable [Host] {saved appended : Nat → Result Unit} {n : Nat}

/-- `cmd_dump` on a directory in which opening finds this storage. -/
def cmdDump [Ranked] (codec : DumpCodec) (options : EngineOptions) (stats : PlannerStats) (elapsed : Stopwatch)
    (found : Storage) : Result (Bytes × Nat) := do
  let e ← Engine.openWith found options stats
  let records ← e.captureAll elapsed (dumpedSchemas e)
  return (fileOf codec (linesOf (dumpedSchemas e) records),(linesOf (dumpedSchemas e) records).length)

/-- What `restore` does with a parsed line; how the file steps went is given by the number of lines so far. -/
def applyLine (saved appended : Nat → Result Unit) (n : Nat) (line : DumpLine) (e : Engine) : Except CliError Engine :=
  match line with
  | .schema schema => match e.createSchema (saved n) schema with
    | (_,.error err) => .error (.engine err)
    | (e,.ok ()) => .ok e
  | .record collection fields => match e.applyMutation (appended n) (.upsert collection fields) with
    | (e,.ok _) => .ok e
    | (_,.err err) => .error (.engine err)
    | (_,.panic m) => .error (.panicked m)

def DumpLine.count : DumpLine → Nat
  | .schema _ => 0
  | .record _ _ => 1

/-- The loop of `cmd_restore` over the chunks that the reader hands out. -/
def restoreLoop (codec : DumpCodec) (saved appended : Nat → Result Unit) (n : Nat) (chunks : List Bytes) (records : Nat)
    (e : Engine) : Except CliError (Engine × Nat) :=
  match _next : readCapped maxRestoreLineBytes chunks [] with
  | .tooLong => .error (.message ("dump line exceeds the " ++ toString maxRestoreLineBytes ++
      "-byte restore limit (refusing to buffer it)"))
  | .ended => .ok (e,records)
  | .line buf left =>
    if codec.isUtf8 buf = false then .error (.message "dump line is not valid UTF-8")
    else if codec.isBlank buf then restoreLoop codec saved appended n left records e
    else match codec.read buf with
      | .error _ => .error (.message "parsing dump line")
      | .ok line => match applyLine saved appended n line e with
        | .error err => .error err
        | .ok e => restoreLoop codec saved appended (n + 1) left (records + line.count) e
termination_by chunks.flatten.length
decreasing_by all_goals exact readCapped_shorter _next

/-- `cmd_restore` into an empty directory: the engine, and the number of records. -/
def cmdRestore (codec : DumpCodec) (options : EngineOptions) (saved appended : Nat → Result Unit) (chunks : List Bytes) :
    Except CliError (Engine × Nat) :=
  match Engine.openWith ⟨∅,∅,0,0⟩ options ∅ with
  | .error err => .error (.engine err)
  | .ok e => restoreLoop codec saved appended 0 chunks 0 e

def applyLines (saved appended : Nat → Result Unit) : Nat → List DumpLine → Nat → Engine → Except CliError (Engine × Nat)
  | _, [], records, e => .ok (e,records)
  | n, line::rest, records, e => match applyLine saved appended n line e with
    | .error err => .error err
    | .ok e => applyLines saved appended (n + 1) rest (records + line.count) e

/-- What `dump` writes of a line is one line of text that `restore` takes and reads back. -/
structure DumpCodec.Readable (codec : DumpCodec) (line : DumpLine) : Prop where
  unbroken : newline ∉ codec.write line
  short : (codec.write line).length ≤ maxRestoreLineBytes
  utf8 : codec.isUtf8 (codec.write line) = true
  inked : codec.isBlank (codec.write line) = false
  reads : codec.read (codec.write line) = .ok line

instance (codec : DumpCodec) (line : DumpLine) : Decidable (codec.Readable line) :=
  decidable_of_iff (newline ∉ codec.write line ∧ (codec.write line).length ≤ maxRestoreLineBytes ∧
    codec.isUtf8 (codec.write line) = true ∧ codec.isBlank (codec.write line) = false ∧
    codec.read (codec.write line) = .ok line)
    ⟨fun ⟨unbroken,short,utf8,inked,reads⟩ => ⟨unbroken,short,utf8,inked,reads⟩,
      fun ⟨unbroken,short,utf8,inked,reads⟩ => ⟨unbroken,short,utf8,inked,reads⟩⟩

theorem restoreLoop_lines {codec : DumpCodec} {lines : List DumpLine} (readable : ∀ line ∈ lines, codec.Readable line)
    {chunks : List Bytes} (cut : Chunks (fileOf codec lines) chunks) (saved appended : Nat → Result Unit)
    (n records : Nat) (e : Engine) :
    restoreLoop codec saved appended n chunks records e = applyLines saved appended n lines records e := by
  induction lines generalizing chunks n records e with
  | nil =>
    have none : chunks = [] := by
      rcases chunks with _ | ⟨chunk,rest⟩
      · rfl
      · have whole : chunk ++ rest.flatten = [] := cut.whole
        exact absurd (List.append_eq_nil_iff.mp whole).1 (cut.nonempty chunk List.mem_cons_self)
    subst none
    rw [restoreLoop]
    rfl
  | cons line rest ih =>
    have ok := readable line List.mem_cons_self
    obtain ⟨left,read,cut'⟩ := @readCapped_line maxRestoreLineBytes (codec.write line) (fileOf codec rest) ok.unbroken
      chunks cut [] (by simpa using ok.short)
    rw [List.nil_append] at read
    rw [restoreLoop,applyLines]
    split
    · rename_i stopped
      rw [read] at stopped
      cases stopped
    · rename_i stopped
      rw [read] at stopped
      cases stopped
    · rename_i buf left' next
      rw [read] at next
      cases next
      rw [if_neg (by simp [ok.utf8]),if_neg (by simp [ok.inked]),ok.reads]
      dsimp only
      cases applyLine saved appended n line e with
      | error err => rfl
      | ok e' => exact ih (fun other inside => readable other (List.mem_cons_of_mem _ inside)) cut' _ _ e'

theorem applyLines_schemas {schemas : List CollectionSchema} {mid : Engine}
    (installed : e.installSchemas saved n schemas = (mid,.ok ())) (rest : List DumpLine) (records : Nat) :
    applyLines saved appended n (schemas.map .schema ++ rest) records e =
      applyLines saved appended (n + schemas.length) rest records mid := by
  induction schemas generalizing n e with
  | nil =>
    cases installed
    rfl
  | cons schema others ih =>
    cases made : e.createSchema (saved n) schema with
    | mk e' result =>
      cases result with
      | error err => simp [installSchemas,made] at installed
      | ok u =>
        simp only [installSchemas,made] at installed
        simp only [List.map_cons,List.cons_append,applyLines,applyLine,made,DumpLine.count,Nat.add_zero]
        rw [ih installed,List.length_cons,Nat.add_assoc,Nat.add_comm 1]

theorem applyLines_records {docs : List (String × Document)}
    (upserted : e.upsertAll appended n docs = (f,.ok ())) (records : Nat) :
    applyLines saved appended n (docs.map (fun p => .record p.1 p.2)) records e = .ok (f,records + docs.length) := by
  induction docs generalizing n e records with
  | nil =>
    cases upserted
    rfl
  | cons p rest ih =>
    obtain ⟨collection,fields⟩ := p
    cases made : e.applyMutation (appended n) (.upsert collection fields) with
    | mk e' result =>
      cases result with
      | err err | panic m => simp [upsertAll,made] at upserted
      | ok a =>
        simp only [upsertAll,made] at upserted
        simp only [List.map_cons,applyLines,applyLine,made,DumpLine.count]
        rw [ih upserted,List.length_cons,Nat.add_assoc,Nat.add_comm 1]

/-- Along any run: where the records would each be accepted again and link to none that comes later in the dump,
and every line reads back, the dump restores into an empty directory with the same schemas and records. -/
theorem dump_restore_inverse [Ranked] {s t : System} {shown : List SchemaShown} (started : s.Started)
    (catalogued : s.Catalogued) (run : System.SchemaRuns s shown t) {found : Storage}
    (reads : ReadsBack t.engine.storage found) (restorable : t.engine.Restorable (dumpedSchemas t.engine))
    (codec : DumpCodec) (readable : ∀ line ∈ dumpOf t.engine, codec.Readable line) (options options' : EngineOptions)
    (stats : PlannerStats) (elapsed : Stopwatch) {saved appended : Nat → Result Unit} (saves : ∀ n, saved n = .ok ())
    (appends : ∀ n, appended n = .ok ()) :
    ∃ file, cmdDump codec options stats elapsed found = .ok (file,(dumpOf t.engine).length) ∧
      ∀ chunks, Chunks file chunks → ∃ f, cmdRestore codec options' saved appended chunks =
        .ok (f,(t.engine.recordsOf (dumpedSchemas t.engine)).length) ∧ SameRecords f t.engine := by
  obtain ⟨ok,catalog⟩ := started.catalogued catalogued run
  have keyed : t.engine.Keyed := ⟨ok,fun c schema declared => (catalog c schema declared).1⟩
  have known (schema : CollectionSchema) (listed : schema ∈ t.engine.listSchemas) :=
    (keyed.mem_listSchemas schema).mp listed
  obtain ⟨e,opened,sound,stored⟩ := restorable.unique.reopens keyed reads options stats
  have back : ReadsBack t.engine.storage e.storage := stored ▸ reads
  have schemas : dumpedSchemas e = dumpedSchemas t.engine := by simp only [dumpedSchemas,listSchemas,back.schemas]
  have captured := @captureAll_recordsOf _ _ e sound.storage (fun c schema declared => by
      obtain ⟨idx,held,-⟩ := sound.indexed c schema declared
      rw [held]
      rfl) elapsed (dumpedSchemas e) (fun schema inside => by
      rw [schemas] at inside
      rw [back.schemas]
      exact known schema ((dumpedSchemas_perm t.engine).mem_iff.mp inside))
  refine ⟨fileOf codec (dumpOf t.engine),?_,?_⟩
  · rw [cmdDump,bind_of_ok opened,bind_of_ok captured,← dumpOf_congr back]
    rfl
  · intro chunks cut
    obtain ⟨fresh,created,empty⟩ := openWith_empty options' ∅
    obtain ⟨mid,f,installed,upserted,-,same⟩ := restorable.rebuilds keyed
      (fun schema listed => (catalog schema.name schema (known schema listed)).2) (dumpedSchemas_perm t.engine) empty
      saves appends 0 (0 + (dumpedSchemas t.engine).length)
    refine ⟨f,?_,same⟩
    rw [cmdRestore,created]
    dsimp only
    rw [restoreLoop_lines readable cut,dumpOf,linesOf,applyLines_schemas installed,applyLines_records upserted,
      List.length_map,Nat.zero_add]

end

def taskCodec : DumpCodec where
  write
    | .schema _ => [1]
    | .record _ [("id",.text "b")] => [2]
    | .record _ [("id",.text "a"),("parent",.text "b")] => [3]
    | .record _ _ => [4]
  read
    | [1] => .ok (.schema System.tasks)
    | [2] => .ok (.record "tasks" [("id",.text "b")])
    | [3] => .ok (.record "tasks" [("id",.text "a"),("parent",.text "b")])
    | [4] => .ok (.record "tasks" [("id",.text "b"),("parent",.text "b")])
    | _ => .error "expected a line"
  isUtf8 _ := true
  isBlank bytes := bytes.isEmpty

private theorem tasks_catalogued : @System.Catalogued plainHost (System.fresh System.tasks ⟨60,1⟩) :=
  @System.fresh_catalogued plainHost System.tasks (by decide +kernel) ⟨60,1⟩

theorem dump_restore_inverse_tasks : ∃ t shown file,
    @System.SchemaRuns plainHost (System.fresh System.tasks ⟨60,1⟩) shown t ∧ (dumpOf t.engine).length = 3 ∧
      @cmdDump plainHost noRanking taskCodec ⟨60,1⟩ ∅ (fun _ => 0) t.engine.storage = .ok (file,3) ∧
      ∀ chunks, Chunks file chunks → ∃ f, @cmdRestore plainHost taskCodec ⟨60,1⟩ (fun _ => .ok ()) (fun _ => .ok ())
        chunks = .ok (f,(t.engine.recordsOf (dumpedSchemas t.engine)).length) ∧ SameRecords f t.engine := by
  obtain ⟨t,shown,run,three,readable,restorable⟩ := Run.exists_free (@System.schemaStep plainHost)
    [.act (.mutate (.insert "tasks" [("id",.text "b")]) (.ok ())),
      .act (.mutate (.insert "tasks" [("id",.text "a"),("parent",.text "b")]) (.ok ()))]
    (System.fresh System.tasks ⟨60,1⟩) (fun t _ => (dumpOf t.engine).length = 3 ∧
      (∀ line ∈ dumpOf t.engine, taskCodec.Readable line) ∧
      @Engine.restorable plainHost t.engine ⟨60,1⟩ (dumpedSchemas t.engine) = true) (by decide +kernel)
  have started := @System.fresh_started plainHost System.tasks ⟨60,1⟩
  obtain ⟨ok,catalog⟩ := @System.Started.catalogued plainHost _ _ _ started tasks_catalogued run
  obtain ⟨file,dumped,restores⟩ := @dump_restore_inverse plainHost noRanking _ t shown started tasks_catalogued run _
    ⟨ok,rfl,fun _ _ => rfl⟩
    (@restorable_sound plainHost _ ⟨ok,fun c schema found => (catalog c schema found).1⟩ _ _ restorable) taskCodec readable ⟨60,1⟩ ⟨60,1⟩ ∅ (fun _ => 0) _ _ (fun _ => rfl) (fun _ => rfl)
  exact ⟨t,shown,file,run,three,three ▸ dumped,restores⟩

/-- A task comes to be its own parent by an update; when it is restored there is no such task yet. -/
theorem dump_restore_own_parent : ∃ t shown file,
    @System.SchemaRuns plainHost (System.fresh System.tasks ⟨60,1⟩) shown t ∧
      (∀ line ∈ dumpOf t.engine, taskCodec.Readable line) ∧
      @cmdDump plainHost noRanking taskCodec ⟨60,1⟩ ∅ (fun _ => 0) t.engine.storage = .ok (file,2) ∧
      ∀ chunks, Chunks file chunks → @cmdRestore plainHost taskCodec ⟨60,1⟩ (fun _ => .ok ()) (fun _ => .ok ()) chunks =
        .error (.engine (.schemaViolation "relationship parent references a missing tasks record")) := by
  obtain ⟨t,shown,run,readable,dumped,misses⟩ := Run.exists_free (@System.schemaStep plainHost)
    [.act (.mutate (.insert "tasks" [("id",.text "b")]) (.ok ())),
      .act (.mutate (.update "tasks" none [("parent",.text "b")]) (.ok ()))]
    (System.fresh System.tasks ⟨60,1⟩) (fun t _ => (∀ line ∈ dumpOf t.engine, taskCodec.Readable line) ∧
      @cmdDump plainHost noRanking taskCodec ⟨60,1⟩ ∅ (fun _ => 0) t.engine.storage =
        .ok (fileOf taskCodec (dumpOf t.engine),2) ∧
      @applyLines plainHost (fun _ => .ok ()) (fun _ => .ok ()) 0 (dumpOf t.engine) 0 ⟨⟨∅,∅,0,0⟩,∅,1,∅,60,0,1,∅⟩ =
        .error (.engine (.schemaViolation "relationship parent references a missing tasks record")))
    (by decide +kernel)
  refine ⟨t,shown,_,run,readable,dumped,fun chunks cut => ?_⟩
  exact (@restoreLoop_lines plainHost _ _ readable _ cut _ _ _ _ _).trans misses

end AuraDb.Cli
