import AuraDb.Storage.Schemas

/-! A crash inside a rewrite. Until the manifest is replaced the directory opens as it did before, and from then
on it opens to what the rewrite wrote. What it opened to before is not always what memory gave: the log still
holds what a drop made memory forget. -/
namespace AuraDb
open Library Library.Framing Std
variable {d d' : Disk} {codec : Codec Batch} {st : Store}

inductive FileStep where
  | openNew (segment : Nat)
  | writeNew (segment : Nat) (bytes : Bytes)
  | saveManifest (manifest : Manifest)
  | remove (segment : Nat)

def FileStep.run (d : Disk) : FileStep → Disk
  | .openNew segment => d.write segment []
  | .writeNew segment bytes => d.append segment bytes
  | .saveManifest manifest => { d with manifest := some manifest }
  | .remove segment => d.remove segment

def Store.rewriteSteps (codec : Codec Batch) (st : Store) : List FileStep :=
  .openNew st.manifest.nextSegmentId::.writeNew st.manifest.nextSegmentId (st.retainedBytes codec)::
    .saveManifest st.rewrittenManifest::
      (st.manifest.segments.filter (· != st.manifest.nextSegmentId)).map .remove

/-- The directories a crash can leave. A removal that fails is passed over. -/
inductive Interrupted : List FileStep → Disk → Disk → Prop where
  | stop (steps : List FileStep) (d : Disk) : Interrupted steps d d
  | torn (segment : Nat) (bytes : Bytes) (count : Nat) (rest : List FileStep) (d : Disk) :
      Interrupted (.writeNew segment bytes::rest) d (d.append segment (bytes.take count))
  | next {step : FileStep} {rest : List FileStep} {d d' : Disk} (later : Interrupted rest (step.run d) d') :
      Interrupted (step::rest) d d'
  | kept (segment : Nat) {rest : List FileStep} {d d' : Disk} (later : Interrupted rest d d') :
      Interrupted (.remove segment::rest) d d'

theorem Interrupted.removals {segments : List Nat}
    (crash : Interrupted (segments.map .remove) d d') (kept : Nat) (apart : kept ∉ segments) :
    d'.manifest = d.manifest ∧ d'.files[kept]? = d.files[kept]? := by
  induction segments generalizing d with
  | nil =>
    cases crash
    exact ⟨rfl,rfl⟩
  | cons segment rest ih =>
    have other : kept ∉ rest := fun inside => apart (List.mem_cons_of_mem _ inside)
    have differs : segment ≠ kept := fun same => apart (by simp [same])
    cases crash with
    | stop => exact ⟨rfl,rfl⟩
    | next later =>
      obtain ⟨manifest,file⟩ := ih later other
      refine ⟨manifest,file.trans ?_⟩
      simp [FileStep.run,Disk.remove,TreeMap.getElem?_erase_eq,differs]
    | kept _ later => exact ih later other

theorem Interrupted.rewrite (crash : Interrupted (st.rewriteSteps codec) d d') :
    (d'.manifest = d.manifest ∧ d'.catalog = d.catalog ∧
        ∀ segment, segment ≠ st.manifest.nextSegmentId → d'.files[segment]? = d.files[segment]?) ∨
      (d'.manifest = some st.rewrittenManifest ∧
        d'.files[st.manifest.nextSegmentId]? = some (st.retainedBytes codec)) := by
  have untouched (bytes : Bytes) (segment : Nat) (other : segment ≠ st.manifest.nextSegmentId) :
      ((d.write st.manifest.nextSegmentId []).append st.manifest.nextSegmentId bytes).files[segment]? =
        d.files[segment]? := by
    simp [Disk.append,Disk.write,TreeMap.getElem?_alter_eq,TreeMap.getElem?_insert_eq,Ne.symm other]
  cases crash with
  | stop => exact .inl ⟨rfl,rfl,fun _ _ => rfl⟩
  | next opened =>
    cases opened with
    | stop =>
      refine .inl ⟨rfl,rfl,fun segment other => ?_⟩
      simp [FileStep.run,Disk.write,TreeMap.getElem?_insert_eq,Ne.symm other]
    | torn _ _ count => exact .inl ⟨rfl,rfl,untouched _⟩
    | next written =>
      cases written with
      | stop => exact .inl ⟨rfl,rfl,untouched _⟩
      | next saved =>
        obtain ⟨manifest,file⟩ := saved.removals st.manifest.nextSegmentId (by simp)
        refine .inr ⟨manifest,file.trans ?_⟩
        simp [FileStep.run,Disk.append,Disk.write]

section Opening
variable {d d' : Disk}

theorem recoverSegments_congr (migrating : Bool) (segments : List Nat) (r : Recovery)
    (catalog : d'.catalog = d.catalog) (same : ∀ segment ∈ segments, d'.read segment = d.read segment) :
    (recoverSegments codec migrating segments d' r).2 = (recoverSegments codec migrating segments d r).2 ∧
      (recoverSegments codec migrating segments d' r).1.catalog =
        (recoverSegments codec migrating segments d r).1.catalog := by
  induction segments generalizing d d' r with
  | nil => exact ⟨rfl,catalog⟩
  | cons segment rest ih =>
    simp only [recoverSegments,same segment (by simp)]
    cases parseSegment codec (d.read segment) with
    | error e => exact ⟨rfl,catalog⟩
    | ok parsed =>
      simp only
      split
      · exact ⟨rfl,catalog⟩
      · apply ih
        · split
          · exact catalog
          · exact catalog
        · intro other inside
          split
          · -- both sides cut the same torn tail
            rcases eq_or_ne other segment with rfl | apart
            · rw [Disk.read_setLen_same,Disk.read_setLen_same,same other (by simp)]
            · rw [Disk.read_setLen_other _ _ _ _ apart,Disk.read_setLen_other _ _ _ _ apart,same other (by simp [inside])]
          · exact same other (by simp [inside])

theorem openWith_congr (syncOnCommit : Bool) {m : Manifest} (manifest : d.manifest = some m)
    (kept : d'.manifest = d.manifest) (catalog : d'.catalog = d.catalog)
    (same : ∀ segment ∈ m.segments, d'.read segment = d.read segment) :
    (openWith codec syncOnCommit d').2 = (openWith codec syncOnCommit d).2 := by
  simp only [openWith,Disk.loadManifest,kept,manifest]
  cases loaded : m.load with
  | error e => rfl
  | ok m' =>
    have listed : m'.segments = m.segments := by
      simp only [Manifest.load] at loaded
      split_ifs at loaded
      cases loaded
      rfl
    obtain ⟨result,catalogs⟩ := @recoverSegments_congr codec _ _
      (decide (m'.formatVersion < formatVersion)) m'.segments ⟨∅,0,m'.lastCommitTs,0⟩ catalog (listed ▸ same)
    simp only [openManifest]
    cases first : recoverSegments codec (decide (m'.formatVersion < formatVersion)) m'.segments d'
        ⟨∅,0,m'.lastCommitTs,0⟩ with
    | mk left leftResult =>
      cases second : recoverSegments codec (decide (m'.formatVersion < formatVersion)) m'.segments d
          ⟨∅,0,m'.lastCommitTs,0⟩ with
      | mk right rightResult =>
        simp only [first,second] at result catalogs
        subst result
        cases leftResult with
        | error e => rfl
        | ok r =>
          simp only [catalogs]
          split
          · rfl
          · rfl

end Opening

/-- The manifest in the directory was written by the program, and the next segment is not one it lists. -/
structure Placed (db : Database) : Prop where
  saved : ∃ m, db.disk.manifest = some m ∧ m.formatVersion = formatVersion ∧ m.Sound ∧
    m.nextSegmentId ≤ db.store.manifest.nextSegmentId
  version : db.store.manifest.formatVersion = formatVersion
  sound : db.store.manifest.Sound
  memory : db.store.mem.WellFormed

theorem Store.rewrittenManifest_sound (st : Store) : st.rewrittenManifest.Sound where
  distinct := List.pairwise_singleton _ _
  fresh segment inside := by
    rw [List.mem_singleton.mp inside]
    exact Nat.lt_succ_self _

theorem Backed.placed {db : Database} {batches : List Batch} (backed : Backed codec db batches) : Placed db :=
  { backed with saved := ⟨db.store.manifest,backed.manifest,backed.version,backed.sound,Nat.le_refl _⟩ }

namespace Placed
variable {db : Database} (fault : Option AppendFault) (batch : Batch)

theorem opened (placed : Placed db) {syncOnCommit : Bool}
    (opens : openWith codec syncOnCommit db.disk = (d,.ok st)) : Opened codec syncOnCommit db.disk ⟨d,st⟩ := by
  obtain ⟨m,manifest,version,sound,_⟩ := placed.saved
  refine ⟨?_,opens,?_⟩
  · intro m' inside
    obtain rfl := Option.some.inj (manifest.symm.trans inside)
    exact sound
  · rintro ⟨m',inside,older⟩
    obtain rfl := Option.some.inj (manifest.symm.trans inside)
    omega

theorem congr (placed : Placed db) (d : Disk) (st : Store) (manifest : d.manifest = db.disk.manifest)
    (same : st.manifest = db.store.manifest) (memory : st.mem.WellFormed) : Placed ⟨d,st⟩ where
  saved := by rw [manifest,same]; exact placed.saved
  version := same ▸ placed.version
  sound := same ▸ placed.sound
  memory := memory

theorem appendBatch (d : Disk) (st : Store) : (st.appendBatch codec fault batch d).1.manifest = d.manifest := by
  cases fault with
  | none => rfl
  | some fault => cases fault <;> rfl

section
variable (placed : Placed db)
include placed

theorem commitBatch :
    Placed ⟨(db.store.commitBatch codec fault batch db.disk).1,(db.store.commitBatch codec fault batch db.disk).2.1⟩ := by
  refine placed.congr _ _ ?_ rfl ?_
  · simp only [Store.commitBatch]
    split
    · rfl
    · exact appendBatch fault _ _ _
  · simp only [Store.commitBatch,Storage.commitBatch]
    split
    · exact placed.memory
    · cases (db.store.appendBatch codec fault (Store.stamp (db.store.mem.lastCommitTs + 1) batch) db.disk).2 with
      | error e => exact placed.memory
      | ok done => exact placed.memory.applied _ batch (Nat.lt_succ_self _)

theorem applyCommittedBatch (ts : Nat) : Placed ⟨(db.store.applyCommittedBatch codec fault batch ts db.disk).1,
      (db.store.applyCommittedBatch codec fault batch ts db.disk).2.1⟩ := by
  refine placed.congr _ _ ?_ rfl ?_
  · simp only [Store.applyCommittedBatch]
    split
    · rfl
    · exact appendBatch fault _ _ _
  · simp only [Store.applyCommittedBatch,Storage.applyCommittedBatch]
    split
    · exact placed.memory
    · rename_i newer
      split
      · exact placed.memory.congr (fun _ _ => rfl) (Nat.le_of_not_le newer)
      · rw [if_neg (by simp_all)]
        cases (db.store.appendBatch codec fault (Store.stamp ts batch) db.disk).2 with
        | error e => exact placed.memory
        | ok done => exact placed.memory.applied _ batch (Nat.lt_of_not_le newer)

theorem renamed (d : Disk) (active : Nat)
    (manifest : d.manifest = db.disk.manifest ∨ d.manifest = some db.store.rewrittenManifest) :
    Placed ⟨d,{ db.store with manifest := db.store.rewrittenManifest, active := active }⟩ where
  saved := by
    rcases manifest with old | new
    · obtain ⟨m,held,version,sound,below⟩ := placed.saved
      exact ⟨m,old.trans held,version,sound,Nat.le_succ_of_le below⟩
    · exact ⟨_,new,rfl,db.store.rewrittenManifest_sound,Nat.le_refl _⟩
  version := rfl
  sound := db.store.rewrittenManifest_sound
  memory := placed.memory

theorem rewriteSegment (fault : Option RewriteFault) (stuck : Nat → Bool) :
    Placed ⟨(db.store.rewriteSegment codec fault stuck db.disk).1,
      (db.store.rewriteSegment codec fault stuck db.disk).2.1⟩ := by
  have removed (segments : List Nat) (d : Disk) : (segments.foldl Disk.remove d).manifest = d.manifest := by
    induction segments generalizing d with
    | nil => rfl
    | cons segment rest ih => exact ih (d.remove segment)
  cases fault with
  | none => exact placed.renamed _ _ (.inr (removed _ _))
  | some fault =>
    cases fault with
    | openNew reason => exact placed
    | writeNew written reason | syncNew reason => exact placed.congr _ _ rfl rfl placed.memory
    | saveManifest reason => exact placed.renamed _ _ (.inl rfl)
    | reopen reason => exact placed.renamed _ _ (.inr (removed _ _))

theorem pruned (cutoff keep : Nat) : Placed ⟨db.disk,{ db.store with mem := db.store.mem.pruned cutoff keep }⟩ :=
  placed.congr _ _ rfl rfl (placed.memory.pruned cutoff keep)

theorem call {db' : Database} {acks : List Ack} (c : Call)
    (called : db.call codec c = some (db',acks)) : Placed db' := by
  cases c with
  | commitBatch fault batch =>
    cases called
    exact placed.commitBatch fault batch
  | applyCommittedBatch fault batch ts =>
    cases called
    exact placed.applyCommittedBatch fault batch ts
  | put fault record | delete fault c i =>
    cases called
    exact placed.commitBatch fault _
  | gc fault stuck cutoff minRetained =>
    cases called
    have smaller := placed.pruned cutoff (max minRetained 1)
    refine (@Placed.rewriteSegment codec _ smaller fault stuck).congr _ _ rfl rfl ?_
    rw [show (db.store.gc codec fault stuck cutoff minRetained db.disk).2.1.mem = _ from gc_mem _ _ _ _]
    exact smaller.memory
  | compact fault stuck =>
    cases called
    exact placed.rewriteSegment fault stuck
  | flush =>
    cases called
    exact { placed with saved := ⟨_,rfl,placed.version,placed.sound,Nat.le_refl _⟩ }
  | reopen =>
    simp only [Database.call] at called
    cases opens : openWith codec db.store.syncOnCommit db.disk with
    | mk d result =>
      cases result with
      | error e => simp [opens] at called
      | ok st =>
        simp only [opens] at called
        cases called
        obtain ⟨batches,backed,_⟩ := (placed.opened opens).backed
        exact backed.placed

theorem putSchema [Host] (fault : Option String) (schema : CollectionSchema) :
    Placed ⟨(db.store.putSchema fault schema db.disk).1,(db.store.putSchema fault schema db.disk).2.1⟩ := by
  have watermark (saved : Result Unit) :
      (db.store.mem.putSchema saved schema).1.lastCommitTs = db.store.mem.lastCommitTs := by
    unfold Storage.putSchema
    split
    · rfl
    · split <;> rfl
  unfold Store.putSchema
  split
  · exact placed
  · refine placed.congr _ _ (by cases fault <;> rfl) rfl ?_
    exact placed.memory.congr (Storage.chainOf_putSchema _ schema _) (watermark _).ge

theorem dropSchema (append : Option AppendFault) (save : Option String) (name : String) :
    Placed ⟨(db.store.dropSchema codec append save name db.disk).1,
      (db.store.dropSchema codec append save name db.disk).2.1⟩ := by
  have written := @Placed.commitBatch codec _ append (db.store.mem.dropBatch name) placed
  unfold Store.dropSchema
  split
  · split
    · rename_i failed
      rwa [failed] at written
    · rename_i done
      rw [done] at written
      exact written.congr _ _ (by cases save <;> rfl) rfl (written.memory.forgotten name)
  · exact placed

theorem schemaCall [Host] {db' : Database} {now : List SchemaEvent} (c : SchemaCall)
    (called : db.schemaCall codec c = some (db',now)) : Placed db' := by
  cases c with
  | data call =>
    obtain ⟨p,taken,same⟩ := Option.map_eq_some_iff.mp called
    cases same
    exact placed.call call taken
  | putSchema fault schema =>
    cases called
    exact placed.putSchema fault schema
  | dropSchema append save name =>
    cases called
    exact placed.dropSchema append save name

end

end Placed

/-- The store a rewrite starts from: `compact` writes memory as it is, `gc` prunes it first. -/
inductive Rewrites (st : Store) : Store → Prop where
  | compact : Rewrites st st
  | gc (cutoff minRetained : Nat) :
      Rewrites st { st with mem := st.mem.pruned cutoff (max minRetained 1) }

theorem Rewrites.placed {db : Database} (rewrites : Rewrites db.store st) (placed : Placed db) :
    Placed ⟨db.disk,st⟩ := by
  cases rewrites with
  | compact => exact placed
  | gc cutoff minRetained => exact placed.pruned cutoff _

theorem Placed.interrupted (placed : Placed ⟨d,st⟩) (readable : Database.Readable codec (Database.rewritten st))
    (crash : Interrupted (st.rewriteSteps codec) d d') (syncOnCommit : Bool) :
    (∃ st', Placed ⟨d',st'⟩) ∧ ((openWith codec syncOnCommit d').2 = (openWith codec syncOnCommit d).2 ∨
      ∃ d₁ st₁, openWith codec syncOnCommit d' = (d₁,.ok st₁) ∧ Database.SameReads st₁.mem st.mem) := by
  rcases crash.rewrite with ⟨manifest,catalog,files⟩ | ⟨manifest,file⟩
  · obtain ⟨m,held,_,sound,below⟩ := placed.saved
    refine ⟨⟨st,placed.congr _ _ manifest rfl placed.memory⟩,.inl (openWith_congr syncOnCommit held manifest catalog ?_)⟩
    intro segment listed
    have older := sound.fresh segment listed
    simp only at below
    rw [Disk.read,Disk.read,files segment (by omega)]
  · have backed := rewritten_backed codec d' st placed.memory readable manifest file
    obtain ⟨d₁,st₁,opens,chains⟩ := backed.reopens syncOnCommit
    refine ⟨⟨_,backed.placed⟩,.inr ⟨d₁,st₁,opens,?_⟩⟩
    exact Database.sameReads_of_chains (fun c i => (chains c i).trans (replay_retained st placed.memory c i))

namespace Database

/-- A crash at any point of a rewrite: the directory opens to what it would have opened to before or to what the
rewrite wrote. After calls without file faults the first is what memory gave, except as of a timestamp before a
drop that no rewrite or restart has followed. The next rewrite is read back. -/
theorem rewrite_crash_atomic [Host] (codec : Codec Batch) (syncOnCommit : Bool) (d : Disk) (db db' : Database)
    (shown : List SchemaEvent) (start : Opened codec syncOnCommit d db)
    (run : Run (schemaCall codec) (fun db c => Readable codec (db.schemaWritten c)) db shown db')
    (st : Store) (rewrites : Rewrites db'.store st) (readable : Readable codec (rewritten st)) (left : Disk)
    (crash : Interrupted (st.rewriteSteps codec) db'.disk left) (sync : Bool) :
    (SchemaRuns codec db shown db' → ∃ d₁ st₁, openWith codec sync left = (d₁,.ok st₁) ∧
      (SameReadsSince (Drops.of shown).fresh st₁.mem db'.store.mem ∨ SameReads st₁.mem st.mem)) ∧
    (∀ d₀ st₀, openWith codec sync db'.disk = (d₀,.ok st₀) → ∃ d₁ st₁, openWith codec sync left = (d₁,.ok st₁) ∧
      (SameReads st₁.mem st₀.mem ∨ SameReads st₁.mem st.mem)) ∧
    ∀ d₁ st₁, openWith codec sync left = (d₁,.ok st₁) → Opened codec sync left ⟨d₁,st₁⟩ ∧
      ∀ stuck, Readable codec (rewritten st₁) → (st₁.rewriteSegment codec none stuck d₁).2.2 = .ok () ∧
        ∃ d₂ st₂, openWith codec sync (st₁.rewriteSegment codec none stuck d₁).1 = (d₂,.ok st₂) ∧
          SameReads st₂.mem st₁.mem := by
  have placed : Placed db' := by
    refine run.invariant (fun _ db => Placed db) ?_ (fun _ _ c _ _ placed _ called => placed.schemaCall c called)
    obtain ⟨batches,backed,_⟩ := start.backed
    exact backed.placed
  obtain ⟨⟨st',after⟩,reads⟩ := (rewrites.placed placed).interrupted readable crash sync
  have kept (d₀ : Disk) (st₀ : Store) (opens : openWith codec sync db'.disk = (d₀,.ok st₀))
      (same : (openWith codec sync left).2 = (openWith codec sync db'.disk).2) :
      openWith codec sync left = ((openWith codec sync left).1,.ok st₀) := Prod.ext rfl (by rw [same,opens])
  refine ⟨?_,?_,?_⟩
  · intro clean
    obtain ⟨d₀,st₀,opens,-,since⟩ := (SchemaRuns.shadowed start clean).reopens sync
    rcases reads with same | ⟨d₁,st₁,opened,reads⟩
    · exact ⟨_,st₀,kept d₀ st₀ opens same,.inl since⟩
    · exact ⟨d₁,st₁,opened,.inr reads⟩
  · intro d₀ st₀ opens
    rcases reads with same | ⟨d₁,st₁,opened,reads⟩
    · exact ⟨_,st₀,kept d₀ st₀ opens same,.inl (sameReads_of_chains fun _ _ => rfl)⟩
    · exact ⟨d₁,st₁,opened,.inr reads⟩
  · intro d₁ st₁ opens
    have opened := after.opened opens
    obtain ⟨batches,backed,_⟩ := opened.backed
    refine ⟨opened,fun stuck readable => ?_⟩
    obtain ⟨_,done,rewritten⟩ := rewriteSegment_backed codec stuck d₁ st₁ backed.memory readable
    obtain ⟨d₂,st₂,opens,chains⟩ := rewritten.reopens sync
    exact ⟨done,d₂,st₂,opens,sameReads_of_chains
      (fun c i => (chains c i).trans (replay_retained st₁ backed.memory c i))⟩

/-- The write of the new segment stops after five bytes. -/
def tornDisk (db : Database) : Disk :=
  (db.disk.write db.store.manifest.nextSegmentId []).append db.store.manifest.nextSegmentId
    ((db.store.retainedBytes dropCodec).take 5)

theorem rewrite_crash_atomic_torn : ∃ db' shown, @SchemaRuns plainHost dropCodec tinyDatabase shown db' ∧
    5 < (db'.store.retainedBytes dropCodec).length ∧
    Interrupted (db'.store.rewriteSteps dropCodec) db'.disk (tornDisk db') ∧
    ∃ d₁ st₁, openWith dropCodec true (tornDisk db') = (d₁,.ok st₁) ∧
      (SameReadsSince (Drops.of shown).fresh st₁.mem db'.store.mem ∨ SameReads st₁.mem db'.store.mem) := by
  obtain ⟨db',shown,run,long,readable⟩ := @Run.exists_of_admitted _ _ _ (@schemaCall plainHost dropCodec)
    (fun db c => faultlessSchema c = true ∧ Readable dropCodec (db.schemaWritten c)) _ (itemCalls.take 2) tinyDatabase
    (fun db _ => 5 < (db.store.retainedBytes dropCodec).length ∧ Readable dropCodec (rewritten db.store))
    (by decide +kernel)
  have crash : Interrupted (db'.store.rewriteSteps dropCodec) db'.disk (tornDisk db') := .next (.torn _ _ _ _ _)
  exact ⟨db',shown,run,long,crash,(@rewrite_crash_atomic plainHost dropCodec true ⟨none,∅,∅⟩ tinyDatabase db' shown
    ⟨by simp,rfl,by simp⟩ (run.mono fun _ _ allowed => allowed.2) _ .compact readable _ crash true).1 run⟩

/-- A compaction crashes when it has created the new segment. The item of the dropped collection, which memory
gave neither before the compaction nor would give after it, is back as of timestamp one. -/
theorem rewrite_crash_returns : ∃ db' shown, @SchemaRuns plainHost dropCodec tinyDatabase shown db' ∧
    Rewrites db'.store db'.store ∧ Readable dropCodec (rewritten db'.store) ∧
    ∃ left, Interrupted (db'.store.rewriteSteps dropCodec) db'.disk left ∧
      db'.store.mem.getAsOf "Item" 1 1 = none ∧
      ∃ d₁ st₁, openWith dropCodec true left = (d₁,.ok st₁) ∧ (st₁.mem.getAsOf "Item" 1 1).isSome = true := by
  obtain ⟨db',shown,run,readable,absent,st₁,opened,back⟩ := @Run.exists_of_admitted _ _ _
    (@schemaCall plainHost dropCodec)
    (fun db c => faultlessSchema c = true ∧ Readable dropCodec (db.schemaWritten c)) _ itemCalls tinyDatabase
    (fun db _ => Readable dropCodec (rewritten db.store) ∧ db.store.mem.getAsOf "Item" 1 1 = none ∧
      ∃ st, (openWith dropCodec true (db.disk.write db.store.manifest.nextSegmentId [])).2 = .ok st ∧
        (st.mem.getAsOf "Item" 1 1).isSome = true) (by decide +kernel)
  exact ⟨db',shown,run,.compact,readable,_,.next (.stop _ _),absent,_,st₁,Prod.ext rfl opened,back⟩

end Database

end AuraDb
