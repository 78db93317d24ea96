import AuraDb.Storage.Durability

/-! Runs in which file steps fail and the process goes on. A fault that left no byte in the log and did not
reach the manifest does no damage. -/
namespace AuraDb.Database
open Library Library.Framing Library.VersionChain Std Storage

def expected (c : String) (i : RecordId) (acks : List Ack) (initial : Option Record) : Option Record :=
  acks.foldl (fun held ack => (lastWrite ack.batch.ops c i).getD held) initial

def Acknowledged (start : Storage) (acks : List Ack) (c : String) (i : RecordId) (v : Version Record) : Prop :=
  v ∈ start.chainOf c i ∨
    ∃ ack ∈ acks, ∃ value, lastWrite ack.batch.ops c i = some value ∧ v = ⟨ack.ts,value⟩

structure Intact (start : Storage) (acks : List Ack) (s : Storage) : Prop where
  get : ∀ c i, s.get c i = expected c i acks (start.get c i)
  origin : ∀ c i, ∀ v ∈ s.chainOf c i, Acknowledged start acks c i v

/-- Memory is what is left of the log after prunings that may not have reached it. -/
structure Covers (start : Storage) (acks : List Ack) (mem : Storage) (log : RecordMap) : Prop where
  suffix : ∀ c i, mem.chainOf c i <:+ log.chainOf c i
  latest : ∀ c i, mem.get c i = (latest (log.chainOf c i)).bind (·.value)
  get : ∀ c i, mem.get c i = expected c i acks (start.get c i)
  origin : ∀ c i, ∀ v ∈ log.chainOf c i, Acknowledged start acks c i v

theorem expected_append (c : String) (i : RecordId) (acks : List Ack) (ack : Ack) (initial : Option Record) :
    expected c i (acks ++ [ack]) initial = (lastWrite ack.batch.ops c i).getD (expected c i acks initial) := by
  simp [expected]

theorem Acknowledged.later {start : Storage} {acks : List Ack} {c : String} {i : RecordId}
    {v : Version Record} (before : Acknowledged start acks c i v) (now : List Ack) :
    Acknowledged start (acks ++ now) c i v := by
  rcases before with old | ⟨ack,inside,value,wrote,same⟩
  · exact Or.inl old
  · exact Or.inr ⟨ack,by simp [inside],value,wrote,same⟩

theorem pruned_suffix (mem : Storage) (cutoff keep : Nat) (c : String) (i : RecordId) :
    (mem.pruned cutoff keep).chainOf c i <:+ mem.chainOf c i := by
  rw [chainOf_pruned]
  unfold prune
  split
  · exact List.nil_suffix
  · exact List.drop_suffix _ _

namespace Covers
variable {start mem : Storage} {acks : List Ack} {log : RecordMap} {batches : List Batch}

theorem of_same (mem' : Storage) (log' : RecordMap) (covers : Covers start acks mem log)
    (same : ∀ c i, log'.chainOf c i = mem'.chainOf c i) (get : ∀ c i, mem'.get c i = mem.get c i)
    (older : ∀ c i, mem'.chainOf c i <:+ log.chainOf c i) : Covers start acks mem' log' where
  suffix c i := same c i ▸ List.suffix_refl _
  latest c i := by rw [same,get_eq]
  get c i := (get c i).trans (covers.get c i)
  origin c i v inside := covers.origin c i v ((older c i).subset (same c i ▸ inside))

theorem pruned (covers : Covers start acks mem log) (cutoff keep : Nat) (positive : 0 < keep) :
    Covers start acks (mem.pruned cutoff keep) log where
  suffix c i := (pruned_suffix mem cutoff keep c i).trans (covers.suffix c i)
  latest c i := (get_pruned mem cutoff keep c i positive).trans (covers.latest c i)
  get c i := (get_pruned mem cutoff keep c i positive).trans (covers.get c i)
  origin := covers.origin

private theorem chainOf_logged (logged : ({ mem with records := log } : Storage).WellFormed) (ts : Nat)
    (batch : Batch) (newer : mem.lastCommitTs < ts) (c : String) (i : RecordId) :
    (log.applyBatch (Store.stamp ts batch)).chainOf c i = match lastWrite batch.ops c i with
      | none => log.chainOf c i
      | some value => log.chainOf c i ++ [⟨ts,value⟩] :=
  chainOf_applied logged ts batch newer c i

theorem applied (covers : Covers start acks mem log) (ok : mem.WellFormed)
    (logged : ({ mem with records := log } : Storage).WellFormed) (ts : Nat) (batch : Batch)
    (newer : mem.lastCommitTs < ts) :
    Covers start (acks ++ [⟨ts,batch⟩]) (mem.applied ts batch) (log.applyBatch (Store.stamp ts batch)) := by
  have memory (c : String) (i : RecordId) := chainOf_applied ok ts batch newer c i
  have onLog := chainOf_logged logged ts batch newer
  refine ⟨?_,?_,?_,?_⟩
  · intro c i
    rw [memory,onLog]
    cases lastWrite batch.ops c i with
    | none => exact covers.suffix c i
    | some value =>
      obtain ⟨front,whole⟩ := covers.suffix c i
      exact ⟨front,by simp only [← whole,List.append_assoc]⟩
  · intro c i
    rw [get_applied ok ts batch newer,onLog]
    cases lastWrite batch.ops c i with
    | none => exact covers.latest c i
    | some value => simp [VersionChain.latest]
  · intro c i
    rw [get_applied ok ts batch newer,expected_append,covers.get]
  · intro c i v inside
    rw [onLog] at inside
    cases wrote : lastWrite batch.ops c i with
    | none =>
      simp only [wrote] at inside
      exact (covers.origin c i v inside).later _
    | some value =>
      simp only [wrote] at inside
      rcases List.mem_append.mp inside with old | new
      · exact (covers.origin c i v old).later _
      · exact Or.inr ⟨⟨ts,batch⟩,by simp,value,wrote,List.mem_singleton.mp new⟩

theorem changed {codec : Codec Batch} {c : Call} {db db' : Database} {batches' : List Batch} {now : List Ack}
    (covers : Covers start acks db.store.mem (replay batches)) (backed : Backed codec db batches)
    (after : Backed codec db' batches') (changed : Changed c db batches now db' batches') :
    Covers start (acks ++ now) db'.store.mem (replay batches') := by
  have positive (keep : Nat) : 0 < max keep 1 := Nat.lt_of_lt_of_le Nat.one_pos (Nat.le_max_right _ _)
  have retained := replay_retained db'.store after.memory
  cases changed with
  | idle _ ts _ _ _ store =>
    rw [List.append_nil,store]
    exact { covers with }
  | committed _ ts batch newer _ _ store =>
    rw [replay_append,store]
    exact covers.applied backed.memory
      (wellFormed_foldl _ (allOps batches) (replay_eq_foldl batches) backed.logged) ts batch newer
  | rewritten _ _ _ mem _ =>
    rw [List.append_nil]
    exact covers.of_same _ _ retained (fun _ _ => by rw [mem]) (mem ▸ covers.suffix)
  | collected _ _ cutoff keep _ mem _ =>
    rw [List.append_nil]
    refine covers.of_same _ _ retained ?_ (mem ▸ (covers.pruned cutoff _ (positive keep)).suffix)
    rw [mem]
    exact fun c i => get_pruned db.store.mem cutoff _ c i (positive keep)
  | prunedOnly _ cutoff keep _ store =>
    rw [List.append_nil,store]
    exact covers.pruned cutoff _ (positive keep)
  | reopened _ _ _ mem =>
    have same := ((recoveredStorage_facts db.disk.catalog false batches db.store.manifest.lastCommitTs).2 rfl).1
    rw [List.append_nil,mem]
    refine covers.of_same _ _ (fun c i => (same c i).symm) ?_ (fun c i => same c i ▸ List.suffix_refl _)
    intro c i
    rw [recovered,get_eq,same,covers.latest]

end Covers

/-- Failed calls do no damage: where faults wrote no byte of an append and stopped a rewrite before the
manifest, the directory opens at any time, and memory and the reopened storage show the acknowledged batches and
nothing else. -/
theorem harmless_faults_intact (codec : Codec Batch) (syncOnCommit : Bool) (d : Disk) (db db' : Database)
    (acks : List Ack) (start : Opened codec syncOnCommit d db)
    (run : Runs codec Harmless db acks db') :
    ∃ d'' st, openWith codec db'.store.syncOnCommit db'.disk = (d'',.ok st) ∧
      Intact db.store.mem acks db'.store.mem ∧ Intact db.store.mem acks st.mem ∧
      ∀ c i, db'.store.mem.chainOf c i <:+ st.mem.chainOf c i := by
  have covered : ∃ batches, Backed codec db' batches ∧
      Covers db.store.mem acks db'.store.mem (replay batches) := by
    refine run.invariant (fun acks db' => ∃ batches, Backed codec db' batches ∧
      Covers db.store.mem acks db'.store.mem (replay batches)) ?_ ?_
    · obtain ⟨batches,backed,same⟩ := start.backed
      refine ⟨batches,backed,fun c i => same c i ▸ List.suffix_refl _,?_,fun _ _ => rfl,?_⟩
      · exact fun c i => by rw [same,Storage.get_eq]
      · exact fun c i v inside => Or.inl (same c i ▸ inside)
    · rintro acks t c u now ⟨batches,backed,covers⟩ ⟨harmless,readable⟩ called
      obtain ⟨batches',after,changed⟩ := call_changed c backed harmless readable called
      exact ⟨batches',after,covers.changed backed after changed⟩
  obtain ⟨batches,backed,covers⟩ := covered
  obtain ⟨d'',st,opened,same⟩ := backed.reopens db'.store.syncOnCommit
  refine ⟨d'',st,opened,⟨covers.get,?_⟩,⟨?_,?_⟩,?_⟩
  · exact fun c i v inside => covers.origin c i v ((covers.suffix c i).subset inside)
  · exact fun c i => by rw [Storage.get_eq,same,← covers.latest,covers.get]
  · exact fun c i v inside => covers.origin c i v (same c i ▸ inside)
  · exact fun c i => same c i ▸ covers.suffix c i

def tinyRetry (fault : AppendFault) : Database :=
  tinyAfter (tinyAfter tinyDatabase (.commitBatch (some fault) (tinyBatch 1))) (.commitBatch none (tinyBatch 1))

theorem harmless_faults_intact_tiny :
    ∃ d st, openWith tinyCodec true (tinyRetry (.write 0 "no space left")).disk = (d,.ok st) ∧
      Intact tinyDatabase.store.mem [⟨1,tinyBatch 1⟩] (tinyRetry (.write 0 "no space left")).store.mem ∧
      Intact tinyDatabase.store.mem [⟨1,tinyBatch 1⟩] st.mem ∧
      ∀ c i, (tinyRetry (.write 0 "no space left")).store.mem.chainOf c i <:+ st.mem.chainOf c i :=
  harmless_faults_intact tinyCodec true ⟨none,∅,∅⟩ tinyDatabase _ _ tinyDatabase_opened
    (.next (.next (.start _) (.commitBatch (some (.write 0 "no space left")) (tinyBatch 1))
        ⟨rfl,by decide +kernel⟩ rfl)
      (.commitBatch none (tinyBatch 1)) ⟨trivial,by decide +kernel⟩ rfl)

/-- After an append that stopped inside the frame header, the next commit returns `Ok` and the directory no
longer opens. After a sync that failed, the failed commit is there on the next open. -/
theorem faults_damage :
    (Runs tinyCodec (fun _ _ => True) tinyDatabase [⟨1,tinyBatch 1⟩] (tinyRetry (.write 5 "no space left")) ∧
      (openWith tinyCodec true (tinyRetry (.write 5 "no space left")).disk).2.isOk = false) ∧
    ∃ db, Runs tinyCodec (fun _ _ => True) tinyDatabase [] db ∧
      ∃ d st, openWith tinyCodec true db.disk = (d,.ok st) ∧ (st.mem.get "Item" 1).isSome = true := by
  have failed (fault : AppendFault)
      (readable : Readable tinyCodec (tinyDatabase.written (.commitBatch (some fault) (tinyBatch 1))))
      (refused : tinyDatabase.call tinyCodec (.commitBatch (some fault) (tinyBatch 1)) =
        some (tinyAfter tinyDatabase (.commitBatch (some fault) (tinyBatch 1)),[])) :
      Runs tinyCodec (fun _ _ => True) tinyDatabase []
        (tinyAfter tinyDatabase (.commitBatch (some fault) (tinyBatch 1))) :=
    .next (.start _) _ ⟨trivial,readable⟩ refused
  constructor
  · constructor
    · exact .next (failed (.write 5 "no space left") (by decide +kernel) rfl) (.commitBatch none (tinyBatch 1))
        ⟨trivial,by decide +kernel⟩ rfl
    · decide
  · exact ⟨_,failed (.sync "device error") (by decide +kernel) rfl,_,_,rfl,by decide⟩

end AuraDb.Database
