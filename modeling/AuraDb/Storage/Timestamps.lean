import AuraDb.Storage.Durability

/-! Commit timestamps and transaction ids over restarts. Opening takes the watermark from the manifest and the
log, and the transaction id from the batches alone. -/
namespace AuraDb
open Library Library.Framing Library.VersionChain Std

def loggedTs (manifest : Manifest) (batches : List Batch) : Nat :=
  (allOps batches).foldl (fun ts op => max ts op.commitTs) manifest.lastCommitTs

def loggedTxn (batches : List Batch) : Nat := batches.foldl (fun txn batch => max txn batch.txnId) 0

variable (manifest : Manifest) (batches : List Batch)

private theorem foldl_recoverBatch (r : Recovery) : (batches.foldl (recoverBatch false) r).lastCommitTs =
        (allOps batches).foldl (fun ts op => max ts op.commitTs) r.lastCommitTs ∧
      (batches.foldl (recoverBatch false) r).maxTxnId =
        batches.foldl (fun txn batch => max txn batch.txnId) r.maxTxnId := by
  induction batches generalizing r with
  | nil => exact ⟨rfl,rfl⟩
  | cons batch rest ih =>
    obtain ⟨ts,txn⟩ := ih (recoverBatch false r batch)
    simp only [List.foldl_cons,ts,txn,allOps,List.flatMap_cons,List.foldl_append]
    exact ⟨rfl,rfl⟩

theorem recovered_marks (db : Database) (batches : List Batch) :
    (recovered db batches).lastCommitTs = loggedTs db.store.manifest batches ∧
      (recovered db batches).maxTxnId = loggedTxn batches :=
  foldl_recoverBatch batches _

private theorem foldl_max_le {α : Type} (f : α → Nat) (items : List α) (low bound : Nat) :
    items.foldl (fun most x => max most (f x)) low ≤ bound ↔ low ≤ bound ∧ ∀ x ∈ items, f x ≤ bound := by
  induction items generalizing low with
  | nil => simp
  | cons x rest ih =>
    rw [List.foldl_cons,ih,Nat.max_le]
    simp [and_assoc]

theorem loggedTs_le (bound : Nat) : loggedTs manifest batches ≤ bound ↔
      manifest.lastCommitTs ≤ bound ∧ ∀ op ∈ allOps batches, op.commitTs ≤ bound :=
  foldl_max_le LogOp.commitTs _ _ _

theorem manifest_le_loggedTs : manifest.lastCommitTs ≤ loggedTs manifest batches :=
  ((loggedTs_le manifest batches _).mp le_rfl).1

theorem loggedTs_committed (ts : Nat) (batch : Batch)
    (nonempty : batch.ops.isEmpty = false) (newer : loggedTs manifest batches ≤ ts) :
    loggedTs manifest (batches ++ [Store.stamp ts batch]) = ts := by
  have stamped : ∀ ops : List LogOp, ops ≠ [] → ∀ low ≤ ts,
      (ops.map (LogOp.setCommitTs ts)).foldl (fun ts op => max ts op.commitTs) low = ts := by
    intro ops
    induction ops with
    | nil => exact fun no => absurd rfl no
    | cons op rest ih =>
      intro _ low le
      rw [List.map_cons,List.foldl_cons,LogOp.commitTs_setCommitTs,Nat.max_eq_right le]
      rcases rest with _ | ⟨next,rest⟩
      · rfl
      · exact ih (by simp) ts le_rfl
  have whole : allOps (batches ++ [Store.stamp ts batch]) =
      allOps batches ++ batch.ops.map (LogOp.setCommitTs ts) := by
    simp [allOps,Store.stamp]
  rw [loggedTs,whole,List.foldl_append]
  exact stamped batch.ops (by simpa using nonempty) _ newer

theorem loggedTxn_committed (batch : Batch) :
    loggedTxn (batches ++ [batch]) = max (loggedTxn batches) batch.txnId := by
  simp [loggedTxn]

theorem loggedTs_retained (st : Store) (ok : st.mem.WellFormed)
    (saved : manifest.lastCommitTs = st.mem.lastCommitTs) :
    loggedTs manifest st.retainedBatches = st.mem.lastCommitTs := by
  apply Nat.le_antisymm
  · exact (loggedTs_le _ _ _).mpr ⟨Nat.le_of_eq saved,logged_retained st ok⟩
  · rw [← saved]
    exact manifest_le_loggedTs ..

/-- A rewrite leaves something in the log, or there is no transaction id to keep. -/
def KeepsTxn (mem : Storage) : Prop := retainedOps mem.records ≠ [] ∨ mem.maxTxnId = 0

theorem loggedTxn_retained (st : Store) (keeps : KeepsTxn st.mem) :
    loggedTxn st.retainedBatches = st.mem.maxTxnId := by
  unfold Store.retainedBatches
  split
  · rename_i empty
    rcases keeps with some | none
    · exact absurd (List.isEmpty_iff.mp empty) some
    · rw [none]
      rfl
  · simp [loggedTxn,Store.retained]

namespace Database

/-- The acknowledged timestamps ascend, and each of them will be found again. -/
structure Logged (acks : List Ack) (db : Database) (batches : List Batch) : Prop where
  manifest : db.store.manifest.lastCommitTs ≤ db.store.mem.lastCommitTs
  ascending : acks.Pairwise (fun a b => a.ts < b.ts)
  found : ∀ ack ∈ acks, ack.ts ≤ loggedTs db.store.manifest batches

structure Retained (db : Database) (batches : List Batch) : Prop where
  ts : loggedTs db.store.manifest batches = db.store.mem.lastCommitTs
  txn : loggedTxn batches = db.store.mem.maxTxnId

variable {codec : Codec Batch} {db db' : Database} {batches batches' : List Batch} {acks now : List Ack} {c : Call}

theorem loggedTs_le_memory (backed : Backed codec db batches) (logged : Logged acks db batches) :
    loggedTs db.store.manifest batches ≤ db.store.mem.lastCommitTs :=
  (loggedTs_le _ _ _).mpr ⟨logged.manifest,backed.logged⟩

theorem Logged.kept (logged : Logged acks db batches)
    (manifest : db'.store.manifest.lastCommitTs ≤ db'.store.mem.lastCommitTs)
    (more : loggedTs db.store.manifest batches ≤ loggedTs db'.store.manifest batches') :
    Logged (acks ++ []) db' batches' := by
  rw [List.append_nil]
  exact ⟨manifest,logged.ascending,fun ack inside => (logged.found ack inside).trans more⟩

theorem Logged.rewritten (logged : Logged acks db batches) (ok : db'.store.mem.WellFormed)
    (more : loggedTs db.store.manifest batches ≤ db'.store.mem.lastCommitTs)
    (saved : db'.store.manifest.lastCommitTs = db'.store.mem.lastCommitTs) :
    Logged (acks ++ []) db' db'.store.retainedBatches := by
  apply logged.kept (Nat.le_of_eq saved)
  rw [loggedTs_retained _ _ ok saved]
  exact more

theorem Retained.rewritten (ok : db'.store.mem.WellFormed)
    (saved : db'.store.manifest.lastCommitTs = db'.store.mem.lastCommitTs) (keeps : KeepsTxn db'.store.mem) :
    Retained db' db'.store.retainedBatches :=
  ⟨loggedTs_retained _ _ ok saved,loggedTxn_retained _ keeps⟩

theorem Logged.changed (logged : Logged acks db batches) (backed : Backed codec db batches)
    (after : Backed codec db' batches') (changed : Changed c db batches now db' batches') :
    Logged (acks ++ now) db' batches' := by
  have low := loggedTs_le_memory backed logged
  cases changed with
  | idle _ ts later _ _ store =>
    refine logged.kept ?_ ?_
    · rw [store]
      exact logged.manifest.trans later
    · rw [store]
  | committed _ ts batch newer nonempty _ store =>
    have exactly := loggedTs_committed db.store.manifest batches ts batch nonempty (by omega)
    rw [← show db'.store.manifest = db.store.manifest by rw [store]] at exactly
    refine ⟨?_,?_,?_⟩
    · rw [store]
      exact logged.manifest.trans (Nat.le_of_lt newer)
    · rw [List.pairwise_append]
      refine ⟨logged.ascending,List.pairwise_singleton _ _,?_⟩
      intro a inside b last
      rw [List.mem_singleton.mp last]
      exact Nat.lt_of_le_of_lt ((logged.found a inside).trans low) newer
    · intro ack inside
      rw [exactly]
      rcases List.mem_append.mp inside with old | new
      · exact ((logged.found ack old).trans low).trans (Nat.le_of_lt newer)
      · rw [List.mem_singleton.mp new]
  | rewritten _ _ _ mem saved | collected _ _ _ _ _ mem saved =>
    apply logged.rewritten after.memory
    · rw [mem]
      exact low
    · rw [saved,mem]
      rfl
  | prunedOnly _ _ _ _ store =>
    refine logged.kept ?_ ?_
    · rw [store]
      exact logged.manifest
    · rw [store]
  | reopened _ _ manifest mem =>
    refine logged.kept ?_ ?_
    · rw [manifest,mem,(recovered_marks db batches).1]
      exact manifest_le_loggedTs ..
    · rw [manifest]

/-- No file fault left a trace, no commit is asked for at the last timestamp of 64 bits, no replicated batch without
ops is above the watermark, and no rewrite to an empty log happens while a transaction id was seen. -/
def Retaining (db : Database) (c : Call) : Prop := db.Harmless c ∧ match c with
  | .commitBatch _ _ | .put _ _ | .delete _ _ _ => db.store.mem.lastCommitTs + 1 < 2^64
  | .applyCommittedBatch _ batch ts => batch.ops.isEmpty = true → ts ≤ db.store.mem.lastCommitTs
  | .gc _ _ cutoff minRetained => KeepsTxn (db.store.mem.pruned cutoff (max minRetained 1))
  | .compact _ _ => KeepsTxn db.store.mem
  | _ => True

theorem Retained.changed (retained : Retained db batches) (after : Backed codec db' batches')
    (retaining : Retaining db c) (changed : Changed c db batches now db' batches') :
    Retained db' batches' ∧ db.store.mem.lastCommitTs ≤ db'.store.mem.lastCommitTs ∧
      db.store.mem.maxTxnId ≤ db'.store.mem.maxTxnId := by
  obtain ⟨ts,txn⟩ := retained
  cases changed with
  | idle _ ts' later moved _ store =>
    have same : ts' = db.store.mem.lastCommitTs := by
      rcases moved with same | ⟨fault,batch,rfl,empty⟩
      · exact same
      · exact Nat.le_antisymm (retaining.2 empty) later
    rw [store,same]
    exact ⟨⟨by rw [store]; exact ts.trans same.symm,by rw [store]; exact txn⟩,le_rfl,le_rfl⟩
  | committed _ ts' batch newer nonempty _ store =>
    have exactly := loggedTs_committed db.store.manifest batches ts' batch nonempty (by omega)
    rw [store]
    refine ⟨⟨by rw [store]; exact exactly,?_⟩,Nat.le_of_lt newer,Nat.le_max_left ..⟩
    rw [store,loggedTxn_committed,txn]
    rfl
  | rewritten _ _ which mem saved | collected _ _ cutoff keep which mem saved =>
    subst which
    have kept := Retained.rewritten after.memory (by rw [saved,mem]; rfl) (mem ▸ retaining.2)
    rw [mem]
    exact ⟨kept,le_rfl,le_rfl⟩
  | prunedOnly _ cutoff keep _ store =>
    rw [store]
    exact ⟨⟨by rw [store]; exact ts,by rw [store]; exact txn⟩,le_rfl,le_rfl⟩
  | reopened _ _ manifest mem =>
    obtain ⟨foundTs,foundTxn⟩ := recovered_marks db batches
    rw [mem,foundTs,foundTxn,ts,txn]
    exact ⟨⟨by rw [manifest,mem,foundTs],by rw [mem,foundTxn]⟩,le_rfl,le_rfl⟩

theorem Logged.start {syncOnCommit : Bool} {d : Disk} (start : Opened codec syncOnCommit d db) :
    ∃ batches, Backed codec db batches ∧ Logged [] db batches ∧
      (((∃ m ∈ d.manifest, m.formatVersion < formatVersion) → KeepsTxn db.store.mem) → Retained db batches) := by
  obtain ⟨batches,backed,fresh⟩ := start.fresh
  refine ⟨batches,backed,?_⟩
  rcases fresh with same | ⟨older,rfl,saved⟩
  · obtain ⟨foundTs,foundTxn⟩ := recovered_marks db batches
    refine ⟨⟨?_,.nil,by simp⟩,fun _ => ⟨by rw [same,foundTs],by rw [same,foundTxn]⟩⟩
    rw [same,foundTs]
    exact manifest_le_loggedTs ..
  · exact ⟨⟨Nat.le_of_eq saved,.nil,by simp⟩,fun keeps => .rewritten backed.memory saved (keeps older)⟩

/-- Whatever is lost of the watermark, the timestamps of successful commits ascend. -/
theorem acks_ascending {syncOnCommit : Bool} {d : Disk} (start : Opened codec syncOnCommit d db)
    (run : Runs codec Harmless db acks db') : acks.Pairwise (fun a b => a.ts < b.ts) := by
  have logged : ∃ batches, Backed codec db' batches ∧ Logged acks db' batches := by
    refine run.invariant (fun acks db => ∃ batches, Backed codec db batches ∧ Logged acks db batches) ?_ ?_
    · obtain ⟨batches,backed,logged,-⟩ := Logged.start start
      exact ⟨batches,backed,logged⟩
    · intro acks db c db' now held allowed called
      obtain ⟨batches,backed,logged⟩ := held
      obtain ⟨batches',after,changed⟩ := call_changed c backed allowed.1 allowed.2 called
      exact ⟨batches',after,logged.changed backed after changed⟩
  obtain ⟨batches,-,logged⟩ := logged
  exact logged.ascending

theorem Retained.run (backed : Backed codec db batches) (retained : Retained db batches)
    (run : Runs codec Retaining db acks db') : ∃ batches', Backed codec db' batches' ∧ Retained db' batches' ∧
      db.store.mem.lastCommitTs ≤ db'.store.mem.lastCommitTs ∧ db.store.mem.maxTxnId ≤ db'.store.mem.maxTxnId := by
  induction run with
  | start => exact ⟨batches,backed,retained,le_rfl,le_rfl⟩
  | next before c allowed called ih =>
    obtain ⟨batches',backed',retained',ts,txn⟩ := ih
    obtain ⟨batches'',after,changed⟩ := call_changed c backed' allowed.1.1 allowed.2 called
    obtain ⟨retained'',ts',txn'⟩ := retained'.changed after allowed.1 changed
    exact ⟨batches'',after,retained'',ts.trans ts',txn.trans txn'⟩

/-- Over any calls that leave nothing in memory only, the watermark and the transaction id never go back and no
commit timestamp is given twice. -/
theorem timestamps_advance (codec : Codec Batch) (syncOnCommit : Bool) (d : Disk) (db mid db' : Database)
    (acks later : List Ack) (start : Opened codec syncOnCommit d db)
    (migrated : (∃ m ∈ d.manifest, m.formatVersion < formatVersion) → KeepsTxn db.store.mem)
    (run : Runs codec Retaining db acks mid) (more : Runs codec Retaining mid later db') :
    mid.store.mem.commitWatermark ≤ db'.store.mem.commitWatermark ∧
      mid.store.mem.maxTxnId ≤ db'.store.mem.maxTxnId ∧
      (acks ++ later).Pairwise (fun a b => a.ts < b.ts) := by
  obtain ⟨batches,backed,-,retained⟩ := Logged.start start
  obtain ⟨batches',backed',retained',-,-⟩ := (retained migrated).run backed run
  obtain ⟨-,-,-,ts,txn⟩ := retained'.run backed' more
  have harmless : Runs codec Harmless db (acks ++ later) db' :=
    (run.trans more).mono (fun _ _ allowed => ⟨allowed.1.1,allowed.2⟩)
  exact ⟨ts,txn,acks_ascending start harmless⟩

theorem timestamps_advance_tiny : ∃ mid db', Runs tinyCodec Retaining tinyDatabase [⟨1,tinyBatch 1⟩] mid ∧
    Runs tinyCodec Retaining mid [] db' ∧ mid.store.mem.commitWatermark = 1 ∧
    mid.store.mem.commitWatermark ≤ db'.store.mem.commitWatermark := by
  have first : Runs tinyCodec Retaining tinyDatabase [⟨1,tinyBatch 1⟩]
      (tinyAfter tinyDatabase (.commitBatch none (tinyBatch 1))) :=
    .next (.start _) (.commitBatch none (tinyBatch 1))
      ⟨⟨trivial,by decide⟩,by decide +kernel⟩ rfl
  have second : Runs tinyCodec Retaining (tinyAfter tinyDatabase (.commitBatch none (tinyBatch 1))) []
      (tinyAfter (tinyAfter tinyDatabase (.commitBatch none (tinyBatch 1))) .reopen) :=
    .next (.start _) .reopen ⟨⟨trivial,trivial⟩,by decide +kernel⟩ rfl
  refine ⟨_,_,first,second,by decide,?_⟩
  exact (timestamps_advance tinyCodec true ⟨none,∅,∅⟩ tinyDatabase _ _ _ _ tinyDatabase_opened (by simp)
    first second).1

def tombCodec : Codec Batch := oneByte fun n => ⟨n,[.delete n "Item" n]⟩

def tombAfter (db : Database) (c : Call) : Database := ((db.call tombCodec c).getD (db,[])).1

def tombDeleted : Database := tombAfter tinyDatabase (.commitBatch none ⟨1,[.delete 0 "Item" 1]⟩)

def tombCollected : Database := tombAfter tombDeleted (.gc none (fun _ => false) 5 0)

private theorem tombCollected_reached (P : Database → Call → Prop)
    (deletes : P tinyDatabase (.commitBatch none ⟨1,[.delete 0 "Item" 1]⟩))
    (collects : P tombDeleted (.gc none (fun _ => false) 5 0)) :
    ∃ acks, Runs tombCodec P tinyDatabase acks tombCollected := by
  have deleted : Runs tombCodec P tinyDatabase [⟨1,⟨1,[.delete 0 "Item" 1]⟩⟩] tombDeleted :=
    .next (.start _) (.commitBatch none ⟨1,[.delete 0 "Item" 1]⟩) ⟨deletes,by decide +kernel⟩ rfl
  exact ⟨_,.next deleted (.gc none (fun _ => false) 5 0) ⟨collects,by decide +kernel⟩ rfl⟩

/-- A replicated batch without ops moves the watermark to five, and a restart takes it back. A collection that
leaves nothing writes an empty log, and a restart forgets the transaction id. -/
theorem timestamps_forgotten : (∃ mid db', Runs tinyCodec (fun _ c => faultless c = true) tinyDatabase [] mid ∧
      Runs tinyCodec (fun _ c => faultless c = true) mid [] db' ∧
      mid.store.mem.commitWatermark = 5 ∧ db'.store.mem.commitWatermark = 0) ∧
    ∃ mid db' acks later, Runs tombCodec (fun _ c => faultless c = true) tinyDatabase acks mid ∧
      Runs tombCodec (fun _ c => faultless c = true) mid later db' ∧
      mid.store.mem.maxTxnId = 1 ∧ db'.store.mem.maxTxnId = 0 := by
  constructor
  · exact ⟨_,_,.next (.start _) (.applyCommittedBatch none ⟨1,[]⟩ 5) ⟨rfl,by decide +kernel⟩ rfl,
      .next (.start _) .reopen ⟨rfl,by decide +kernel⟩ rfl,by decide,by decide⟩
  · obtain ⟨acks,reached⟩ := tombCollected_reached (fun _ c => faultless c = true) rfl rfl
    have recovers : (tombCollected.call tombCodec .reopen).any (fun p => p.1.store.mem.maxTxnId == 0) = true := by
      decide +kernel
    obtain ⟨p,opened,forgotten⟩ := Option.any_eq_true _ _ |>.mp recovers
    exact ⟨tombCollected,p.1,acks,p.2,reached,.next (.start _) .reopen ⟨rfl,by decide +kernel⟩ opened,
      by decide +kernel,by simpa using forgotten⟩

end Database

end AuraDb
