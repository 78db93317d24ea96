import AuraDb.Engine.System

/-! What garbage collection leaves in place. Its cutoff is at or below the snapshot of every active transaction,
so what they read and conflict with is still there. -/
namespace AuraDb
open Library Library.VersionChain Std
namespace Engine

theorem gcCutoff_le_active (e : Engine) (id : TxnId) (entry : TxnEntry) (registered : e.txns[id]? = some entry)
    (active : entry.state = .active) : e.gcCutoff ≤ entry.readTs := by
  have inside : entry.readTs ∈ (e.txns.toList.filter (fun p => p.2.state == .active)).map (fun p => p.2.readTs) := by
    refine List.mem_map.mpr ⟨(id,entry),List.mem_filter.mpr ⟨?_,by simp [active]⟩,rfl⟩
    exact ExtTreeMap.mem_toList_iff_getElem?_eq_some.mpr registered
  unfold gcCutoff oldestActiveReadTs
  cases oldest : ((e.txns.toList.filter (fun p => p.2.state == .active)).map (fun p => p.2.readTs)).min? with
  | none => simp [List.min?_eq_none_iff.mp oldest] at inside
  | some t => exact (List.min?_eq_some_iff.mp oldest).2 _ inside

theorem gcCutoff_le_watermark (e : Engine)
    (pinned : ∀ (id : TxnId) entry, e.txns[id]? = some entry → entry.readTs ≤ e.storage.lastCommitTs) :
    e.gcCutoff ≤ e.storage.lastCommitTs := by
  unfold gcCutoff oldestActiveReadTs
  cases oldest : ((e.txns.toList.filter (fun p => p.2.state == .active)).map (fun p => p.2.readTs)).min? with
  | none => exact Nat.le_refl _
  | some t =>
    obtain ⟨p,inside,rfl⟩ := List.mem_map.mp (List.min?_eq_some_iff.mp oldest).1
    exact pinned p.1 p.2 (ExtTreeMap.mem_toList_iff_getElem?_eq_some.mp (List.mem_filter.mp inside).1)

end Engine

namespace System
section
variable [Host] {s₀ s : System} {shown : List Committed}

omit [Host] in
theorem Tracked.cutoff (tracked : Tracked s) : s.engine.gcCutoff ≤ s.engine.storage.lastCommitTs :=
  s.engine.gcCutoff_le_watermark (fun id entry found => (tracked.pinned id entry found).1)

/-- A collection at the engine's own cutoff changes no read at the snapshot of an active transaction or at the
watermark, and live records keep as many versions as configured. -/
theorem gc_preserves_snapshots (started : Started s₀) (run : Runs s₀ shown s) (rewritten : Result Nat) :
    let before := s.engine.storage
    let after := (s.engine.gc rewritten).1.storage
    (∀ t, (t = before.lastCommitTs ∨
        ∃ (id : TxnId) (entry : TxnEntry), s.engine.txns[id]? = some entry ∧ entry.state = .active ∧ entry.readTs = t) →
      ∀ c, (∀ i, after.getAsOf c i t = before.getAsOf c i t) ∧ after.scanAsOf c t = before.scanAsOf c t) ∧
    ∀ c i r, before.get c i = some r → latest (after.chainOf c i) = latest (before.chainOf c i) ∧
      ∃ dropped, after.chainOf c i = (before.chainOf c i).drop dropped ∧
        min s₀.engine.gcMinRetainedVersions (before.chainOf c i).length ≤ (after.chainOf c i).length := by
  intro before after
  obtain ⟨configured,tracked⟩ := Run.along run started.tracked
    (fun _ t => t.engine.gcMinRetainedVersions = s₀.engine.gcMinRetainedVersions) rfl
    (fun _ _ _ _ _ _ held _ _ stepped => stepped.retained.trans held)
  have isAfter : after = before.pruned s.engine.gcCutoff (max s.engine.gcMinRetainedVersions 1) := by
    cases rewritten <;> rfl
  have keep : 0 < max s.engine.gcMinRetainedVersions 1 := Nat.lt_of_lt_of_le Nat.one_pos (Nat.le_max_right _ _)
  rw [isAfter]
  refine ⟨?_,?_⟩
  · intro t isPinned c
    have later : s.engine.gcCutoff ≤ t := by
      rcases isPinned with rfl | ⟨id,entry,registered,active,rfl⟩
      · exact tracked.cutoff
      · exact s.engine.gcCutoff_le_active id entry registered active
    have same (i : RecordId) := Storage.getAsOf_pruned before s.engine.gcCutoff (max s.engine.gcMinRetainedVersions 1)
      c i t later
    exact ⟨same,Storage.scanAsOf_congr _ _ c t t same⟩
  · intro c i r isLive
    obtain ⟨newest,dropped,isDrop,kept⟩ := Storage.chainOf_pruned_live before s.engine.gcCutoff
      (max s.engine.gcMinRetainedVersions 1) c i keep r isLive
    refine ⟨newest,dropped,isDrop,Nat.le_trans ?_ kept⟩
    omega

end

theorem gc_preserves_snapshots_notes : ∃ (s : System) (shown : List Committed) (entry : TxnEntry),
      @Runs plainHost (fresh notes ⟨60,2⟩) shown s ∧ s.engine.txns[(2 : TxnId)]? = some entry ∧
        entry.state = .active ∧ entry.readTs < s.engine.storage.lastCommitTs ∧
        ∀ c i, (s.engine.gc (.ok 0)).1.storage.getAsOf c i entry.readTs =
          s.engine.storage.getAsOf c i entry.readTs := by
  obtain ⟨s,shown,run,entry,found,active,before⟩ := @exists_runs plainHost
    [.mutate (.insert "notes" [("id",.text "a"),("status",.text "new")]) (.ok ()),.begin 0 none,
      .mutate (.upsert "notes" [("id",.text "a"),("status",.text "old")]) (.ok ())] notes ⟨60,2⟩
    (fun t _ => ∃ entry ∈ t.engine.txns[(2 : TxnId)]?, entry.state = .active ∧
      entry.readTs < t.engine.storage.lastCommitTs) (by decide +kernel)
  have safe := @gc_preserves_snapshots plainHost _ s shown (@fresh_started plainHost notes ⟨60,2⟩) run (.ok 0)
  exact ⟨s,shown,entry,run,found,active,before,
    fun c => (safe.1 entry.readTs (Or.inr ⟨2,entry,found,active,rfl⟩) c).1⟩

section
variable {ev : Committed}

/-- An active transaction with an older snapshot finds a version no older. -/
def Seen (e : Engine) (k : Key) (ts : Nat) : Prop :=
  ∀ (id : TxnId) entry, e.txns[id]? = some entry → entry.state = .active → entry.readTs < ts →
    ∃ l, e.storage.latestCommitTs k.collection k.id = some l ∧ ts ≤ l

theorem mem_committed {e e' : Engine} {txn : Option Transaction}
    (inside : ev ∈ committed e e' txn) : ev.txn = txn ∧ ev.ts = e'.storage.lastCommitTs ∧
      e'.storage.lastCommitTs ≠ e.storage.lastCommitTs ∧ ∀ k, ev.Wrote k → Seen e' k ev.ts := by
  unfold committed at inside
  split at inside
  · cases inside
  · rename_i moved
    obtain rfl := List.mem_singleton.mp inside
    exact ⟨rfl,rfl,moved,fun k wrote _ _ _ _ _ => ⟨_,wrote,Nat.le_refl _⟩⟩

variable [Host] {s₀ s : System} {shown : List Committed}
  {s' : System} {a : Act} {now : List Committed} {k : Key} {ts : Nat} {txn : Transaction} {op : StagedOp}

/-- Each commit so far is at or below the watermark, and a key that it wrote has a version no older, as far as
active transactions care. -/
structure OnRecord (shown : List Committed) (s : System) : Prop where
  past : ∀ ev ∈ shown, ev.ts ≤ s.engine.storage.lastCommitTs
  seen : ∀ ev ∈ shown, ∀ k, ev.Wrote k → ∀ (id : TxnId) entry, s.engine.txns[id]? = some entry →
    entry.state = .active → entry.readTs < ev.ts →
    ∃ l, s.engine.storage.latestCommitTs k.collection k.id = some l ∧ ev.ts ≤ l

def FirstWins (shown : List Committed) : Prop :=
  ∀ ev ∈ shown, ∀ txn, ev.txn = some txn → ∀ (k : Key) op, txn.staged[k]? = some op →
    ∀ ev' ∈ shown, ev'.Wrote k → ¬(txn.readTs < ev'.ts ∧ ev'.ts < ev.ts)

/-- A transaction that the step registers has a newer snapshot, and the collector's cutoff is below every other
one. -/
theorem Stepped.seen (stepped : Stepped s a s' now) (tracked : Tracked s) (past : ts ≤ s.engine.storage.lastCommitTs)
    (seen : Seen s.engine k ts) : Seen s'.engine k ts := by
  intro id entry' found active pins
  have before : ∃ l, s.engine.storage.latestCommitTs k.collection k.id = some l ∧ ts ≤ l := by
    rcases stepped.registered id entry' found with ⟨entry,held,readTs,wasActive⟩ | ⟨_,_,readTs⟩
    · exact seen id entry held (wasActive active) (readTs ▸ pins)
    · omega
  obtain ⟨l,latest,newer⟩ := before
  have applied {txnId : TxnId} {changes : List Change} (effect : Engine.Effect s.engine s'.engine txnId changes)
      (some : changes ≠ []) : ∃ l, s'.engine.storage.latestCommitTs k.collection k.id = .some l ∧ ts ≤ l := by
    rw [effect.storage,if_neg (by simpa using some),
      Storage.latestCommitTs_applied tracked.wellFormed _ _ (Nat.lt_succ_self _)]
    split
    · exact ⟨_,rfl,Nat.le_succ_of_le past⟩
    · exact ⟨l,latest,newer⟩
  cases stepped.stored with
  | quiet storage indexes => exact ⟨l,storage ▸ latest,newer⟩
  | mutated m io isMutate changes some effect made | committed id io isCommit txn held some inTime effect admissible =>
    exact applied effect some
  | pruned rewritten isGc storage indexes =>
    have keep : 0 < max s.engine.gcMinRetainedVersions 1 := Nat.lt_of_lt_of_le Nat.one_pos (Nat.le_max_right _ _)
    have cutoff : s.engine.gcCutoff ≤ entry'.readTs := by
      rcases stepped.registered id entry' found with ⟨entry,held,readTs,wasActive⟩ | ⟨_,_,readTs⟩
      · exact readTs ▸ s.engine.gcCutoff_le_active id entry held (wasActive active)
      · exact readTs ▸ tracked.cutoff
    refine ⟨l,?_,newer⟩
    rw [storage]
    exact Storage.latestCommitTs_pruned _ _ _ _ _ keep l latest (by omega)

theorem Tracked.commit_seen (tracked : Tracked s) {id : TxnId}
    (held : s.handles[id]? = some txn) (inTime : s.engine.txns[txn.id]?.map (·.state) ≠ .some .timedOut)
    (admissible : Engine.Admissible s.engine txn) (staged : txn.staged[k]? = some op)
    (seen : Seen s.engine k ts) : ts ≤ txn.readTs := by
  obtain ⟨own,entry,registered,readTs⟩ := tracked.held id txn held
  have active : entry.state = .active := by
    rw [own,registered] at inTime
    cases state : entry.state with
    | active => rfl
    | timedOut => simp [state] at inTime
  by_contra newer
  obtain ⟨l,latest,later⟩ := seen id entry registered active (by omega)
  have := (admissible k op staged).1 l latest
  omega

theorem Stepped.commits (stepped : Stepped s a s' now) (inside : ev ∈ now) (isTxn : ev.txn = some txn) :
    ∃ id io, a = .commit id io ∧ s.handles[id]? = some txn ∧
      s.engine.txns[txn.id]?.map (·.state) ≠ .some .timedOut ∧ Engine.Admissible s.engine txn := by
  rw [stepped.shown] at inside
  obtain ⟨same,-,moved,-⟩ := mem_committed inside
  rw [isTxn] at same
  cases stepped.stored with
  | quiet storage indexes => exact absurd (by rw [storage]) moved
  | pruned rewritten isGc storage indexes => exact absurd (by rw [storage]; rfl) moved
  | mutated m io isMutate changes some effect made => simp [isMutate,committing] at same
  | committed id io isCommit txn' held some inTime effect admissible =>
    obtain rfl : txn = txn' := by
      rw [isCommit,committing,held] at same
      exact Option.some.inj same
    exact ⟨id,io,isCommit,held,inTime,admissible⟩

private theorem Stepped.calm (stepped : Stepped s a s' now)
    (tracked : Tracked s) (inside : ev ∈ now) (isTxn : ev.txn = some txn)
    (staged : txn.staged[k]? = some op) (seen : Seen s.engine k ts) : ts ≤ txn.readTs := by
  obtain ⟨_,_,_,held,inTime,admissible⟩ := stepped.commits inside isTxn
  exact tracked.commit_seen held inTime admissible staged seen

private theorem Stepped.onRecord (tracked : Tracked s)
    (record : OnRecord shown s) (wins : FirstWins shown) (stepped : Stepped s a s' now) :
    OnRecord (shown ++ now) s' ∧ FirstWins (shown ++ now) := by
  have fresh (ev : Committed) (new : ev ∈ now) : ev.ts = s'.engine.storage.lastCommitTs ∧
      s.engine.storage.lastCommitTs < ev.ts ∧ ∀ k, ev.Wrote k → Seen s'.engine k ev.ts := by
    rw [stepped.shown] at new
    obtain ⟨-,level,moved,seen⟩ := mem_committed new
    have := stepped.stored.watermark
    exact ⟨level,by omega,seen⟩
  refine ⟨⟨?_,?_⟩,?_⟩
  · intro ev inside
    rcases List.mem_append.mp inside with old | new
    · exact (record.past ev old).trans stepped.stored.watermark
    · exact Nat.le_of_eq (fresh ev new).1
  · intro ev inside k wrote
    rcases List.mem_append.mp inside with old | new
    · exact stepped.seen tracked (record.past ev old) (record.seen ev old k wrote)
    · exact (fresh ev new).2.2 k wrote
  · intro ev inside txn isTxn k op staged ev' inside' wrote
    rcases List.mem_append.mp inside' with old' | new'
    · rcases List.mem_append.mp inside with old | new
      · exact wins ev old txn isTxn k op staged ev' old' wrote
      · have := stepped.calm tracked new isTxn staged (record.seen ev' old' k wrote)
        omega
    · -- a write of this step is at the new watermark, above which nothing was shown
      have latest := (fresh ev' new').1
      rcases List.mem_append.mp inside with old | new
      · have := record.past ev old
        have := (fresh ev' new').2.1
        omega
      · have := (fresh ev new).1
        omega

/-- First committer wins: a transaction that committed with a key in its write set saw no other commit write the
key since its snapshot. -/
theorem first_committer_wins (started : Started s₀) (run : Runs s₀ shown s) :
    ∀ ev ∈ shown, ∀ txn, ev.txn = some txn → ∀ (k : Key) op, txn.staged[k]? = some op →
      ∀ ev' ∈ shown, ev'.Wrote k → ¬(txn.readTs < ev'.ts ∧ ev'.ts < ev.ts) := by
  have facts := Run.along run started.tracked (fun shown t => OnRecord shown t ∧ FirstWins shown)
    ⟨⟨by simp,by simp⟩,by simp [FirstWins]⟩
    (fun shown s a s' now tracked held _ _ stepped => stepped.onRecord tracked held.1 held.2)
  exact facts.1.2

end

theorem first_committer_wins_notes :
    ∃ (s : System) (shown : List Committed), @Runs plainHost (fresh notes ⟨60,2⟩) shown s ∧ shown.length = 3 ∧
      shown.any (fun ev => ev.txn.any (fun txn => !txn.isEmpty)) = true ∧ FirstWins shown := by
  obtain ⟨s,shown,run,three,staged⟩ := @exists_runs plainHost
    [.mutate (.insert "notes" [("id",.text "a")]) (.ok ()),.begin 0 none,
      .stage 2 (.upsert "notes" [("id",.text "a"),("status",.text "mine")]) 0,.commit 2 (.ok ()),
      .mutate (.upsert "notes" [("id",.text "a"),("status",.text "later")]) (.ok ())] notes ⟨60,2⟩
    (fun _ shown => shown.length = 3 ∧ shown.any (fun ev => ev.txn.any (fun txn => !txn.isEmpty)) = true)
    (by decide +kernel)
  exact ⟨s,shown,run,three,staged,
    @first_committer_wins plainHost _ s shown (@fresh_started plainHost notes ⟨60,2⟩) run⟩

def committedIds (shown : List Committed) : List TxnId := shown.filterMap (fun ev => ev.txn.map (·.id))

/-- The id was given out, and its transaction has ended or timed out. -/
def Finished (s : System) (id : TxnId) : Prop :=
  id < s.engine.clock ∧ ∀ txn, s.handles[id]? = some txn → ∀ entry, s.engine.txns[id]? = some entry →
    entry.state ≠ .active

/-- What is finished stays so, and what commits was not finished before and is afterwards. -/
structure Settles (s : System) (shown : List Committed) (t : System) : Prop where
  kept : ∀ id, Finished s id → Finished t id
  ended : ∀ id ∈ committedIds shown, ¬Finished s id ∧ Finished t id

section
variable [Host] {s₀ s t u : System} {a : Act} {shown later : List Committed}

private theorem Stepped.settles (stepped : Stepped s a t shown) (tracked : Tracked s)
    (taken : step s a = some (t,shown)) : Settles s shown t where
  kept id done := by
    refine ⟨done.1.trans_le stepped.clock,?_⟩
    intro txn' held entry' known active
    rcases stepped.holding id txn' held with ⟨txn,before,-⟩ | ⟨own,-⟩
    · rcases stepped.registered id entry' known with ⟨entry,found,-,was⟩ | ⟨own,-⟩
      · exact done.2 txn before entry found (was active)
      · exact absurd own done.1.ne
    · exact absurd own done.1.ne
  ended id inside := by
    obtain ⟨ev,new,named⟩ := List.mem_filterMap.mp inside
    obtain ⟨txn,isTxn,rfl⟩ := Option.map_eq_some_iff.mp named
    obtain ⟨id,io,rfl,held,inTime,-⟩ := stepped.commits new isTxn
    obtain ⟨rfl,entry,known,-⟩ := tracked.held id txn held
    refine ⟨?_,(tracked.pinned _ entry known).2.trans_le stepped.clock,?_⟩
    · intro done
      cases state : entry.state with
      | active => exact done.2 txn held entry known state
      | timedOut => simp [known,state] at inTime
    · intro txn' held'
      simp only [step,held] at taken
      split at taken <;> cases taken
      simp at held'

omit [Host] in
private theorem Settles.trans (first : Settles s shown t) (second : Settles t later u) :
    Settles s (shown ++ later) u where
  kept id done := second.kept id (first.kept id done)
  ended id inside := by
    rw [committedIds,List.filterMap_append] at inside
    rcases List.mem_append.mp inside with old | new
    · exact ⟨(first.ended id old).1,second.kept id (first.ended id old).2⟩
    · exact ⟨fun done => (second.ended id new).1 (first.kept id done),(second.ended id new).2⟩

private theorem Run.settles (tracked : Tracked s) (run : Runs s shown t) : Settles s shown t ∧ Tracked t :=
  Run.along run tracked (Settles s) ⟨fun _ done => done,by simp [committedIds]⟩
    (fun _ _ _ _ _ tracked before _ taken stepped => before.trans (stepped.settles tracked taken))

/-- A transaction commits at most once, and never after it was rolled back or timed out. -/
theorem transaction_commits_once (started : Started s₀) (run : Runs s₀ shown s) (more : Runs s later t) :
    ∀ id ∈ committedIds later, id ∉ committedIds shown ∧ ¬Finished s id := by
  obtain ⟨settled,tracked⟩ := Run.settles started.tracked run
  intro id inside
  have unfinished := ((Run.settles tracked more).1.ended id inside).1
  exact ⟨fun before => unfinished (settled.ended id before).2,unfinished⟩

end

theorem transaction_commits_once_notes : ∃ s shown, @Runs plainHost (fresh notes ⟨60,1⟩) shown s ∧
    committedIds shown = [1] ∧ Finished s 2 ∧
    ∀ later t, @Runs plainHost s later t → 1 ∉ committedIds later ∧ 2 ∉ committedIds later := by
  obtain ⟨s,shown,run,one,reaped⟩ := @exists_runs plainHost
    [.begin 0 none,.begin 0 none,.stage 1 (.insert "notes" [("id",.text "a")]) 1,.commit 1 (.ok ()),.reap 99] notes ⟨60,1⟩
    (fun s shown => committedIds shown = [1] ∧ Finished s 2) (by unfold Finished; decide +kernel)
  refine ⟨s,shown,run,one,reaped,fun later t more => ?_⟩
  have once := @transaction_commits_once plainHost _ s t shown later (@fresh_started plainHost notes ⟨60,1⟩) run more
  exact ⟨fun again => (once 1 again).1 (by simp [one]),fun again => (once 2 again).2 reaped⟩

end System

end AuraDb
