import AuraDb.Raft.Simulation

/-! Safety of a whole cluster: what one node returns as committed no other node contradicts, and it is in the
log of every later leader. -/
namespace AuraDb.Raft
open Std RaftStorage LawfulRaftStorage Library.Consensus
variable {S : Type} [RaftStorage S] [LawfulRaftStorage S]

structure Simulated (voters : List NodeId) (cut : Prop) (g : History) (shown : List Seen)
    (c : Cluster S) : Prop where
  inv : Inv voters g
  numbered : ∀ t, Numbered (g.leaderLog t)
  node : ∀ (id : NodeId) (n : RaftNode S), c.nodes[id]? = some n → Mirrors voters cut g id n
  packet : ∀ p ∈ c.sent, p.sender ∈ voters ∧ Told voters cut g p.sender p.recipient p.message
  committed : ∀ id entries, .committed id entries ∈ shown → ∀ e ∈ entries,
    ∃ t log, Committed voters g t log ∧ 0 < e.index ∧ log[e.index - 1]? = some e

namespace Simulated
variable {voters : List NodeId} {cut : Prop} {g g' : History} {shown seen : List Seen} {c c' : Cluster S}
  {i id j : NodeId} {m n : RaftNode S} {later : List Seen} {k : Nat}

section
variable (held : Simulated voters cut g shown c)
include held

theorem tracked (found : c.nodes[id]? = some n) : Tracked voters cut g id n :=
  ⟨held.node id n found,held.inv,held.numbered⟩

theorem replace (moved : Local id g g') (tracked : Tracked voters cut g' id n) (seen : List Seen)
    (other : ∀ j entries, .committed j entries ∉ seen) :
    Simulated voters cut g' (shown ++ seen) { c with nodes := c.nodes.insert id n } where
  inv := tracked.inv
  numbered := tracked.numbered
  node := Library.TreeMap.forall_insert tracked.toMirrors
    (fun j m different found => (held.node j m found).mono moved different)
  packet p inside := by
    obtain ⟨member,told⟩ := held.packet p inside
    exact ⟨member,told.mono moved.toGrows⟩
  committed j entries seen e inside := by
    rcases List.mem_append.mp seen with old | new
    · obtain ⟨t,log,chosen,position⟩ := held.committed j entries old e inside
      exact ⟨t,log,chosen.mono moved.toGrows le_rfl,position⟩
    · exact absurd new (other j entries)

theorem call {f : RaftNode S → RaftNode S} (taken : c.call id f = some (c',seen))
    (moves : ∀ n, Tracked voters cut g id n → ∃ g', Local id g g' ∧ Tracked voters cut g' id (f n)) :
    ∃ g', Grows g g' ∧ Simulated voters cut g' (shown ++ seen) c' := by
  unfold Cluster.call at taken
  split at taken
  · cases taken
  rename_i n found
  cases taken
  obtain ⟨g',moved,tracked⟩ := moves n (held.tracked found)
  refine ⟨g',moved.toGrows,held.replace moved tracked _ ?_⟩
  unfold Cluster.leadership
  split <;> simp

theorem takeCommitted (found : c.nodes[id]? = some n) :
    Simulated voters cut g (shown ++ [.committed id n.takeCommitted.2])
      { c with nodes := c.nodes.insert id n.takeCommitted.1 } := by
  have tracked := held.tracked found
  have advanced : Tracked voters cut g id n.takeCommitted.1 :=
    { tracked with applied := ⟨tracked.base,tracked.applied.2⟩ }
  have replaced := held.replace (.refl id g) advanced [] (by simp)
  refine { replaced with committed := ?_ }
  intro j entries seen e inside
  rcases List.mem_append.mp seen with old | new
  · exact held.committed j entries old e inside
  · cases List.mem_singleton.mp new
    obtain ⟨i,range,at'⟩ := List.mem_filterMap.mp inside
    have within := List.mem_range'_1.mp range
    have low := tracked.applied.1
    rw [entryAt_eq tracked.holds (by omega)] at at'
    have position := LawfulRaftStorage.numbered tracked.holds _ e at'
    refine ⟨g.term id,_,tracked.committed,by omega,?_⟩
    rw [List.getElem?_take_of_lt (by omega)]
    have same : e.index - 1 = i - 1 := by omega
    rw [same,at']

end

theorem step (held : Simulated voters cut g shown c) {act : ClusterAct} (taken : c.step act = some (c',seen))
    (whole : ∀ position p, act = .deliver position → c.sent[position]? = some p → Whole p.message) :
    ∃ g', Grows g g' ∧ Simulated voters cut g' (shown ++ seen) c' := by
  cases act with
  | tick id => exact held.call taken (fun n tracked => tracked.tick)
  | campaign id => exact held.call taken (fun n tracked => tracked.campaign)
  | propose id command => exact held.call taken (fun n tracked => tracked.propose command)
  | restart id => exact held.call taken (fun n tracked => ⟨g,.refl id g,tracked.restart⟩)
  | deliver position =>
    simp only [Cluster.step] at taken
    split at taken
    · cases taken
    rename_i packet found
    obtain ⟨member,told⟩ := held.packet packet (List.mem_of_getElem? found)
    apply held.call taken
    intro n tracked
    obtain ⟨g',moved,tracked',-⟩ := tracked.step member told (whole position packet rfl found)
    exact ⟨g',moved,tracked'⟩
  | collect id =>
    simp only [Cluster.step,RaftNode.takeMessages] at taken
    split at taken
    · cases taken
    rename_i n found
    cases taken
    have tracked := held.tracked found
    have emptied : Tracked voters cut g id { n with outbox := [] } := { tracked with outbox := by simp }
    have replaced := held.replace (.refl id g) emptied [] (by simp)
    refine ⟨g,.refl g,replaced.inv,replaced.numbered,replaced.node,?_,by simpa using held.committed⟩
    intro p inside
    rcases List.mem_append.mp inside with old | new
    · exact held.packet p old
    · obtain ⟨e,queued,rfl⟩ := List.mem_map.mp new
      exact ⟨tracked.member,tracked.outbox e queued⟩
  | takeCommitted id =>
    simp only [Cluster.step] at taken
    split at taken
    · cases taken
    · rename_i n found
      cases taken
      exact ⟨g,.refl g,held.takeCommitted found⟩

theorem run (held : Simulated voters cut g shown c) {admitted : Cluster S → ClusterAct → Prop}
    (whole : ∀ g shown c position p, Simulated voters cut g shown c → admitted c (.deliver position) →
      c.sent[position]? = some p → Whole p.message) (run : Library.Run Cluster.step admitted c later c') :
    ∃ g', Grows g g' ∧ Simulated voters cut g' (shown ++ later) c' := by
  induction run with
  | start => exact ⟨g,.refl g,by simpa using held⟩
  | next before act allowed taken ih =>
    obtain ⟨g1,grows,held1⟩ := ih
    obtain ⟨g2,grows',held2⟩ := held1.step taken (by
      rintro position p rfl found
      exact whole g1 _ _ position p held1 allowed found)
    exact ⟨g2,grows.trans grows',by simpa using held2⟩

theorem run_uncompacted (held : Simulated voters False g shown c)
    (run : Library.Run Cluster.step (fun _ _ => True) c later c') :
    ∃ g', Grows g g' ∧ Simulated voters False g' (shown ++ later) c' := by
  apply held.run _ run
  intro g shown c position p held _ found
  exact (held.packet p (List.mem_of_getElem? found)).2.whole (fun no => no) held.numbered

theorem start {config : NodeId → RaftConfig} (shared : Shared voters config) (storage : NodeId → S)
    (fresh : ∀ id ∈ voters, Holds (storage id) [] ∧ hardState (storage id) = {}) :
    Simulated voters cut State.initial [] (Cluster.start voters config storage) where
  inv := .initial
  numbered t i e found := by simp [State.initial] at found
  node id n found := by
    rw [Cluster.nodes_start] at found
    split at found
    · rename_i member
      cases found
      obtain ⟨empty,unused⟩ := fresh id member
      have zero : LawfulRaftStorage.base (storage id) = 0 := by simpa using base_le empty
      refine ⟨(shared id member).1,shared.voters_eq member,member,?_,?_,?_,empty,rfl,?_,?_,?_,?_,?_,?_,?_⟩
      · intro peer inside
        exact List.mem_of_mem_erase ((shared id member).2.mem_iff.mp inside)
      · change (hardState (storage id)).currentTerm = 0
        rw [unused]
      · change (hardState (storage id)).votedFor = none
        rw [unused]
      · change LawfulRaftStorage.base (storage id) ≤ _
        rw [zero]
        exact Nat.zero_le _
      · change LawfulRaftStorage.base (storage id) ≤ _ ∧ (0 < LawfulRaftStorage.base (storage id) → cut)
        rw [zero]
        exact ⟨Nat.zero_le _,fun no => absurd no (Nat.lt_irrefl 0)⟩
      · change (hardState (storage id)).commitIndex ≤ 0
        rw [unused]
      · exact .inl (by simp [State.initial])
      · intro role
        cases role
      · intro role
        cases role
      · intro e inside
        cases inside
    · cases found
  packet p inside := by cases inside
  committed id entries seen := by cases seen

theorem committed_unique (held : Simulated voters cut g shown c) {entries entries' : List LogEntry} {e e' : LogEntry}
    (one : .committed i entries ∈ shown) (two : .committed j entries' ∈ shown) (inside : e ∈ entries)
    (inside' : e' ∈ entries') (same : e.index = e'.index) : e = e' := by
  obtain ⟨t,log,chosen,-,at'⟩ := held.committed i entries one e inside
  obtain ⟨t',log',chosen',-,at''⟩ := held.committed j entries' two e' inside'
  rw [← same] at at''
  have agree : ∀ {short long : List LogEntry} {k : Nat} {x y : LogEntry}, short <+: long →
      short[k]? = some x → long[k]? = some y → x = y := by
    rintro short _ k x y ⟨rest,rfl⟩ first second
    rw [List.getElem?_append_left (List.getElem?_eq_some_iff.mp first).1,first] at second
    exact Option.some.inj second
  rcases chosen.total held.inv chosen' with short | long
  · exact agree short at' at''
  · exact (agree long at'' at').symm

theorem entryAt_log (held : Simulated voters False g shown c) (found : c.nodes[id]? = some n)
    (positive : 0 < k) : entryAt n.storage k = (g.log id)[k - 1]? := by
  have mirrors := held.node id n found
  have uncut : LawfulRaftStorage.base n.storage = 0 := by
    by_contra some
    exact mirrors.applied.2 (Nat.pos_of_ne_zero some)
  exact entryAt_eq mirrors.holds (uncut ▸ positive)

theorem getElem?_of_take {log log' : List LogEntry} {i : Nat} (same : log.take k = log'.take k) (lt : i < k) :
    log[i]? = log'[i]? := by
  rw [← List.getElem?_take_of_lt lt,same,List.getElem?_take_of_lt lt]

theorem committed_agree (held : Simulated voters cut g shown c) (first : c.nodes[i]? = some n)
    (second : c.nodes[j]? = some m) (le : k ≤ n.commitIndex)
    (le' : k ≤ m.commitIndex) : (g.log i).take k = (g.log j).take k := by
  have mirrors := held.node i n first
  have mirrors' := held.node j m second
  have bound := mirrors.bound
  have bound' := mirrors'.bound
  have shorter := mirrors.committed.of_shorter (List.take_prefix k _)
  have shorter' := mirrors'.committed.of_shorter (List.take_prefix k _)
  rw [List.take_take,Nat.min_eq_left le] at shorter
  rw [List.take_take,Nat.min_eq_left le'] at shorter'
  have length : ((g.log i).take k).length = ((g.log j).take k).length := by
    rw [List.length_take_of_le (by omega),List.length_take_of_le (by omega)]
  rcases shorter.total held.inv shorter' with short | long
  · exact short.eq_of_length length
  · exact (long.eq_of_length length.symm).symm

section
variable (held : Simulated voters False g shown c)
include held

section
variable (held' : Simulated voters False g' later c')
include held'

theorem log_matching (grows : Grows g g') (first : c.nodes[i]? = some n)
    (second : c'.nodes[j]? = some m) {e e' : LogEntry} (positive : 0 < k) (at' : entryAt n.storage k = some e)
    (at'' : entryAt m.storage k = some e') (sameTerm : e.term = e'.term) {l : Nat} (low : 0 < l) (le : l ≤ k) :
    entryAt n.storage l = entryAt m.storage l := by
  rw [held.entryAt_log first positive] at at'
  rw [held'.entryAt_log second positive] at at''
  have term : termOf (g.log i) k = some e.term := by
    rw [termOf,if_neg (Nat.ne_of_gt positive),at']
    rfl
  have term' : termOf (g'.log j) k = some e.term := by
    rw [termOf,if_neg (Nat.ne_of_gt positive),at'',sameTerm]
    rfl
  have same := take_eq_of_termOf ((held.inv.grounded i).mono grows) (held'.inv.grounded j) term term'
  rw [held.entryAt_log first low,held'.entryAt_log second low]
  exact getElem?_of_take same (by omega)

private theorem entry_of_shorter (first : c.nodes[i]? = some n)
    (second : c'.nodes[j]? = some m) (inside : (g.log i).take n.commitIndex <+: g'.log j) (positive : 0 < k)
    (le : k ≤ n.commitIndex) : entryAt m.storage k = entryAt n.storage k := by
  rw [held.entryAt_log first positive,held'.entryAt_log second positive]
  have bound := (held.node i n first).bound
  obtain ⟨rest,whole⟩ := inside
  rw [← whole,List.getElem?_append_left (by rw [List.length_take_of_le bound]; omega),
    List.getElem?_take_of_lt (by omega)]

theorem later_leader_complete (grows : Grows g g')
    (first : c.nodes[i]? = some n) (second : c'.nodes[j]? = some m) (role : m.role = .leader) (after : n.term < m.term)
    (positive : 0 < k) (le : k ≤ n.commitIndex) : entryAt m.storage k = entryAt n.storage k := by
  have mirrors := held.node i n first
  have mirrors' := held'.node j m second
  obtain ⟨leads,own,-,-⟩ := mirrors'.leader role
  rw [mirrors.term,mirrors'.term] at after
  apply held.entry_of_shorter held' first second _ positive le
  rw [← own]
  exact (mirrors.committed.mono grows le_rfl).leader held'.inv after.le (by simp [leads])

theorem earlier_leader_complete (grows : Grows g g')
    (first : c'.nodes[i]? = some n) (second : c.nodes[j]? = some m) (role : m.role = .leader) (after : n.term < m.term)
    (positive : 0 < k) (le : k ≤ n.commitIndex) : entryAt m.storage k = entryAt n.storage k := by
  have mirrors := held'.node i n first
  have mirrors' := held.node j m second
  obtain ⟨leads,own,-,-⟩ := mirrors'.leader role
  have led : g.lead (g.term j) ≠ none := by simp [leads]
  rw [mirrors.term,mirrors'.term] at after
  apply held'.entry_of_shorter held first second _ positive le
  rw [← own]
  have inside := mirrors.committed.elected held'.inv after (grows.led led)
  rw [grows.elected _ led] at inside
  exact inside.trans (held.inv.elected_shorter led)

end

end

end Simulated

/-- On an uncompacted log: no two nodes return different entries at one index as committed; two logs with the
same term at an index are equal up to it; and what a node has committed is in the log of every leader of a later
term. -/
theorem state_machine_safety {voters : List NodeId} {config : NodeId → RaftConfig} (shared : Shared voters config)
    (storage : NodeId → S) (fresh : ∀ id ∈ voters, Holds (storage id) [] ∧ hardState (storage id) = {})
    {shown later : List Seen} {c c' : Cluster S}
    (run : Library.Run Cluster.step (fun _ _ => True) (Cluster.start voters config storage) shown c)
    (more : Library.Run Cluster.step (fun _ _ => True) c later c') :
    (∀ i j entries entries' e e', .committed i entries ∈ shown → .committed j entries' ∈ shown →
      e ∈ entries → e' ∈ entries' → e.index = e'.index → e = e') ∧
    (∀ (i j : NodeId) (n m : RaftNode S) (k : Nat) (e e' : LogEntry), c.nodes[i]? = some n →
      c'.nodes[j]? = some m → 0 < k → entryAt n.storage k = some e → entryAt m.storage k = some e' →
      e.term = e'.term → ∀ l, 0 < l → l ≤ k → entryAt n.storage l = entryAt m.storage l) ∧
    (∀ (i j : NodeId) (n m : RaftNode S), c.nodes[i]? = some n ∧ c'.nodes[j]? = some m ∨
        c'.nodes[i]? = some n ∧ c.nodes[j]? = some m →
      m.role = .leader → n.term < m.term →
      ∀ k, 0 < k → k ≤ n.commitIndex → entryAt m.storage k = entryAt n.storage k) := by
  obtain ⟨g,-,held⟩ := (Simulated.start shared storage fresh).run_uncompacted run
  obtain ⟨g',grows,held'⟩ := held.run_uncompacted more
  refine ⟨?_,?_,?_⟩
  · intro i j entries entries' e e' one two inside inside' same
    exact held.committed_unique one two inside inside' same
  · intro i j n m k e e' first second positive at' at'' same l low le
    exact held.log_matching held' grows first second positive at' at'' same low le
  · rintro i j n m (⟨first,second⟩ | ⟨first,second⟩) role after k positive le
    · exact held.later_leader_complete held' grows first second role after positive le
    · exact held.earlier_leader_complete held' grows first second role after positive le

theorem file_fresh (voters : List NodeId) : ∀ id ∈ voters, Holds ((fun _ => {} : NodeId → FileStorage) id) [] ∧
    hardState ((fun _ => {} : NodeId → FileStorage) id) = {} := by
  intro id _
  exact ⟨⟨fun i e found => by simp at found,le_rfl,rfl,rfl⟩,rfl⟩

theorem trio_fresh : ∀ id ∈ [1,2,3], Holds ((fun _ => {} : NodeId → MemStorage) id) [] ∧
    hardState ((fun _ => {} : NodeId → MemStorage) id) = {} := by
  intro id _
  exact ⟨⟨rfl,fun i e found => by simp at found⟩,rfl⟩

theorem state_machine_safety_trio : ∃ shown c,
    Library.Run Cluster.step (fun _ _ => True) (Cluster.start [1,2,3] trio (fun _ => ({} : MemStorage))) shown c ∧
    .committed 1 [⟨1,1,.noop⟩] ∈ shown ∧ .committed 2 [⟨1,1,.noop⟩] ∈ shown ∧
    ∀ j entries e, .committed j entries ∈ shown → e ∈ entries → e.index = 1 → e = ⟨1,1,.noop⟩ := by
  obtain ⟨c,shown,run,one,two⟩ := Library.Run.exists_free Cluster.step
    [.campaign 1,.collect 1,.deliver 0,.collect 2,.deliver 2,.collect 1,.deliver 3,.collect 2,
      .deliver 5,.takeCommitted 1,.propose 1 (.new .database [7]),.collect 1,.deliver 6,.takeCommitted 2]
    (Cluster.start [1,2,3] trio (fun _ => ({} : MemStorage)))
    (fun _ shown => Seen.committed 1 [⟨1,1,.noop⟩] ∈ shown ∧ Seen.committed 2 [⟨1,1,.noop⟩] ∈ shown)
    (by decide +kernel)
  refine ⟨shown,c,run,one,two,?_⟩
  intro j entries e seen inside first
  exact (state_machine_safety trio_shared _ trio_fresh run (.start c)).1 j 1 entries _ e _ seen one inside
    (List.mem_singleton_self _) first

end AuraDb.Raft
