import AuraDb.Raft.Mirror

/-! Every call on a node is a number of abstract steps of that node: what it stores,
sends and believes after the call is covered by a later history. -/
namespace AuraDb.Raft
open Std RaftStorage LawfulRaftStorage Library.Consensus Library.TreeMap
variable {S : Type} [RaftStorage S] [LawfulRaftStorage S]
  {voters : List NodeId} {cut : Prop} {g : History} {id : NodeId} {n n' : RaftNode S}

namespace Tracked
section
variable (tracked : Tracked voters cut g id n)
include tracked

theorem of_eq (config : n'.config = n.config) (storage : n'.storage = n.storage) (role : n'.role = n.role)
    (commit : n'.commitIndex = n.commitIndex) (applied : n'.lastApplied = n.lastApplied)
    (next : n'.nextIndex = n.nextIndex) (matched : n'.matchIndex = n.matchIndex) (votes : n'.votes = n.votes)
    (outbox : n'.outbox = n.outbox) : Tracked voters cut g id n' := by
  cases n'
  subst config storage role commit applied next matched votes outbox
  exact { tracked with }

theorem send {recipient : NodeId} {message : Message}
    (told : Told voters cut g id recipient message) : Tracked voters cut g id (n.send recipient message) := by
  refine { tracked with outbox := ?_ }
  intro e inside
  rcases List.mem_append.mp inside with old | new
  · exact tracked.outbox e old
  · rw [List.mem_singleton.mp new]
    exact told

theorem told_append (role : n.role = .leader) {next : Nat} (positive : 0 < next) (le : next ≤ (g.log id).length + 1)
    (peer : NodeId) :
    Told voters cut g id peer (.appendEntries n.term (next - 1) ((termAt n.storage (next - 1)).getD 0)
      (entriesFrom n.storage next) n.commitIndex) := by
  obtain ⟨leads,own,-,-⟩ := tracked.leader role
  have bound := tracked.bound
  have low := tracked.base
  rw [tracked.term]
  refine ⟨leads,?_⟩
  rw [entriesFrom_eq tracked.holds]
  rcases Nat.lt_or_ge (next - 1) (LawfulRaftStorage.base n.storage) with below | retained
  · refine .inr ⟨tracked.applied.2 (Nat.zero_lt_of_lt below),?_⟩
    rcases Nat.eq_zero_or_pos (next - 1) with zero | after
    · refine .inr ⟨zero,?_⟩
      rw [zero,Nat.zero_max]
      rintro ⟨first,commit⟩
      rcases Nat.lt_or_ge (LawfulRaftStorage.base n.storage) (g.log id).length with some | none
      · have head := LawfulRaftStorage.numbered tracked.holds _ _ (List.getElem?_eq_getElem some)
        have start := first _ (by rw [List.head?_drop,List.getElem?_eq_getElem some]; rfl)
        omega
      · rw [List.drop_eq_nil_of_le none] at commit
        simp only [List.length_nil] at commit
        omega
    · exact .inl ⟨after,by rw [termAt_cut tracked.holds after below]; rfl⟩
  · refine .inl ?_
    rw [Nat.max_eq_left retained,termAt_eq tracked.holds retained]
    have whole : (g.log id).take (next - 1) ++ (g.log id).drop (next - 1) = g.log id := List.take_append_drop ..
    have known : ∃ term, termOf (g.log id) (next - 1) = some term := by
      unfold termOf
      split
      · exact ⟨0,rfl⟩
      · exact ⟨_,by rw [List.getElem?_eq_getElem (by omega)]; rfl⟩
    obtain ⟨prevTerm,known⟩ := known
    refine ⟨?_,?_,?_,?_,?_⟩
    · rw [own]
      omega
    · rw [own,whole]
    · rw [own,known]
      rfl
    · rw [List.length_drop]
      omega
    · rw [own]
      exact tracked.committed

theorem sendAppendTo (role : n.role = .leader) (peer : NodeId) : Tracked voters cut g id (n.sendAppendTo peer) := by
  have next : 0 < n.nextIndex[peer]?.getD (lastIndex n.storage + 1) ∧
      n.nextIndex[peer]?.getD (lastIndex n.storage + 1) ≤ (g.log id).length + 1 := by
    rw [lastIndex_eq tracked.holds]
    cases found : n.nextIndex[peer]? with
    | none => simp
    | some k => exact (tracked.leader role).2.2.2 peer k found
  exact tracked.send (tracked.told_append role next.1 next.2 peer)

theorem broadcastAppend (role : n.role = .leader) : Tracked voters cut g id n.broadcastAppend := by
  refine (List.foldlRecOn (motive := fun m : RaftNode S => Tracked voters cut g id m ∧ m.role = .leader) _ _
    ⟨tracked,role⟩ ?_).1
  exact fun m held peer _ => ⟨held.1.sendAppendTo held.2 peer,held.2⟩

end

theorem commit (tracked : Tracked voters cut g id n) {index : Nat} (more : n.commitIndex ≤ index)
    (bound : index ≤ (g.log id).length) (committed : Committed voters g (g.term id) ((g.log id).take index)) :
    Tracked voters cut g id (RaftNode.persistCommitIndex { n with commitIndex := index }).1 := by
  unfold RaftNode.persistCommitIndex
  dsimp only
  have low := tracked.base
  split
  · refine { tracked with
      term := ?_, votedFor := ?_, holds := ?_, saved := ?_, base := ?_, applied := ?_, bound, committed }
    · simpa [RaftNode.saveHardState,RaftNode.term] using tracked.term
    · simpa [RaftNode.saveHardState] using tracked.votedFor
    · exact save _ tracked.holds
    · simp [RaftNode.saveHardState]
    · simp only [RaftNode.saveHardState,base_save]
      omega
    · simpa [RaftNode.saveHardState,base_save] using tracked.applied
  · rename_i same
    simp only [ne_eq,not_not] at same
    exact { tracked with saved := same, base := tracked.base.trans more, bound, committed }

section
variable (tracked : Tracked voters cut g id n)
include tracked

theorem maybeAdvanceCommit (role : n.role = .leader) : Tracked voters cut g id n.maybeAdvanceCommit.1 := by
  unfold RaftNode.maybeAdvanceCommit
  dsimp only
  split
  · obtain ⟨leads,own,matched,-⟩ := tracked.leader role
    rcases n.replicatedIndex_cases with same | ⟨more,within,enough,ownTerm⟩
    · omega
    rw [lastIndex_eq tracked.holds] at within
    have low := tracked.base
    rw [termAt_eq tracked.holds (by omega),tracked.term] at ownTerm
    obtain ⟨e,split,-,stamp⟩ := take_of_termOf ownTerm (by omega)
    apply tracked.commit more.le within
    refine .inr ⟨g.term id,(g.log id).take n.replicatedIndex,le_rfl,?_,List.prefix_rfl⟩
    rw [← own] at split ⊢
    apply chosen_of_acks _ split stamp
    apply RaftConfig.majority_of_count (p := fun m => decide (m ≥ n.replicatedIndex)) tracked.size _ enough
    intro j m found reached
    obtain ⟨member,acked⟩ := matched j m found
    exact ⟨member,(of_decide_eq_true reached).trans acked⟩
  · exact tracked

theorem appended (role : n.role = .leader) {command : Command} {s : S}
    (holds : Holds s (g.log id ++ [⟨g.term id,(g.log id).length + 1,command⟩]))
    (sameBase : LawfulRaftStorage.base s = LawfulRaftStorage.base n.storage)
    (sameHard : hardState s = hardState n.storage) : ∃ g', Local id g g' ∧ g'.term id = g.term id ∧
      g'.log id = g.log id ++ [⟨g.term id,(g.log id).length + 1,command⟩] ∧
      Tracked voters cut g' id { n with
        storage := s, matchIndex := n.matchIndex.insert id ((g.log id).length + 1) } := by
  obtain ⟨leads,own,matched,nexts⟩ := tracked.leader role
  have first : Step voters id g _ := .append g ⟨g.term id,(g.log id).length + 1,command⟩ leads own rfl
  have inv := first.inv tracked.inv
  have moved := first.local tracked.inv
  set grown : History := { g with
    leaderLog := Function.update g.leaderLog (g.term id)
      (g.log id ++ [⟨g.term id,(g.log id).length + 1,command⟩])
    log := Function.update g.log id (g.log id ++ [⟨g.term id,(g.log id).length + 1,command⟩]) } with eq
  have second : Step voters id grown _ := .ack grown ((g.log id).length + 1) (by simp [eq]) (by
    simp only [eq,Function.update_self]
    exact List.take_prefix ..)
  refine ⟨_,moved.trans (second.local inv),rfl,by simp [eq],?_⟩
  have grows := moved.toGrows.trans (second.grows inv)
  refine ⟨⟨tracked.self,tracked.size,tracked.member,tracked.peers,?_,?_,?_,?_,?_,?_,?_,?_,?_,?_,?_⟩,second.inv inv,?_⟩
  · simpa [RaftNode.term,sameHard] using tracked.term
  · simpa [sameHard] using tracked.votedFor
  · simpa [eq] using holds
  · simpa [sameHard] using tracked.saved
  · simpa [sameBase] using tracked.base
  · simpa [sameBase] using tracked.applied
  · simpa [eq] using tracked.bound.trans (Nat.le_succ _)
  · simp only [eq,Function.update_self]
    rw [List.take_append_of_le_length tracked.bound]
    exact tracked.committed.mono grows le_rfl
  · intro other
    rw [role] at other
    cases other
  · intro _
    refine ⟨leads,by simp [eq],?_,?_⟩
    · apply forall_insert
      · exact ⟨tracked.member,by simp [eq]⟩
      · intro j m _ found
        obtain ⟨member,le⟩ := matched j m found
        exact ⟨member,le.trans (grows.acked j _)⟩
    · intro j k found
      obtain ⟨positive,le⟩ := nexts j k found
      exact ⟨positive,by simp [eq]; omega⟩
  · intro e inside
    exact (tracked.outbox e inside).mono grows
  · intro t
    rcases eq_or_ne t (g.term id) with rfl | other
    · simpa [eq] using LawfulRaftStorage.numbered holds
    · simpa [eq,other] using tracked.numbered t

theorem append_stored (command : Command) :
    ∃ s, RaftStorage.append n.storage [⟨g.term id,(g.log id).length + 1,command⟩] = (s,.ok ()) ∧
      Holds s (g.log id ++ [⟨g.term id,(g.log id).length + 1,command⟩]) ∧
      base s = base n.storage := by
  have later : lastTerm (g.log id) ≤ g.term id := by
    rcases List.eq_nil_or_concat (g.log id) with none | ⟨front,x,last⟩
    · rw [none]
      exact Nat.zero_le _
    · rw [last,List.concat_eq_append,lastTerm_concat]
      exact tracked.inv.past id x (by simp [last])
  exact append_next tracked.holds rfl later

theorem appendOwn (role : n.role = .leader) (command : Command) :
    (n.appendOwn command).2 = .ok ((g.log id).length + 1) ∧ ∃ g', Local id g g' ∧ g'.term id = g.term id ∧
      g'.log id = g.log id ++ [⟨g.term id,(g.log id).length + 1,command⟩] ∧
      Tracked voters cut g' id (n.appendOwn command).1 := by
  obtain ⟨s,stored,holds,sameBase⟩ := tracked.append_stored command
  have sameHard : hardState s = hardState n.storage := by
    have kept := LawfulHardState.hardState_append n.storage [⟨g.term id,(g.log id).length + 1,command⟩]
    rwa [stored] at kept
  obtain ⟨g',moved,term,log,grown⟩ := tracked.appended role holds sameBase sameHard
  have counted := grown.maybeAdvanceCommit role
  have ok := RaftNode.maybeAdvanceCommit_ok { n with
    storage := s, matchIndex := n.matchIndex.insert id ((g.log id).length + 1) }
  have kept := (RaftNode.replicates_keeps { n with
    storage := s, matchIndex := n.matchIndex.insert id ((g.log id).length + 1) }).maybeAdvanceCommit (.refl _)
  unfold RaftNode.appendOwn
  simp only [RaftNode.append,lastIndex_eq tracked.holds,tracked.term,stored,tracked.self]
  split
  · rename_i failed
    rw [failed] at ok
    cases ok
  · rename_i m done
    rw [done] at counted kept
    exact ⟨rfl,g',moved,term,log,counted.broadcastAppend (kept.role.trans role)⟩

section
variable (stood : g.stood id (g.term id) = some (g.log id)) (free : g.lead (g.term id) ≠ some id)
  (won : Majority voters (fun j => g.vote j (g.term id) = some id))
include stood free won

theorem elected : ∃ g', Local id g g' ∧ Tracked voters cut g' id n.lead := by
  have unled : g.lead (g.term id) = none := by
    cases leads : g.lead (g.term id) with
    | none => rfl
    | some c =>
      have same := tracked.inv.lead_unique leads won
      exact absurd (same ▸ leads) free
  have first : Step voters id g _ := .elect g (g.term id) stood won unled
  have inv := first.inv tracked.inv
  have moved := first.local tracked.inv
  set led : History := { g with
    lead := Function.update g.lead (g.term id) (some id)
    elected := Function.update g.elected (g.term id) (g.log id)
    leaderLog := Function.update g.leaderLog (g.term id) (g.log id) } with eq
  have second : Step voters id led _ := .ack led (g.log id).length (by simp [eq]) (by simp [eq])
  have grows := moved.toGrows.trans (second.grows inv)
  refine ⟨_,moved.trans (second.local inv),{ tracked with
    committed := tracked.committed.mono grows le_rfl
    candidate := nofun
    leader := fun _ => ?_
    outbox := fun e inside => (tracked.outbox e inside).mono grows
    inv := second.inv inv
    numbered := fun t => ?_ }⟩
  · refine ⟨by simp [eq],by simp [eq],?_,?_⟩
    · apply forall_insert
      · rw [tracked.self,lastIndex_eq tracked.holds]
        exact ⟨tracked.member,by simp [eq]⟩
      · intro j m _ found
        rw [RaftNode.getElem?_trackPeers] at found
        split at found
        · rename_i peer
          cases found
          exact ⟨tracked.peers j peer,Nat.zero_le _⟩
        · cases found
    · intro j k found
      simp only [RaftNode.lead,RaftNode.getElem?_trackPeers,lastIndex_eq tracked.holds] at found
      split at found
      · cases found
        exact ⟨Nat.succ_pos _,le_rfl⟩
      · cases found
  · rcases eq_or_ne t (g.term id) with rfl | other
    · simpa [eq] using LawfulRaftStorage.numbered tracked.holds
    · simpa [eq,other] using tracked.numbered t

theorem becomeLeader : ∃ g', Local id g g' ∧ Tracked voters cut g' id n.becomeLeader.1 := by
  obtain ⟨g',moved,leads⟩ := tracked.elected stood free won
  obtain ⟨ok,g'',moved',-,-,grown⟩ := leads.appendOwn rfl .noop
  exact ⟨g'',moved.trans moved',by rwa [RaftNode.becomeLeader_fst]⟩

end

theorem becomeFollower (term : Nat) (leader : Option NodeId) :
    ∃ g', Local id g g' ∧ Tracked voters cut g' id (n.becomeFollower term leader).1 := by
  rw [RaftNode.becomeFollower_eq]
  rcases Nat.lt_or_ge n.term term with newer | older
  · simp only [if_pos newer]
    rw [tracked.term] at newer
    have entered : Step voters id g _ := .bump g term newer
    have grows := entered.grows tracked.inv
    refine ⟨_,entered.local tracked.inv,⟨tracked.self,tracked.size,tracked.member,tracked.peers,?_,?_,
      save _ tracked.holds,?_,?_,?_,tracked.bound,?_,by simp,by simp,
      fun e inside => (tracked.outbox e inside).mono grows⟩,entered.inv tracked.inv,tracked.numbered⟩
    · simp [RaftNode.term]
    · have unused : g.vote id term = none := by
        cases voted : g.vote id term with
        | none => rfl
        | some c =>
          have upto := (tracked.inv.voted id term c voted).1
          omega
      simpa using unused.symm
    · simpa using tracked.saved
    · simpa [base_save] using tracked.base
    · simpa [base_save] using tracked.applied
    · simpa using tracked.committed.mono grows (u := term) newer.le
  · simp only [if_neg (Nat.not_lt.mpr older)]
    exact ⟨g,.refl id g,{ tracked with candidate := by simp, leader := by simp }⟩

theorem stand : ∃ g', Local id g g' ∧ Tracked voters cut g' id n.stand := by
  have entered : Step voters id g _ := .stand g (g.term id + 1) (Nat.lt_succ_self _)
  have grows := entered.grows tracked.inv
  refine ⟨_,entered.local tracked.inv,⟨tracked.self,tracked.size,tracked.member,tracked.peers,?_,?_,
    save _ tracked.holds,?_,?_,?_,tracked.bound,?_,?_,?_,
    fun e inside => (tracked.outbox e inside).mono grows⟩,entered.inv tracked.inv,tracked.numbered⟩
  all_goals simp only [RaftNode.stand,RaftNode.saveHardState,RaftNode.resetElectionTimeout,RaftNode.term,
    LawfulHardState.hardState_save,base_save,Function.update_self]
  · rw [← tracked.term]
    rfl
  · rw [tracked.self]
  · exact tracked.saved
  · exact tracked.base
  · exact tracked.applied
  · exact tracked.committed.mono grows (Nat.le_succ _)
  · intro _
    refine ⟨trivial,?_,?_⟩
    · intro leads
      -- Nobody has led with a term this node has not entered.
      have voted := (tracked.inv.stands id _ _ (tracked.inv.led _ id leads).1).2.1
      have upto := (tracked.inv.voted id _ id voted).1
      omega
    · intro j held
      rw [n.own_vote_stand held,tracked.self]
      exact ⟨tracked.member,by simp⟩
  · intro role
    cases role

theorem majority_of_votes (role : n.role = .candidate)
    (enough : n.config.majority ≤ n.votes.toList.countP (fun p => p.2)) :
    Majority voters (fun j => g.vote j (g.term id) = some id) := by
  apply RaftConfig.majority_of_count (p := fun granted => granted) tracked.size _ enough
  intro j granted found yes
  exact (tracked.candidate role).2.2 j (yes ▸ found)

theorem requestVotes (peers : List NodeId) (message : Message) (told : ∀ peer, Told voters cut g id peer message) :
    Tracked voters cut g id (peers.foldl (fun m peer => m.send peer message) n) :=
  List.foldlRecOn _ _ tracked (fun _ held peer _ => held.send (told peer))

theorem campaign : ∃ g', Local id g g' ∧ Tracked voters cut g' id n.campaign := by
  obtain ⟨g',moved,stands⟩ := tracked.stand
  obtain ⟨stood,free,-⟩ := stands.candidate rfl
  unfold RaftNode.campaign
  dsimp only
  split
  · rename_i alone
    have enough := alone.trans n.one_vote_stand
    obtain ⟨g'',moved',leads⟩ := stands.becomeLeader stood free (stands.majority_of_votes rfl enough)
    exact ⟨g'',moved.trans moved',leads⟩
  · refine ⟨g',moved,stands.requestVotes _ _ ?_⟩
    intro peer
    refine ⟨g'.log id,?_,(lastIndex_eq stands.holds).symm,(lastTerm_eq stands.holds).symm⟩
    rw [stands.term]
    exact stood

theorem tick : ∃ g', Local id g g' ∧ Tracked voters cut g' id n.tick := by
  have waited : Tracked voters cut g id { n with electionElapsed := n.electionElapsed + 1 } :=
    tracked.of_eq rfl rfl rfl rfl rfl rfl rfl rfl rfl
  unfold RaftNode.tick
  split
  · rename_i role
    refine ⟨g,.refl id g,?_⟩
    dsimp only
    split
    · refine broadcastAppend ?_ role
      exact tracked.of_eq rfl rfl rfl rfl rfl rfl rfl rfl rfl
    · exact tracked.of_eq rfl rfl rfl rfl rfl rfl rfl rfl rfl
  all_goals
    dsimp only
    split
    · exact waited.campaign
    · exact ⟨g,.refl id g,waited⟩

end

variable {sender : NodeId} {leaderCommit prevLogIndex prevLogTerm sent term : Nat} {entries : List LogEntry}
section
variable (tracked : Tracked voters cut g id n)
include tracked

theorem handleVoteResp {granted : Bool} (member : sender ∈ voters)
    (told : Told voters cut g sender id (.requestVoteResp term granted)) :
    ∃ g', Local id g g' ∧ Tracked voters cut g' id (n.handleVoteResp sender term granted).1 := by
  unfold RaftNode.handleVoteResp
  split
  · exact ⟨g,.refl id g,tracked⟩
  rename_i standing
  simp only [not_or,not_not] at standing
  obtain ⟨role,rfl⟩ := standing
  obtain ⟨stood,free,votes⟩ := tracked.candidate role
  have counted : Tracked voters cut g id { n with votes := n.votes.insert sender granted } := by
    refine { tracked with candidate := fun _ => ⟨stood,free,?_⟩ }
    intro j held
    apply forall_insert (P := fun j yes => yes = true → j ∈ voters ∧ g.vote j (g.term id) = some id)
      _ _ j true held rfl
    · rw [← tracked.term]
      exact fun yes => ⟨member,told yes⟩
    · rintro j _ - held rfl
      exact votes j held
  dsimp only
  split
  · rename_i enough
    exact counted.becomeLeader stood free (counted.majority_of_votes role enough)
  · exact ⟨g,.refl id g,counted⟩

theorem handleRequestVote {lastLogIndex lastLogTerm : Nat} (upto : term ≤ n.term)
    (told : Told voters cut g sender id (.requestVote term lastLogIndex lastLogTerm)) : ∃ g', Local id g g' ∧
      Tracked voters cut g' id (n.handleRequestVote sender term lastLogIndex lastLogTerm).1 := by
  unfold RaftNode.handleRequestVote
  dsimp only
  split
  · rename_i grants
    obtain ⟨notOlder,canVote,logOk⟩ := grants
    have same : term = g.term id := by
      rw [← tracked.term]
      exact Nat.le_antisymm upto (Nat.not_lt.mp notOlder)
    obtain ⟨log,stood,rfl,rfl⟩ := told
    rw [same] at stood
    rw [lastTerm_eq tracked.holds,lastIndex_eq tracked.holds] at logOk
    -- The vote is cast now, or was cast for the same candidate before.
    have voted : ∃ g', Local id g g' ∧ Inv voters g' ∧ g'.term = g.term ∧ g'.log = g.log ∧
        g'.leaderLog = g.leaderLog ∧ g'.lead = g.lead ∧ g'.vote id (g.term id) = some sender := by
      rw [tracked.votedFor] at canVote
      rcases canVote with free | again
      · have cast : Step voters id g _ := .grant g sender log free stood logOk
        exact ⟨_,cast.local tracked.inv,cast.inv tracked.inv,rfl,rfl,rfl,rfl,by simp⟩
      · exact ⟨g,.refl id g,tracked.inv,rfl,rfl,rfl,rfl,again⟩
    obtain ⟨g',moved,inv,sameTerm,sameLog,sameLeader,sameLead,recorded⟩ := voted
    refine ⟨g',moved,?_⟩
    simp only [RaftNode.saveHardState,LawfulHardState.save_ok]
    refine send ?_ (fun _ => by simpa [RaftNode.term,← tracked.term] using recorded)
    refine ⟨⟨tracked.self,tracked.size,tracked.member,tracked.peers,?_,?_,?_,?_,?_,?_,?_,?_,?_,?_,
      fun e inside => (tracked.outbox e inside).mono moved.toGrows⟩,inv,?_⟩
    · simpa [RaftNode.term,sameTerm] using tracked.term
    · simp [sameTerm,recorded]
    · rw [sameLog]
      exact save _ tracked.holds
    · simpa using tracked.saved
    · simpa [base_save] using tracked.base
    · simpa [base_save] using tracked.applied
    · simpa [sameLog] using tracked.bound
    · rw [sameTerm,sameLog]
      exact tracked.committed.mono moved.toGrows le_rfl
    · exact tracked.candidate_mono moved.toGrows (congrFun sameTerm id) (congrFun sameLog id) (by simp [sameLead])
    · exact tracked.leader_mono moved.toGrows (congrFun sameTerm id) (congrFun sameLog id) (by simp [sameLeader])
    · rw [sameLeader]
      exact tracked.numbered
  · exact ⟨g,.refl id g,tracked.send (fun yes => by cases yes)⟩

theorem handleAppendResp {matchIndex : Nat} {success : Bool} (member : sender ∈ voters)
    (told : Told voters cut g sender id (.appendEntriesResp term success matchIndex)) :
    Tracked voters cut g id (n.handleAppendResp sender term success matchIndex).1 := by
  unfold RaftNode.handleAppendResp
  split
  · exact tracked
  rename_i leading
  simp only [not_or,not_not] at leading
  obtain ⟨role,rfl⟩ := leading
  obtain ⟨leads,own,matched,nexts⟩ := tracked.leader role
  split
  · rename_i yes
    obtain ⟨-,le⟩ := told yes
    rw [tracked.term] at le
    have short := (tracked.inv.acked sender (g.term id)).1
    rw [own] at short
    refine maybeAdvanceCommit ?_ role
    refine { tracked with leader := fun _ => ⟨leads,own,?_,?_⟩ }
    · exact forall_insert ⟨member,le⟩ (fun j m _ => matched j m)
    · exact forall_insert ⟨by omega,by omega⟩ (fun j k _ => nexts j k)
  · have next : n.nextIndex[sender]?.getD (lastIndex n.storage + 1) ≤ (g.log id).length + 1 := by
      rw [lastIndex_eq tracked.holds]
      cases found : n.nextIndex[sender]? with
      | none => simp
      | some k => exact (nexts sender k found).2
    apply sendAppendTo _ _ sender
    swap
    · exact role
    refine { tracked with leader := fun _ => ⟨leads,own,matched,?_⟩ }
    exact forall_insert ⟨by omega,by omega⟩ (fun j k _ => nexts j k)

theorem ships_of_accepted
    (told : Told voters cut g sender id (.appendEntries term prevLogIndex prevLogTerm entries leaderCommit))
    (gapless : prevLogIndex = 0 → Gapless prevLogIndex entries leaderCommit)
    (accepted : termAt n.storage prevLogIndex = some prevLogTerm) :
    Ships voters g term prevLogIndex prevLogTerm entries leaderCommit := by
  rcases told.2 with ships | ⟨-,⟨positive,rfl⟩ | ⟨zero,gap⟩⟩
  · exact ships
  · -- No entry carries term zero.
    have retained : base n.storage ≤ prevLogIndex := by
      by_contra below
      rw [termAt_cut tracked.holds positive (Nat.not_le.mp below)] at accepted
      cases accepted
    rw [termAt_eq tracked.holds retained] at accepted
    obtain ⟨e,split,-,zero⟩ := take_of_termOf accepted positive
    have grounded := tracked.inv.grounded id _ e (split ▸ List.take_prefix ..)
    have stamp : Stamped.term e = 0 := zero
    rw [stamp] at grounded
    have led := tracked.inv.led_of_mem (grounded.mem (List.mem_concat_self ..))
    obtain ⟨c,leads⟩ := Option.ne_none_iff_exists'.mp led
    have later := (tracked.inv.stands c 0 _ (tracked.inv.led 0 c leads).1).1
    omega
  · exact absurd (gapless zero) gap

theorem stored (role : n.role = .follower) {s : S} {taken : List LogEntry} {ok : Prop}
    (led : g.lead (g.term id) ≠ none) (short : sent ≤ (g.leaderLog (g.term id)).length) (holds : Holds s taken)
    (sameBase : base s = base n.storage) (sameHard : hardState s = hardState n.storage)
    (stored : Stored (g.log id) taken (g.leaderLog (g.term id)) ((g.leaderLog (g.term id)).take sent) ok) :
    ∃ g', Local id g g' ∧ g'.term = g.term ∧ g'.leaderLog = g.leaderLog ∧ g'.lead = g.lead ∧ g'.log id = taken ∧
      (ok → sent ≤ g'.acked id (g.term id)) ∧ Tracked voters cut g' id { n with storage := s } := by
  -- First the log is taken over, then, without an error, acknowledged.
  have adopted : ∃ g', Local id g g' ∧ Inv voters g' ∧ g'.term = g.term ∧ g'.vote = g.vote ∧
      g'.leaderLog = g.leaderLog ∧ g'.lead = g.lead ∧ g'.log id = taken := by
    rcases stored.inside with same | inside
    · exact ⟨g,.refl id g,tracked.inv,rfl,rfl,rfl,rfl,same.symm⟩
    · have step : Step voters id g _ := .adopt g taken led inside stored.common
      exact ⟨_,step.local tracked.inv,step.inv tracked.inv,rfl,rfl,rfl,rfl,by simp⟩
  obtain ⟨g1,moved1,inv1,term1,vote1,leader1,lead1,log1⟩ := adopted
  have acknowledged : ∃ g', Local id g1 g' ∧ Inv voters g' ∧ g'.term = g1.term ∧ g'.vote = g1.vote ∧
      g'.leaderLog = g1.leaderLog ∧ g'.lead = g1.lead ∧ g'.log = g1.log ∧
      (ok → sent ≤ g'.acked id (g1.term id)) := by
    by_cases all : ok
    · have step : Step voters id g1 _ := .ack g1 sent (by rw [term1,leader1]; exact short)
        (by rw [term1,leader1,log1]; exact stored.all all)
      exact ⟨_,step.local inv1,step.inv inv1,rfl,rfl,rfl,rfl,rfl,fun _ => by simp⟩
    · exact ⟨g1,.refl id g1,inv1,rfl,rfl,rfl,rfl,rfl,fun yes => absurd yes all⟩
  obtain ⟨g2,moved2,inv2,term2,vote2,leader2,lead2,log2,acks⟩ := acknowledged
  have moved := moved1.trans moved2
  have sameTerm : g2.term = g.term := term2.trans term1
  have sameLeader : g2.leaderLog = g.leaderLog := leader2.trans leader1
  have newLog : g2.log id = taken := by rw [log2,log1]
  have kept : (g.log id).take n.commitIndex <+: taken :=
    stored.common _ (List.take_prefix ..) (tracked.committed.leader tracked.inv le_rfl led)
  have bound : n.commitIndex ≤ taken.length := by
    have le := kept.length_le
    rwa [List.length_take_of_le tracked.bound] at le
  have sameTake : taken.take n.commitIndex = (g.log id).take n.commitIndex := by
    have equal := List.prefix_iff_eq_take.mp kept
    rw [List.length_take_of_le tracked.bound] at equal
    exact equal.symm
  refine ⟨g2,moved,sameTerm,sameLeader,lead2.trans lead1,newLog,by rwa [term1] at acks,
    ⟨tracked.self,tracked.size,tracked.member,tracked.peers,?_,?_,?_,?_,?_,?_,?_,?_,?_,?_,
      fun e inside => (tracked.outbox e inside).mono moved.toGrows⟩,inv2,?_⟩
  · simpa [RaftNode.term,sameHard,sameTerm] using tracked.term
  · simpa [sameHard,sameTerm,vote2,vote1] using tracked.votedFor
  · rwa [newLog]
  · simpa [sameHard] using tracked.saved
  · simpa [sameBase] using tracked.base
  · simpa [sameBase] using tracked.applied
  · rwa [newLog]
  · rw [newLog,sameTerm,sameTake]
    exact tracked.committed.mono moved.toGrows le_rfl
  · intro other
    rw [role] at other
    cases other
  · intro other
    rw [role] at other
    cases other
  · rw [sameLeader]
    exact tracked.numbered

end

/-- Up to the index it answers with, and as far as it moved its commit index, the node has the leader's log. -/
structure Agreed (g : History) (id sender : NodeId) (term : Nat) (before after : RaftNode S) : Prop where
  forward : before.commitIndex ≤ after.commitIndex
  answered : ∀ m, after.outbox = before.outbox ++ [⟨sender,.appendEntriesResp term true m⟩] →
    (g.leaderLog term).take m <+: g.log id
  committed : before.commitIndex < after.commitIndex →
    (g.leaderLog term).take after.commitIndex <+: g.log id

omit [RaftStorage S] [LawfulRaftStorage S] in
theorem Agreed.of_refused {before after : RaftNode S}
    (outbox : ∀ m, after.outbox ≠ before.outbox ++ [⟨sender,.appendEntriesResp term true m⟩])
    (same : after.commitIndex = before.commitIndex) : Agreed g id sender term before after where
  forward := Nat.le_of_eq same.symm
  answered m sent := absurd sent (outbox m)
  committed more := absurd more (by omega)

theorem last_index_of_shipped (ships : Ships voters g term prevLogIndex prevLogTerm entries leaderCommit)
    (numbered : Numbered (g.leaderLog term)) :
    (entries.getLast?.map LogEntry.index).getD prevLogIndex = prevLogIndex + entries.length := by
  rcases List.eq_nil_or_concat entries with rfl | ⟨front,e,rfl⟩
  · rfl
  obtain ⟨rest,whole⟩ := ships.whole
  have found : (g.leaderLog term)[prevLogIndex + front.length]? = some e := by
    have length := List.length_take_of_le ships.bound
    rw [← whole,List.append_assoc,List.getElem?_append_right (by omega),length]
    simp
  have position := numbered _ e found
  simp [position]
  omega

section
variable (tracked : Tracked voters cut g id n)
include tracked

theorem prior_of_accepted (ships : Ships voters g (g.term id) prevLogIndex prevLogTerm entries leaderCommit)
    (accepted : termAt n.storage prevLogIndex = some prevLogTerm) :
    (g.leaderLog (g.term id)).take prevLogIndex <+: g.log id := by
  have same : termOf (g.log id) prevLogIndex = some prevLogTerm := by
    rcases Nat.eq_zero_or_pos prevLogIndex with rfl | positive
    · exact ships.prevTerm
    · rw [← accepted,termAt_eq tracked.holds]
      by_contra below
      rw [termAt_cut tracked.holds positive (Nat.not_le.mp below)] at accepted
      cases accepted
  rw [← take_eq_of_termOf (tracked.inv.grounded id) (tracked.inv.leaderLog_grounded _) same ships.prevTerm]
  exact List.take_prefix ..

theorem followCommit (within : leaderCommit ≤ sent) (long : sent ≤ (g.log id).length)
    (agree : ∀ i ≤ sent, (g.leaderLog (g.term id)).take i <+: g.log id)
    (short : sent ≤ (g.leaderLog (g.term id)).length)
    (committed : Committed voters g (g.term id) ((g.leaderLog (g.term id)).take leaderCommit)) :
    ∃ m, (if leaderCommit > n.commitIndex then
        RaftNode.persistCommitIndex { n with commitIndex := min leaderCommit (lastIndex n.storage) }
      else (n,.ok ())) = (m,.ok ()) ∧ Tracked voters cut g id m ∧ m.outbox = n.outbox ∧
        n.commitIndex ≤ m.commitIndex ∧ (m.commitIndex = n.commitIndex ∨ m.commitIndex ≤ sent) := by
  have last := lastIndex_eq tracked.holds
  split
  · rename_i more
    have least : min leaderCommit (lastIndex n.storage) = leaderCommit := by omega
    rw [least]
    refine ⟨_,Prod.ext rfl (RaftNode.persistCommitIndex_ok _),?_,RaftNode.outbox_persistCommitIndex _,?_⟩
    · apply tracked.commit (Nat.le_of_lt more) (within.trans long)
      have equal := List.prefix_iff_eq_take.mp (agree leaderCommit within)
      rw [List.length_take_of_le (within.trans short)] at equal
      rwa [← equal]
    · rw [RaftNode.commitIndex_persistCommitIndex]
      exact ⟨Nat.le_of_lt more,.inr within⟩
  · exact ⟨n,rfl,tracked,rfl,le_rfl,.inl rfl⟩

theorem acceptEntries (role : n.role = .follower) (told : Told voters cut g sender id
      (.appendEntries n.term prevLogIndex prevLogTerm entries leaderCommit))
    (gapless : prevLogIndex = 0 → Gapless prevLogIndex entries leaderCommit) : ∃ g', Local id g g' ∧
      Tracked voters cut g' id (n.acceptEntries sender prevLogIndex prevLogTerm entries leaderCommit).1 ∧
      Agreed g' id sender n.term n
        (n.acceptEntries sender prevLogIndex prevLogTerm entries leaderCommit).1 := by
  unfold RaftNode.acceptEntries
  split
  · refine ⟨g,.refl id g,tracked.send (fun yes => by cases yes),.of_refused ?_ rfl⟩
    simp [RaftNode.send]
  rename_i accepted
  simp only [ne_eq,not_not] at accepted
  have ships := tracked.ships_of_accepted told gapless accepted
  have leads := told.1
  rw [tracked.term] at ships leads
  have led : g.lead (g.term id) ≠ none := by simp [leads]
  obtain ⟨taken,holds,sameBase,stored⟩ := storeEntries_spec tracked.inv (tracked.numbered _) entries
    tracked.holds (tracked.inv.grounded id) (tracked.prior_of_accepted ships accepted) ships.whole
  rw [ships.sent] at stored
  obtain ⟨g',moved,sameTerm,sameLeader,sameLead,newLog,acks,tracked'⟩ := tracked.stored role led ships.short holds
    sameBase (RaftNode.hardState_storeEntries ..) stored
  cases done : RaftNode.storeEntries n.storage entries with
  | mk s result =>
    rw [done] at tracked' acks stored
    cases result with
    | error e =>
      refine ⟨g',moved,tracked',.of_refused ?_ rfl⟩
      simp
    | ok _ =>
      have all : (g'.leaderLog (g'.term id)).take (prevLogIndex + entries.length) <+: g'.log id := by
        rw [newLog,sameLeader,sameTerm]
        exact stored.all rfl
      have short : prevLogIndex + entries.length ≤ (g'.leaderLog (g'.term id)).length := by
        rw [sameLeader,sameTerm]
        exact ships.short
      have agree : ∀ i ≤ prevLogIndex + entries.length, (g'.leaderLog (g'.term id)).take i <+: g'.log id := by
        intro i le
        refine List.IsPrefix.trans ?_ all
        rw [List.prefix_take_iff]
        exact ⟨List.take_prefix ..,(List.length_take_le ..).trans le⟩
      have long : prevLogIndex + entries.length ≤ (g'.log id).length := by
        have le := all.length_le
        rwa [List.length_take_of_le short] at le
      have chosen : Committed voters g' (g'.term id) ((g'.leaderLog (g'.term id)).take leaderCommit) := by
        rw [sameLeader,sameTerm]
        exact ships.committed.mono moved.toGrows le_rfl
      obtain ⟨m,saved,tracked'',outbox,forward,index⟩ := tracked'.followCommit ships.commit long agree short chosen
      have answer : m.term = n.term := by rw [tracked''.term,tracked.term,sameTerm]
      have now : n.term = g'.term id := by rw [tracked.term,sameTerm]
      dsimp only at saved outbox forward index ⊢
      rw [saved,last_index_of_shipped ships (tracked.numbered _)]
      refine ⟨g',moved,tracked''.send ?_,forward,?_,?_⟩
      · intro _
        rw [answer,tracked.term,sameLead]
        exact ⟨leads,acks rfl⟩
      · intro index' sentAnswer
        simp only [RaftNode.send,outbox,List.append_cancel_left_eq,List.cons.injEq,Envelope.mk.injEq,
          Message.appendEntriesResp.injEq,and_true,true_and] at sentAnswer
        rw [now,← sentAnswer.2]
        exact agree _ le_rfl
      · intro more
        simp only [RaftNode.send] at more ⊢
        rw [now]
        exact agree _ (index.resolve_left (by omega))

theorem handleAppendEntries (upto : term ≤ n.term)
    (told : Told voters cut g sender id (.appendEntries term prevLogIndex prevLogTerm entries leaderCommit))
    (gapless : prevLogIndex = 0 → Gapless prevLogIndex entries leaderCommit) : ∃ g', Local id g g' ∧
      Tracked voters cut g' id
        (n.handleAppendEntries sender term prevLogIndex prevLogTerm entries leaderCommit).1 ∧
      Agreed g' id sender term n
        (n.handleAppendEntries sender term prevLogIndex prevLogTerm entries leaderCommit).1 := by
  unfold RaftNode.handleAppendEntries
  split
  · refine ⟨g,.refl id g,tracked.send (fun yes => by cases yes),.of_refused ?_ rfl⟩
    simp [RaftNode.send]
  · rename_i current
    have same : term = n.term := Nat.le_antisymm upto (Nat.not_lt.mp current)
    subst same
    obtain ⟨g',moved,followed⟩ := tracked.becomeFollower n.term (some sender)
    rw [RaftNode.becomeFollower_eq] at followed ⊢
    simp only [Nat.lt_irrefl,if_false] at followed ⊢
    have waited : Tracked voters cut g' id { n with
        role := .follower, leaderId := (some sender).or n.leaderId, votes := ∅, electionElapsed := 0 } :=
      followed.of_eq rfl rfl rfl rfl rfl rfl rfl rfl rfl
    obtain ⟨g'',moved',accepted,agreed⟩ := waited.acceptEntries rfl (told.mono moved.toGrows) gapless
    exact ⟨g'',moved.trans moved',accepted,agreed.forward,agreed.answered,agreed.committed⟩

end

section
variable (tracked : Tracked voters cut g id n)
include tracked

theorem step {message : Message} (member : sender ∈ voters)
    (told : Told voters cut g sender id message) (whole : Whole message) :
    ∃ g', Local id g g' ∧ Tracked voters cut g' id (n.step sender message).1 ∧
      ∀ term prevLogIndex prevLogTerm entries leaderCommit,
        message = .appendEntries term prevLogIndex prevLogTerm entries leaderCommit →
        Agreed g' id sender term n (n.step sender message).1 := by
  have entered : ∃ g' m, (if messageTerm message > n.term then n.becomeFollower (messageTerm message) none
      else (n,.ok ())) = (m,.ok ()) ∧ Local id g g' ∧ Tracked voters cut g' id m ∧
      messageTerm message ≤ m.term ∧ m.outbox = n.outbox ∧ m.commitIndex = n.commitIndex := by
    split
    · obtain ⟨g',moved,followed⟩ := tracked.becomeFollower (messageTerm message) none
      refine ⟨g',_,Prod.ext rfl (RaftNode.becomeFollower_ok ..),moved,followed,?_,?_⟩
      · rw [RaftNode.term_becomeFollower]
        exact Nat.le_max_right ..
      rw [RaftNode.becomeFollower_eq]
      exact ⟨rfl,rfl⟩
    · exact ⟨g,n,rfl,.refl id g,tracked,by omega,rfl,rfl⟩
  obtain ⟨g',m,same,moved,tracked',upto,outbox,commit⟩ := entered
  have told' := told.mono moved.toGrows
  unfold RaftNode.step
  rw [same]
  cases message with
  | requestVote term lastLogIndex lastLogTerm =>
    obtain ⟨g'',moved',voted⟩ := tracked'.handleRequestVote upto told'
    exact ⟨g'',moved.trans moved',voted,by simp⟩
  | requestVoteResp term granted =>
    obtain ⟨g'',moved',counted⟩ := tracked'.handleVoteResp member told'
    exact ⟨g'',moved.trans moved',counted,by simp⟩
  | appendEntries term prevLogIndex prevLogTerm entries leaderCommit =>
    obtain ⟨g'',moved',stored,agreed⟩ := tracked'.handleAppendEntries upto told' whole
    refine ⟨g'',moved.trans moved',stored,?_⟩
    intro term' _ _ _ _ this
    cases this
    exact ⟨commit ▸ agreed.forward,fun m sent => agreed.answered m (outbox ▸ sent),
      fun more => agreed.committed (commit ▸ more)⟩
  | appendEntriesResp term success matchIndex =>
    exact ⟨g',moved,tracked'.handleAppendResp member told',by simp⟩

theorem propose (command : Command) : ∃ g', Local id g g' ∧ Tracked voters cut g' id (n.propose command).1 := by
  unfold RaftNode.propose
  split
  · exact ⟨g,.refl id g,tracked⟩
  · rename_i role
    simp only [ne_eq,not_not] at role
    obtain ⟨-,g',moved,-,-,grown⟩ := tracked.appendOwn role command
    exact ⟨g',moved,grown⟩

theorem restart : Tracked voters cut g id (RaftNode.new n.config n.storage) := by
  have low : base n.storage ≤ (hardState n.storage).commitIndex := by
    rw [tracked.saved]
    exact tracked.base
  refine ⟨⟨tracked.self,tracked.size,tracked.member,tracked.peers,tracked.term,tracked.votedFor,tracked.holds,
    rfl,low,⟨low,tracked.applied.2⟩,?_,?_,?_,?_,?_⟩,tracked.inv,tracked.numbered⟩
  · change (hardState n.storage).commitIndex ≤ _
    rw [tracked.saved]
    exact tracked.bound
  · change Committed voters g _ ((g.log id).take (hardState n.storage).commitIndex)
    rw [tracked.saved]
    exact tracked.committed
  · intro role
    cases role
  · intro role
    cases role
  · intro e inside
    cases inside

end

end Tracked

end AuraDb.Raft
