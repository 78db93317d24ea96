import AuraDb.Library.Consensus
import Mathlib.Logic.Function.Basic

/-! The steps of replication under one leader a term. Each step only adds to the history and keeps the
invariant. -/
namespace AuraDb.Library.Consensus
open Function
variable {N E : Type} [Stamped E] {voters : List N}
section
variable {s s' : State N E}

private structure Logged (s s' : State N E) : Prop where
  noNew : ∀ n t log, t < s.term n → Acked s' n t log → Acked s n t log
  unled : ∀ t, s'.lead t = none → s'.leaderLog t = []
  grown : ∀ t, s'.lead t ≠ none →
    ∃ tail, s'.leaderLog t = s'.elected t ++ tail ∧ ∀ e ∈ tail, Stamped.term e = t
  grounded : ∀ n, Grounded s' (s'.log n)
  past : ∀ n, ∀ e ∈ s'.log n, Stamped.term e ≤ s'.term n
  acked : ∀ n t, s'.acked n t ≤ (s'.leaderLog t).length ∧ (0 < s'.acked n t → t ≤ s'.term n)
  kept : ∀ n t log, Acked s' n t log → Carried s' t (s'.term n) log → log <+: s'.log n

section
variable (inv : Inv voters s) (grows : Grows s s')
include inv grows

private theorem Inv.next (logs : Logged s s') (voted : ∀ n t c, s'.vote n t = some c → s.vote n t = some c ∨
      t ≤ s'.term n ∧ ∃ stood, s'.stood c t = some stood ∧
        ∀ u log, u < t → Acked s' n u log → Carried s' u t log → log <+: stood)
    (stands : ∀ c t log, s'.stood c t = some log → s.stood c t = some log ∨
      0 < t ∧ s'.vote c t = some c ∧ Grounded s' log ∧ ∀ e ∈ log, Stamped.term e < t)
    (led : ∀ t c, s'.lead t = some c → s.lead t = some c ∨
      (s'.stood c t = some (s'.elected t) ∧ Majority voters (fun n => s'.vote n t = some c)) ∧
        Majority voters (fun n => t ≤ s'.term n ∧
          ∀ u log, u < t → Acked s' n u log → Carried s' u (t-1) log → log <+: s'.elected t)) : Inv voters s' where
  voted n t c vote := by
    rcases voted n t c vote with old | ⟨upto,stood,some,-⟩
    · obtain ⟨upto,stood⟩ := inv.voted n t c old
      obtain ⟨log,some⟩ := Option.ne_none_iff_exists'.mp stood
      exact ⟨upto.trans (grows.term n),by simp [grows.stood c t log some]⟩
    · exact ⟨upto,by simp [some]⟩
  stands c t log stood := by
    rcases stands c t log stood with old | new
    · obtain ⟨positive,vote,ground,older⟩ := inv.stands c t log old
      exact ⟨positive,grows.vote c t c vote,ground.mono grows,older⟩
    · exact new
  led t c leads := by
    rcases led t c leads with old | new
    · obtain ⟨stood,won⟩ := inv.led t c old
      rw [grows.elected t (by simp [old])]
      exact ⟨grows.stood c t _ stood,won.mono (fun n _ vote => grows.vote n t c vote)⟩
    · exact new.1
  unled := logs.unled
  grown := logs.grown
  grounded := logs.grounded
  past := logs.past
  acked := logs.acked
  kept := logs.kept
  promised n u c stood vote stands' t log before acks carried := by
    rcases voted n u c vote with old | ⟨-,stood',same,new⟩
    · obtain ⟨upto,some⟩ := inv.voted n u c old
      obtain ⟨stood',oldStood⟩ := Option.ne_none_iff_exists'.mp some
      cases (grows.stood c u stood' oldStood).symm.trans stands'
      exact inv.promised n u c stood old oldStood t log before
        (logs.noNew n t log (before.trans_le upto) acks) (carried.back grows)
    · cases same.symm.trans stands'
      exact new t log before acks carried
  chosen u leads := by
    obtain ⟨c,leads⟩ := Option.ne_none_iff_exists'.mp leads
    rcases led u c leads with old | new
    · have was : s.lead u ≠ none := by simp [old]
      rw [grows.elected u was]
      apply (inv.chosen u was).mono
      intro n _ ⟨upto,through⟩
      refine ⟨upto.trans (grows.term n),?_⟩
      intro t log before acks carried
      exact through t log before (logs.noNew n t log (before.trans_le upto) acks) (carried.back grows)
    · exact new.2

private theorem Inv.replicated (vote : s'.vote = s.vote)
    (stood : s'.stood = s.stood) (lead : s'.lead = s.lead) (logs : Logged s s') : Inv voters s' := by
  refine inv.next grows logs ?_ ?_ ?_
  · intro n t c voted
    exact .inl (vote ▸ voted)
  · intro c t log stands
    exact .inl (stood ▸ stands)
  · intro t c leads
    exact .inl (lead ▸ leads)

private theorem Inv.logged (lead : s'.lead = s.lead)
    (elected : s'.elected = s.elected) (leaderLog : s'.leaderLog = s.leaderLog) (log : s'.log = s.log)
    (acked : s'.acked = s.acked) : Logged s s' := by
  have old {n : N} {t : Nat} {held : List E} (acks : Acked s' n t held) : Acked s n t held :=
    ⟨leaderLog ▸ acks.held,acked ▸ acks.long,acks.ends⟩
  refine ⟨fun n t held _ acks => old acks,?_,?_,?_,?_,?_,?_⟩
  · rw [lead,leaderLog]
    exact inv.unled
  · rw [lead,leaderLog,elected]
    exact inv.grown
  · intro n
    rw [log]
    exact (inv.grounded n).mono grows
  · intro n e inside
    exact (inv.past n e (log ▸ inside)).trans (grows.term n)
  · intro n t
    obtain ⟨short,upto⟩ := inv.acked n t
    rw [acked,leaderLog]
    exact ⟨short,fun positive => (upto positive).trans (grows.term n)⟩
  · intro n t held acks carried
    rw [log]
    exact inv.kept n t held (old acks) ((carried.back grows).shorter (grows.term n))

end

end

variable [DecidableEq N]

private theorem update_update_apply {α : Type} (f : N → Nat → α) (n : N) (t : Nat) (v : α) (m : N) (u : Nat) :
    update f n (update (f n) t v) m u = if m = n ∧ u = t then v else f m u := by
  rcases eq_or_ne m n with rfl | other
  · simp [update_apply]
  · simp [other]

inductive Step (voters : List N) (n : N) : State N E → State N E → Prop where
  | bump (s : State N E) (t : Nat) (later : s.term n < t) :
      Step voters n s { s with term := update s.term n t }
  | stand (s : State N E) (t : Nat) (later : s.term n < t) :
      Step voters n s { s with
        term := update s.term n t
        vote := update s.vote n (update (s.vote n) t (some n))
        stood := update s.stood n (update (s.stood n) t (some (s.log n))) }
  | grant (s : State N E) (c : N) (log : List E) (free : s.vote n (s.term n) = none)
      (stands : s.stood c (s.term n) = some log) (fresh : UpToDate log (s.log n)) :
      Step voters n s { s with
        vote := update s.vote n (update (s.vote n) (s.term n) (some c)) }
  | elect (s : State N E) (t : Nat) (stands : s.stood n t = some (s.log n))
      (won : Majority voters (fun m => s.vote m t = some n)) (unled : s.lead t = none) :
      Step voters n s { s with
        lead := update s.lead t (some n)
        elected := update s.elected t (s.log n)
        leaderLog := update s.leaderLog t (s.log n) }
  | append (s : State N E) (e : E) (leads : s.lead (s.term n) = some n)
      (own : s.leaderLog (s.term n) = s.log n) (stamped : Stamped.term e = s.term n) :
      Step voters n s { s with
        leaderLog := update s.leaderLog (s.term n) (s.log n ++ [e])
        log := update s.log n (s.log n ++ [e]) }
  | adopt (s : State N E) (log : List E) (led : s.lead (s.term n) ≠ none)
      (inside : log <+: s.leaderLog (s.term n))
      (common : ∀ held, held <+: s.log n → held <+: s.leaderLog (s.term n) → held <+: log) :
      Step voters n s { s with log := update s.log n log }
  | ack (s : State N E) (k : Nat) (short : k ≤ (s.leaderLog (s.term n)).length)
      (held : (s.leaderLog (s.term n)).take k <+: s.log n) :
      Step voters n s { s with
        acked := update s.acked n
          (update (s.acked n) (s.term n) (max (s.acked n (s.term n)) k)) }

section Steps
variable {s s' : State N E} {n : N}

theorem Step.grows (step : Step voters n s s') (inv : Inv voters s) : Grows s s' := by
  have same := Grows.refl s
  cases step with
  | bump t later =>
    refine { same with term := ?_ }
    intro m
    rcases eq_or_ne m n with rfl | other
    · simpa using later.le
    · simp [other]
  | stand t later =>
    have unused : ∀ c, s.vote n t ≠ some c := by
      intro c voted
      have := (inv.voted n t c voted).1
      omega
    refine { same with term := ?_, vote := ?_, stood := ?_ }
    · intro m
      rcases eq_or_ne m n with rfl | other
      · simpa using later.le
      · simp [other]
    · intro m u c voted
      simp only [update_update_apply]
      rw [if_neg]
      · exact voted
      · rintro ⟨rfl,rfl⟩
        exact unused c voted
    · intro m u log stood
      simp only [update_update_apply]
      rw [if_neg]
      · exact stood
      · rintro ⟨rfl,rfl⟩
        exact unused m (inv.stands m u log stood).2.1
  | grant c log free stands fresh =>
    refine { same with vote := ?_ }
    intro m u c' voted
    simp only [update_update_apply]
    rw [if_neg]
    · exact voted
    · rintro ⟨rfl,rfl⟩
      simp [free] at voted
  | elect t stands won unled =>
    refine { same with lead := ?_, elected := ?_, leaderLog := ?_ }
    · intro u c' leads
      have other : u ≠ t := by
        rintro rfl
        simp [unled] at leads
      simpa [other] using leads
    · intro u led
      have other : u ≠ t := by
        rintro rfl
        exact led unled
      simp [other]
    · intro u
      rcases eq_or_ne u t with rfl | other
      · simp [inv.unled u unled]
      · simp [other]
  | append e leads own stamped =>
    refine { same with leaderLog := ?_ }
    intro u
    rcases eq_or_ne u (s.term n) with rfl | other
    · simp [own]
    · simp [other]
  | adopt log led inside common => exact { same with }
  | ack k short held =>
    refine { same with acked := ?_ }
    intro m u
    simp only [update_update_apply]
    split
    · rename_i own
      rw [own.1,own.2]
      exact Nat.le_max_left ..
    · exact le_rfl

section
variable (inv : Inv voters s)
include inv

private theorem Inv.bump (n : N) (t : Nat) (later : s.term n < t) :
    Inv voters { s with term := update s.term n t } := by
  have step : Step voters n s _ := .bump s t later
  have grows := step.grows inv
  exact inv.replicated grows rfl rfl rfl (inv.logged grows rfl rfl rfl rfl rfl)

private theorem Inv.stand (n : N) (t : Nat) (later : s.term n < t) : Inv voters { s with
      term := update s.term n t
      vote := update s.vote n (update (s.vote n) t (some n))
      stood := update s.stood n (update (s.stood n) t (some (s.log n))) } := by
  have step : Step voters n s _ := .stand s t later
  have grows := step.grows inv
  refine inv.next grows (inv.logged grows rfl rfl rfl rfl rfl) ?_ ?_ ?_
  · intro m u c vote
    simp only [update_update_apply] at vote
    split at vote
    · rename_i own
      obtain ⟨rfl,rfl⟩ := own
      cases vote
      refine .inr ⟨by simp,s.log m,by simp,?_⟩
      intro v log _ acks carried
      apply inv.kept m v log { acks with }
      exact (carried.back grows).shorter later.le
    · exact .inl vote
  · intro m u log stood
    simp only [update_update_apply] at stood
    split at stood
    · rename_i own
      obtain ⟨rfl,rfl⟩ := own
      cases stood
      refine .inr ⟨Nat.zero_lt_of_lt later,by simp,(inv.grounded m).mono grows,?_⟩
      intro e inside
      exact (inv.past m e inside).trans_lt later
    · exact .inl stood
  · intro u c leads
    exact .inl leads

private theorem Inv.grant (n c : N) (log : List E) (free : s.vote n (s.term n) = none)
    (stands : s.stood c (s.term n) = some log) (fresh : UpToDate log (s.log n)) : Inv voters { s with
      vote := update s.vote n (update (s.vote n) (s.term n) (some c)) } := by
  have step : Step voters n s _ := .grant s c log free stands fresh
  have grows := step.grows inv
  refine inv.next grows (inv.logged grows rfl rfl rfl rfl rfl) ?_ ?_ ?_
  · intro m u c' vote
    simp only [update_update_apply] at vote
    split at vote
    · rename_i own
      obtain ⟨rfl,rfl⟩ := own
      cases vote
      refine .inr ⟨le_refl _,log,stands,?_⟩
      intro v held _ acks carried
      have old : Acked s m v held := { acks with }
      have mine := inv.kept m v held old (carried.back grows)
      obtain ⟨-,-,ground,older⟩ := inv.stands c _ log stands
      exact inv.upToDate (inv.grounded m) ground older mine acks.ends (carried.back grows) fresh
    · exact .inl vote
  · intro c' u log stood
    exact .inl stood
  · intro u c' leads
    exact .inl leads

private theorem Inv.elect (c : N) (t : Nat) (stands : s.stood c t = some (s.log c))
    (won : Majority voters (fun n => s.vote n t = some c)) (unled : s.lead t = none) : Inv voters { s with
      lead := update s.lead t (some c)
      elected := update s.elected t (s.log c)
      leaderLog := update s.leaderLog t (s.log c) } := by
  have step : Step voters c s _ := .elect s t stands won unled
  have grows := step.grows inv
  have noNew : ∀ n u log, Acked { s with
      lead := update s.lead t (some c)
      elected := update s.elected t (s.log c)
      leaderLog := update s.leaderLog t (s.log c) } n u log → Acked s n u log := by
    intro n u log acks
    rcases eq_or_ne u t with rfl | other
    · -- Nobody acknowledged anything in a term without a leader.
      obtain ⟨before,e,rfl,-⟩ := acks.ends
      have none : s.acked n u = 0 := by simpa [inv.unled u unled] using (inv.acked n u).1
      simpa [none] using acks.long
    · exact ⟨by simpa [other] using acks.held,acks.long,acks.ends⟩
  refine inv.next grows ⟨fun n u log _ => noNew n u log,?_,?_,?_,inv.past,?_,?_⟩ ?_ ?_ ?_
  · intro u none
    rcases eq_or_ne u t with rfl | other
    · simp at none
    · simpa [other] using inv.unled u (by simpa [other] using none)
  · intro u led
    rcases eq_or_ne u t with rfl | other
    · exact ⟨[],by simp⟩
    · simpa [other] using inv.grown u (by simpa [other] using led)
  · intro n
    exact (inv.grounded n).mono grows
  · intro n u
    obtain ⟨short,upto⟩ := inv.acked n u
    exact ⟨short.trans (grows.leaderLog u).length_le,upto⟩
  · intro n u log acks carried
    exact inv.kept n u log (noNew n u log acks) (carried.back grows)
  · intro m u c' vote
    exact .inl vote
  · intro c' u log stood
    exact .inl stood
  · intro u c' leads
    rcases eq_or_ne u t with rfl | other
    · have same : c = c' := by simpa using leads
      subst same
      refine .inr ⟨⟨by simpa using stands,won⟩,?_⟩
      apply won.mono
      intro n _ vote
      refine ⟨(inv.voted n u c vote).1,?_⟩
      intro v log before acks carried
      have through := inv.promised n u c _ vote stands v log before (noNew n v log acks)
      simp only [update_self]
      apply through
      intro w after upto led
      rcases eq_or_ne w u with rfl | earlier
      · exact absurd unled led
      · exact carried.back grows w after (by omega) led
    · exact .inl (by simpa [other] using leads)

private theorem Inv.append (c : N) (e : E) (leads : s.lead (s.term c) = some c)
    (own : s.leaderLog (s.term c) = s.log c) (stamped : Stamped.term e = s.term c) : Inv voters { s with
      leaderLog := update s.leaderLog (s.term c) (s.log c ++ [e])
      log := update s.log c (s.log c ++ [e]) } := by
  have step : Step voters c s _ := .append s e leads own stamped
  have grows := step.grows inv
  have noNew : ∀ n u log, Acked { s with
      leaderLog := update s.leaderLog (s.term c) (s.log c ++ [e])
      log := update s.log c (s.log c ++ [e]) } n u log → Acked s n u log := by
    intro n u log acks
    refine ⟨?_,acks.long,acks.ends⟩
    exact List.prefix_of_prefix_length_le acks.held (grows.leaderLog u)
      (acks.long.trans (inv.acked n u).1)
  refine inv.replicated grows rfl rfl rfl ⟨fun n u log _ => noNew n u log,?_,?_,?_,?_,?_,?_⟩
  · intro u none
    have other : u ≠ s.term c := by
      rintro rfl
      simp [leads] at none
    simpa [other] using inv.unled u none
  · intro u led
    rcases eq_or_ne u (s.term c) with rfl | other
    · obtain ⟨tail,grown,stamps⟩ := inv.grown _ led
      refine ⟨tail ++ [e],by simp [← own,grown],?_⟩
      intro x inside
      rcases List.mem_append.mp inside with old | new
      · exact stamps x old
      · rw [List.mem_singleton.mp new,stamped]
    · simpa [other] using inv.grown u led
  · intro n
    rcases eq_or_ne n c with rfl | other
    · intro before x inside
      simp only [update_self] at inside
      rcases List.prefix_concat_iff.mp inside with same | old
      · obtain ⟨rfl,rfl⟩ := List.append_singleton_inj.mp same
        simp [stamped]
      · exact (inv.grounded n).mono grows before x old
    · simpa [other] using (inv.grounded n).mono grows
  · intro n x inside
    rcases eq_or_ne n c with rfl | other
    · simp only [update_self] at inside
      rcases List.mem_append.mp inside with old | new
      · exact inv.past n x old
      · rw [List.mem_singleton.mp new,stamped]
    · exact inv.past n x (by simpa [other] using inside)
  · intro n u
    obtain ⟨short,upto⟩ := inv.acked n u
    exact ⟨short.trans (grows.leaderLog u).length_le,upto⟩
  · intro n u log acks carried
    have held := inv.kept n u log (noNew n u log acks) (carried.back grows)
    rcases eq_or_ne n c with rfl | other
    · simpa using held.trans (List.prefix_append ..)
    · simpa [other] using held

private theorem Inv.adopt (n : N) (log : List E) (led : s.lead (s.term n) ≠ none)
    (inside : log <+: s.leaderLog (s.term n))
    (common : ∀ held, held <+: s.log n → held <+: s.leaderLog (s.term n) → held <+: log) :
    Inv voters { s with log := update s.log n log } := by
  have step : Step voters n s _ := .adopt s log led inside common
  have grows := step.grows inv
  refine inv.replicated grows rfl rfl rfl ⟨?_,inv.unled,inv.grown,?_,?_,inv.acked,?_⟩
  · intro m u log _ acks
    exact { acks with }
  · intro m
    rcases eq_or_ne m n with rfl | other
    · simpa using ((inv.leaderLog_grounded _).of_shorter inside).mono grows
    · simpa [other] using (inv.grounded m).mono grows
  · intro m e mem
    rcases eq_or_ne m n with rfl | other
    · simp only [update_self] at mem
      exact inv.leaderLog_past _ e (inside.subset mem)
    · exact inv.past m e (by simpa [other] using mem)
  · intro m u held acks carried
    have old : Acked s m u held := { acks with }
    have mine := inv.kept m u held old (carried.back grows)
    rcases eq_or_ne m n with rfl | other
    · simp only [update_self]
      apply common held mine
      -- Acknowledged in this term it is in the leader's log; before, the leader was elected with it.
      rcases Nat.lt_or_ge u (s.term m) with earlier | same
      · exact (carried _ earlier le_rfl led).trans (inv.elected_shorter led)
      · obtain ⟨before,e,rfl,-⟩ := acks.ends
        have upto := (inv.acked m u).2 (lt_of_lt_of_le (by simp) acks.long)
        rw [le_antisymm same upto]
        exact acks.held
    · simpa [other] using mine

private theorem Inv.ack (n : N) (k : Nat) (short : k ≤ (s.leaderLog (s.term n)).length)
    (held : (s.leaderLog (s.term n)).take k <+: s.log n) : Inv voters { s with
      acked := update s.acked n
        (update (s.acked n) (s.term n) (max (s.acked n (s.term n)) k)) } := by
  have step : Step voters n s _ := .ack s k short held
  have grows := step.grows inv
  have old : ∀ m u log, (m = n → u ≠ s.term n) → Acked { s with
      acked := update s.acked n
        (update (s.acked n) (s.term n) (max (s.acked n (s.term n)) k)) } m u log →
      Acked s m u log := by
    intro m u log different acks
    have long := acks.long
    simp only [update_update_apply,if_neg (fun own : m = n ∧ u = s.term n => different own.1 own.2)] at long
    exact ⟨acks.held,long,acks.ends⟩
  refine inv.replicated grows rfl rfl rfl ⟨?_,inv.unled,inv.grown,inv.grounded,inv.past,?_,?_⟩
  · intro m u log before acks
    apply old m u log _ acks
    rintro rfl rfl
    exact lt_irrefl _ before
  · intro m u
    obtain ⟨bound,upto⟩ := inv.acked m u
    simp only [update_update_apply]
    split
    · rename_i own
      obtain ⟨rfl,rfl⟩ := own
      exact ⟨Nat.max_le.mpr ⟨bound,short⟩,fun _ => le_rfl⟩
    · exact ⟨bound,upto⟩
  · intro m u log acks carried
    by_cases same : m = n ∧ u = s.term n
    · obtain ⟨rfl,rfl⟩ := same
      have long : log.length ≤ max (s.acked m (s.term m)) k := by simpa using acks.long
      rcases Nat.lt_or_ge (s.acked m (s.term m)) log.length with now | before
      · exact (List.prefix_take_iff.mpr ⟨acks.held,by omega⟩).trans held
      · exact inv.kept m _ log ⟨acks.held,before,acks.ends⟩ (carried.back grows)
    · apply inv.kept m u log (old m u log _ acks) (carried.back grows)
      rintro rfl rfl
      exact same ⟨rfl,rfl⟩

end

theorem Step.inv (step : Step voters n s s') (inv : Inv voters s) : Inv voters s' := by
  cases step with
  | bump t later => exact inv.bump n t later
  | stand t later => exact inv.stand n t later
  | grant c log free stands fresh => exact inv.grant n c log free stands fresh
  | elect t stands won unled => exact inv.elect n t stands won unled
  | append e leads own stamped => exact inv.append n e leads own stamped
  | adopt log led inside common => exact inv.adopt n log led inside common
  | ack k short held => exact inv.ack n k short held

theorem Step.local (step : Step voters n s s') (inv : Inv voters s) : Local n s s' := by
  have same := Local.refl n s
  have grows := step.grows inv
  cases step with
  | bump t later =>
    refine { same with toGrows := grows, terms := ?_ }
    intro m other
    simp [other]
  | stand t later =>
    refine { same with toGrows := grows, terms := ?_, votes := ?_ }
    · intro m other
      simp [other]
    · intro m other
      simp [other]
  | grant c log free stands fresh =>
    refine { same with toGrows := grows, votes := ?_ }
    intro m other
    simp [other]
  | elect t stands won unled =>
    refine { same with toGrows := grows, leads := ?_, leaderLogs := ?_ }
    · intro u m other leads
      rcases eq_or_ne u t with rfl | different
      · simp [Ne.symm other] at leads
      · simpa [different] using leads
    · intro u m other leads
      have different : u ≠ t := by
        rintro rfl
        simp [unled] at leads
      simp [different]
  | append e leads own stamped =>
    refine { same with toGrows := grows, logs := ?_, leaderLogs := ?_ }
    · intro m other
      simp [other]
    · intro u m other leads'
      have different : u ≠ s.term n := by
        rintro rfl
        exact other (by simpa [leads] using leads'.symm)
      simp [different]
  | adopt log led inside common =>
    refine { same with toGrows := grows, logs := ?_ }
    intro m other
    simp [other]
  | ack k short held => exact { same with toGrows := grows }

end Steps

end AuraDb.Library.Consensus
