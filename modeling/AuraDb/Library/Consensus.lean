import Mathlib.Data.List.Infix

/-! Replication of a log under one leader a term. The state keeps the whole history: votes, the log each
candidate stood with, the log of every leader and what each voter has acknowledged of it. What a majority has
acknowledged stays in the log of every later leader. -/
namespace AuraDb.Library.Consensus

/-- An entry of a replicated log carries the term in which it was created. -/
class Stamped (E : Type) where
  term : E → Nat

variable {N E : Type} {n : N} {before : List E} {e : E} {voters : List N} {log : List E}
section Majority
open Classical in
def Majority (voters : List N) (P : N → Prop) : Prop :=
  voters.length < 2 * voters.countP (fun n => decide (P n))

private theorem countP_both (voters : List N) (p q : N → Bool) :
    voters.countP p + voters.countP q ≤ voters.length + voters.countP (fun n => p n && q n) := by
  induction voters with
  | nil => simp
  | cons n rest ih =>
    simp only [List.countP_cons,List.length_cons]
    cases left : p n <;> cases right : q n <;> simp <;> omega

variable {P Q : N → Prop}

theorem Majority.mono (held : Majority voters P) (implied : ∀ n ∈ voters, P n → Q n) : Majority voters Q := by
  classical
  have more : voters.countP (fun n => decide (P n)) ≤ voters.countP (fun n => decide (Q n)) := by
    apply List.countP_mono_left
    intro n inside held
    exact decide_eq_true (implied n inside (of_decide_eq_true held))
  unfold Majority at held ⊢
  omega

theorem Majority.of_filter [DecidablePred P]
    (enough : voters.length < 2 * (voters.filter (fun n => decide (P n))).length) : Majority voters P := by
  unfold Majority
  rw [List.countP_eq_length_filter]
  convert enough

theorem Majority.meet (left : Majority voters P) (right : Majority voters Q) : ∃ n, P n ∧ Q n := by
  classical
  have both := countP_both voters (fun n => decide (P n)) (fun n => decide (Q n))
  unfold Majority at left right
  have some : 0 < voters.countP (fun n => decide (P n) && decide (Q n)) := by omega
  obtain ⟨n,_,held⟩ := List.countP_pos_iff.mp some
  exact ⟨n,by simpa using held⟩

end Majority

structure State (N E : Type) where
  term : N → Nat
  vote : N → Nat → Option N
  stood : N → Nat → Option (List E)
  lead : Nat → Option N
  elected : Nat → List E
  leaderLog : Nat → List E
  log : N → List E
  acked : N → Nat → Nat

def State.initial : State N E where
  term _ := 0
  vote _ _ := none
  stood _ _ := none
  lead _ := none
  elected _ := []
  leaderLog _ := []
  log _ := []
  acked _ _ := 0

/-- Every leader of the terms after `t` and up to `u` was elected with the log. -/
def Carried (s : State N E) (t u : Nat) (log : List E) : Prop :=
  ∀ v, t < v → v ≤ u → s.lead v ≠ none → log <+: s.elected v

structure Grows (s s' : State N E) : Prop where
  term : ∀ n, s.term n ≤ s'.term n
  vote : ∀ n t c, s.vote n t = some c → s'.vote n t = some c
  stood : ∀ n t log, s.stood n t = some log → s'.stood n t = some log
  lead : ∀ t c, s.lead t = some c → s'.lead t = some c
  elected : ∀ t, s.lead t ≠ none → s'.elected t = s.elected t
  leaderLog : ∀ t, s.leaderLog t <+: s'.leaderLog t
  acked : ∀ n t, s.acked n t ≤ s'.acked n t

structure Local (n : N) (s s' : State N E) : Prop extends Grows s s' where
  terms : ∀ m, m ≠ n → s'.term m = s.term m
  votes : ∀ m, m ≠ n → s'.vote m = s.vote m
  logs : ∀ m, m ≠ n → s'.log m = s.log m
  leads : ∀ t m, m ≠ n → s'.lead t = some m → s.lead t = some m
  leaderLogs : ∀ t m, m ≠ n → s.lead t = some m → s'.leaderLog t = s.leaderLog t

section History
variable {s s' s'' : State N E} {t u : Nat}

theorem Grows.refl (s : State N E) : Grows s s where
  term _ := le_refl _
  vote _ _ _ same := same
  stood _ _ _ same := same
  lead _ _ same := same
  elected _ _ := rfl
  leaderLog _ := List.prefix_rfl
  acked _ _ := le_refl _

theorem Grows.led (grows : Grows s s') (led : s.lead t ≠ none) : s'.lead t ≠ none := by
  obtain ⟨c,leads⟩ := Option.ne_none_iff_exists'.mp led
  rw [grows.lead t c leads]
  simp

theorem Grows.trans (first : Grows s s') (second : Grows s' s'') : Grows s s'' where
  term n := (first.term n).trans (second.term n)
  vote n t c same := second.vote n t c (first.vote n t c same)
  stood n t log same := second.stood n t log (first.stood n t log same)
  lead t c same := second.lead t c (first.lead t c same)
  elected t led := (second.elected t (first.led led)).trans (first.elected t led)
  leaderLog t := (first.leaderLog t).trans (second.leaderLog t)
  acked n t := (first.acked n t).trans (second.acked n t)

theorem Local.refl (n : N) (s : State N E) : Local n s s :=
  ⟨.refl s,fun _ _ => rfl,fun _ _ => rfl,fun _ _ => rfl,fun _ _ _ same => same,fun _ _ _ _ => rfl⟩

theorem Local.trans (first : Local n s s') (second : Local n s' s'') : Local n s s'' where
  toGrows := first.toGrows.trans second.toGrows
  terms m other := (second.terms m other).trans (first.terms m other)
  votes m other := (second.votes m other).trans (first.votes m other)
  logs m other := (second.logs m other).trans (first.logs m other)
  leads t m other leads := first.leads t m other (second.leads t m other leads)
  leaderLogs t m other leads :=
    (second.leaderLogs t m other (first.lead t m leads)).trans (first.leaderLogs t m other leads)

theorem Carried.back (grows : Grows s s') (carried : Carried s' t u log) : Carried s t u log := by
  intro v after upto led
  rw [← grows.elected v led]
  exact carried v after upto (grows.led led)

theorem Carried.shorter {w : Nat} (carried : Carried s t u log) (le : w ≤ u) : Carried s t w log := by
  intro v after upto led
  exact carried v after (upto.trans le) led

private theorem prefix_append_cases {first second : List E}
    (inside : before ++ [e] <+: first ++ second) : before ++ [e] <+: first ∨ e ∈ second := by
  rcases List.prefix_or_prefix_of_prefix inside (List.prefix_append first second) with short | long
  · exact .inl short
  · rcases List.prefix_concat_iff.mp long with same | shorter
    · exact .inl (same ▸ List.prefix_rfl)
    · obtain ⟨rest,rfl⟩ := shorter
      rw [List.append_assoc,List.prefix_append_right_inj] at inside
      exact .inr (inside.mem (by simp))

end History

variable [Stamped E]

def lastTerm (log : List E) : Nat := (log.getLast?.map Stamped.term).getD 0

/-- The comparison a voter makes before it grants its vote. -/
def UpToDate (candidate own : List E) : Prop :=
  lastTerm own < lastTerm candidate ∨
    lastTerm candidate = lastTerm own ∧ own.length ≤ candidate.length

/-- Each entry of the log, with everything before it, comes from the leader of the
entry's term. -/
def Grounded (s : State N E) (log : List E) : Prop :=
  ∀ before e, before ++ [e] <+: log → before ++ [e] <+: s.leaderLog (Stamped.term e)

/-- The voter acknowledged a prefix of the leader's log that ends in an entry of that same term. -/
structure Acked (s : State N E) (n : N) (t : Nat) (log : List E) : Prop where
  held : log <+: s.leaderLog t
  long : log.length ≤ s.acked n t
  ends : ∃ before e, log = before ++ [e] ∧ Stamped.term e = t

structure Inv (voters : List N) (s : State N E) : Prop where
  voted : ∀ n t c, s.vote n t = some c → t ≤ s.term n ∧ s.stood c t ≠ none
  stands : ∀ c t log, s.stood c t = some log →
    0 < t ∧ s.vote c t = some c ∧ Grounded s log ∧ ∀ e ∈ log, Stamped.term e < t
  led : ∀ t c, s.lead t = some c →
    s.stood c t = some (s.elected t) ∧ Majority voters (fun n => s.vote n t = some c)
  unled : ∀ t, s.lead t = none → s.leaderLog t = []
  grown : ∀ t, s.lead t ≠ none →
    ∃ tail, s.leaderLog t = s.elected t ++ tail ∧ ∀ e ∈ tail, Stamped.term e = t
  grounded : ∀ n, Grounded s (s.log n)
  past : ∀ n, ∀ e ∈ s.log n, Stamped.term e ≤ s.term n
  acked : ∀ n t, s.acked n t ≤ (s.leaderLog t).length ∧ (0 < s.acked n t → t ≤ s.term n)
  kept : ∀ n t log, Acked s n t log → Carried s t (s.term n) log → log <+: s.log n
  promised : ∀ n u c stood, s.vote n u = some c → s.stood c u = some stood →
    ∀ t log, t < u → Acked s n t log → Carried s t u log → log <+: stood
  chosen : ∀ u, s.lead u ≠ none → Majority voters (fun n => u ≤ s.term n ∧
    ∀ t log, t < u → Acked s n t log → Carried s t (u-1) log → log <+: s.elected u)

section
variable {s s' : State N E} {shorter : List E}

theorem Grounded.mono (grounded : Grounded s log) (grows : Grows s s') : Grounded s' log := by
  intro before e inside
  exact (grounded before e inside).trans (grows.leaderLog _)

theorem Grounded.of_shorter (grounded : Grounded s log) (inside : shorter <+: log) : Grounded s shorter := by
  intro before e held
  exact grounded before e (held.trans inside)

variable {t u : Nat}

theorem Acked.mono (grows : Grows s s') (acked : Acked s n t log) : Acked s' n t log where
  held := acked.held.trans (grows.leaderLog t)
  long := acked.long.trans (grows.acked n t)
  ends := acked.ends

theorem lastTerm_concat (before : List E) (e : E) : lastTerm (before ++ [e]) = Stamped.term e := by
  simp [lastTerm]

theorem Inv.initial : Inv voters (State.initial : State N E) where
  voted := by simp [State.initial]
  stands := by simp [State.initial]
  led := by simp [State.initial]
  unled := by simp [State.initial]
  grown := by simp [State.initial]
  grounded := by simp [Grounded,State.initial]
  past := by simp [State.initial]
  acked := by simp [State.initial]
  kept n t log acks := by
    obtain ⟨before,e,rfl,-⟩ := acks.ends
    simpa [State.initial] using acks.held
  promised := by simp [State.initial]
  chosen := by simp [State.initial]

section
variable (inv : Inv voters s)
include inv
variable {c : N}

theorem Inv.leaderLog_past (t : Nat) : ∀ e ∈ s.leaderLog t, Stamped.term e ≤ t := by
  intro e inside
  cases leads : s.lead t with
  | none => simp [inv.unled t leads] at inside
  | some c =>
    obtain ⟨tail,grown,stamped⟩ := inv.grown t (by simp [leads])
    rw [grown,List.mem_append] at inside
    rcases inside with old | new
    · exact le_of_lt ((inv.stands c t _ (inv.led t c leads).1).2.2.2 e old)
    · exact le_of_eq (stamped e new)

theorem Inv.elected_shorter (led : s.lead t ≠ none) : s.elected t <+: s.leaderLog t := by
  obtain ⟨tail,grown,-⟩ := inv.grown t led
  exact ⟨tail,grown.symm⟩

theorem Inv.led_of_mem (inside : e ∈ s.leaderLog t) : s.lead t ≠ none := by
  intro unled
  simp [inv.unled t unled] at inside

theorem Inv.leaderLog_grounded (t : Nat) : Grounded s (s.leaderLog t) := by
  intro before e inside
  have led : s.lead t ≠ none := inv.led_of_mem (inside.mem (List.mem_concat_self ..))
  obtain ⟨c,leads⟩ := Option.ne_none_iff_exists'.mp led
  obtain ⟨tail,grown,stamped⟩ := inv.grown t led
  rcases prefix_append_cases (grown ▸ inside) with old | new
  · exact (inv.stands c t _ (inv.led t c leads).1).2.2.1 before e old
  · rw [stamped e new]
    exact inside

/-- An up to date candidate has what the voter acknowledged, when every leader in between was elected with it.
-/
theorem Inv.upToDate {own candidate : List E} (groundedOwn : Grounded s own) (groundedCandidate : Grounded s candidate)
    (older : ∀ e ∈ candidate, Stamped.term e < u) (held : log <+: own)
    (ends : ∃ before e, log = before ++ [e] ∧ Stamped.term e = t) (carried : Carried s t u log)
    (fresh : UpToDate candidate own) : log <+: candidate := by
  obtain ⟨before,e,rfl,stamped⟩ := ends
  have nonempty : own ≠ [] := by
    rintro rfl
    simp at held
  obtain ⟨front,x,rfl⟩ := List.eq_nil_or_concat own |>.resolve_left nonempty
  rw [List.concat_eq_append] at *
  have ownLeader := groundedOwn front x List.prefix_rfl
  have early : t ≤ Stamped.term x := by
    rw [← stamped]
    exact inv.leaderLog_past _ e (ownLeader.mem (held.mem (by simp)))
  have logLeader := groundedOwn before e held
  rw [stamped] at logLeader
  rcases List.eq_nil_or_concat candidate with rfl | ⟨rest,y,rfl⟩
  · rcases fresh with later | ⟨-,longer⟩
    · simp [lastTerm] at later
    · simp at longer
  rw [List.concat_eq_append] at *
  have candidateLeader := groundedCandidate rest y List.prefix_rfl
  simp only [UpToDate,lastTerm_concat] at fresh
  rcases Nat.lt_or_ge t (Stamped.term y) with later | same
  · have led : s.lead (Stamped.term y) ≠ none := inv.led_of_mem (candidateLeader.mem (by simp : y ∈ _))
    have through := carried _ later (le_of_lt (older y (by simp))) led
    rcases List.prefix_or_prefix_of_prefix (through.trans (inv.elected_shorter led)) candidateLeader with
      inside | outside
    · exact inside
    · have old := inv.leaderLog_past t y (logLeader.mem (outside.mem (by simp)))
      omega
  · have ownTerm : Stamped.term x = t := by omega
    have candidateTerm : Stamped.term y = t := by omega
    rw [ownTerm] at ownLeader
    rw [candidateTerm] at candidateLeader
    exact held.trans (List.prefix_of_prefix_length_le ownLeader candidateLeader (by omega))

theorem Inv.lead_unique {c' : N} (leads : s.lead t = some c)
    (won : Majority voters (fun n => s.vote n t = some c')) : c = c' := by
  obtain ⟨n,first,second⟩ := (inv.led t c leads).2.meet won
  simpa [first] using second

end

/-- A majority acknowledged the log in the term of its last entry. -/
def Chosen (voters : List N) (s : State N E) (t : Nat) (log : List E) : Prop :=
  Majority voters (fun n => Acked s n t log)

/-- The log is part of what was chosen in the term or before. -/
def Committed (voters : List N) (s : State N E) (t : Nat) (log : List E) : Prop :=
  log = [] ∨ ∃ u chosen, u ≤ t ∧ Chosen voters s u chosen ∧ log <+: chosen

theorem chosen_of_acks {k : Nat} (acks : Majority voters (fun n => k ≤ s.acked n t))
    (last : (s.leaderLog t).take k = before ++ [e])
    (stamped : Stamped.term e = t) : Chosen voters s t ((s.leaderLog t).take k) := by
  apply acks.mono
  intro n _ enough
  exact ⟨List.take_prefix ..,(List.length_take_le ..).trans enough,before,e,last,stamped⟩

theorem Chosen.held (chosen : Chosen voters s t log) : log <+: s.leaderLog t := by
  obtain ⟨n,acks,-⟩ := chosen.meet chosen
  exact acks.held

section
variable (inv : Inv voters s) (chosen : Chosen voters s t log)
include inv chosen

theorem Chosen.led : s.lead t ≠ none := by
  obtain ⟨n,acks,-⟩ := chosen.meet chosen
  obtain ⟨before,e,rfl,-⟩ := acks.ends
  exact inv.led_of_mem (acks.held.mem (List.mem_concat_self ..))

/-- Every later leader is elected with what was chosen: by induction on its term, as two majorities share a
voter. -/
theorem Inv.complete (u : Nat) (after : t < u) (led : s.lead u ≠ none) : log <+: s.elected u := by
  induction u using Nat.strong_induction_on with
  | h u ih =>
    obtain ⟨n,acks,-,through⟩ := chosen.meet (inv.chosen u led)
    apply through t log after acks
    intro v later upto ledv
    exact ih v (by omega) later ledv

theorem Chosen.leader (upto : t ≤ u) (led : s.lead u ≠ none) : log <+: s.leaderLog u := by
  rcases Nat.lt_or_eq_of_le upto with after | rfl
  · exact (inv.complete chosen u after led).trans (inv.elected_shorter led)
  · exact chosen.held

end

theorem Committed.mono (committed : Committed voters s t log) (grows : Grows s s')
    (upto : t ≤ u) : Committed voters s' u log := by
  rcases committed with rfl | ⟨v,chosen,early,majority,inside⟩
  · exact .inl rfl
  · exact .inr ⟨v,chosen,early.trans upto,majority.mono (fun _ _ acks => acks.mono grows),inside⟩

theorem Committed.of_shorter (committed : Committed voters s t log)
    (inside : shorter <+: log) : Committed voters s t shorter := by
  rcases committed with rfl | ⟨v,chosen,early,majority,within⟩
  · exact .inl (List.prefix_nil.mp inside)
  · exact .inr ⟨v,chosen,early,majority,inside.trans within⟩

theorem Committed.leader (inv : Inv voters s) (committed : Committed voters s t log) (upto : t ≤ u)
    (led : s.lead u ≠ none) : log <+: s.leaderLog u := by
  rcases committed with rfl | ⟨v,chosen,early,majority,inside⟩
  · exact List.nil_prefix
  · exact inside.trans (majority.leader inv (early.trans upto) led)

theorem Committed.elected (inv : Inv voters s) (committed : Committed voters s t log) (after : t < u)
    (led : s.lead u ≠ none) : log <+: s.elected u := by
  rcases committed with rfl | ⟨v,chosen,early,majority,inside⟩
  · exact List.nil_prefix
  · exact inside.trans (inv.complete majority u (early.trans_lt after) led)

theorem Committed.total {t' : Nat} {log' : List E} (inv : Inv voters s) (first : Committed voters s t log)
    (second : Committed voters s t' log') : log <+: log' ∨ log' <+: log := by
  rcases first with rfl | ⟨v,chosen,-,majority,inside⟩
  · exact .inl List.nil_prefix
  rcases second with rfl | ⟨v',chosen',-,majority',inside'⟩
  · exact .inr List.nil_prefix
  rcases Nat.le_total v v' with upto | upto
  · exact List.prefix_or_prefix_of_prefix
      (inside.trans (majority.leader inv upto (majority'.led inv))) (inside'.trans majority'.held)
  · exact List.prefix_or_prefix_of_prefix (inside.trans majority.held)
      (inside'.trans (majority'.leader inv upto (majority.led inv)))

end

end AuraDb.Library.Consensus
