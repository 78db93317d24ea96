import Mathlib.Data.Set.Finite.Basic
import Mathlib.Data.List.Perm.Basic
import Mathlib.Order.WellFounded

/-! An order of dependency by repeated passes. Each pass places the items that are ready given those placed so
far; when one places nothing, the rest follow as they stand. -/
namespace AuraDb.Library.DependencyOrder
variable {α : Type} (ready : List α → α → Bool)

def pass : List α → List α → List α × List α
  | placed, [] => (placed,[])
  | placed, x::rest =>
    if ready placed x then pass (placed ++ [x]) rest
    else ((pass placed rest).1,x::(pass placed rest).2)

def order (placed remaining : List α) : List α :=
  match pass ready placed remaining with
  | (placed,[]) => placed
  | (placed,left) => if left.length < remaining.length then order placed left else placed ++ left
termination_by remaining.length

/-- Each item was ready given those before it. -/
def Closed (items : List α) : Prop := ∀ before x after, items = before ++ x::after → ready before x = true

variable {ready} (placed remaining : List α)

theorem Closed.snoc {items : List α} {x : α} (closed : Closed ready items) (isReady : ready items x = true) :
    Closed ready (items ++ [x]) := by
  intro before y after split
  rcases List.eq_nil_or_concat after with rfl | ⟨front,last,rfl⟩
  · obtain ⟨rfl,same⟩ := List.append_inj' split rfl
    obtain rfl := List.singleton_inj.mp same
    exact isReady
  · have whole : items ++ [x] = (before ++ y::front) ++ [last] := by simpa using split
    exact closed before y front (List.append_inj' whole rfl).1

theorem pass_closed {placed : List α} (closed : Closed ready placed) (remaining : List α) :
    Closed ready (pass ready placed remaining).1 := by
  induction remaining generalizing placed with
  | nil => exact closed
  | cons x rest ih =>
    unfold pass
    split
    · rename_i isReady
      exact ih (closed.snoc isReady)
    · exact ih closed

theorem pass_length : (pass ready placed remaining).2.length ≤ remaining.length := by
  induction remaining generalizing placed with
  | nil => exact Nat.le_refl _
  | cons x rest ih =>
    unfold pass
    split
    · exact Nat.le_succ_of_le (ih _)
    · exact Nat.succ_le_succ (ih _)

theorem pass_stuck {placed remaining : List α} (stuck : remaining.length ≤ (pass ready placed remaining).2.length) :
    pass ready placed remaining = (placed,remaining) ∧ ∀ x ∈ remaining, ready placed x = false := by
  induction remaining generalizing placed with
  | nil => exact ⟨rfl,by simp⟩
  | cons x rest ih =>
    unfold pass at stuck ⊢
    split at stuck
    · exact absurd stuck (Nat.not_le.mpr (Nat.lt_succ_of_le (pass_length _ _)))
    · rename_i waits
      obtain ⟨same,others⟩ := ih (Nat.le_of_succ_le_succ stuck)
      exact ⟨by rw [if_neg waits,same],List.forall_mem_cons.mpr ⟨Bool.eq_false_of_not_eq_true waits,others⟩⟩

theorem pass_perm :
    ((pass ready placed remaining).1 ++ (pass ready placed remaining).2).Perm (placed ++ remaining) := by
  induction remaining generalizing placed with
  | nil => exact .refl _
  | cons x rest ih =>
    unfold pass
    split
    · simpa using ih (placed ++ [x])
    · exact List.perm_middle.trans (((ih placed).cons x).trans List.perm_middle.symm)

theorem order_perm : (order ready placed remaining).Perm (placed ++ remaining) := by
  fun_induction order ready placed remaining with
  | case1 placed remaining placed' done =>
    have perm := @pass_perm _ ready placed remaining
    rw [done,List.append_nil] at perm
    exact perm
  | case2 placed remaining placed' left nonempty done shorter ih =>
    have perm := @pass_perm _ ready placed remaining
    rw [done] at perm
    exact ih.trans perm
  | case3 placed remaining placed' left nonempty done stuck =>
    have perm := @pass_perm _ ready placed remaining
    rw [done] at perm
    exact perm

theorem order_split (closed : Closed ready placed) : ∃ front left,
    order ready placed remaining = front ++ left ∧ Closed ready front ∧ ∀ x ∈ left, ready front x = false := by
  fun_induction order ready placed remaining with
  | case1 placed remaining placed' done =>
    have kept := pass_closed closed remaining
    rw [done] at kept
    exact ⟨placed',[],by simp,kept,by simp⟩
  | case2 placed remaining placed' left nonempty done shorter ih =>
    have kept := pass_closed closed remaining
    rw [done] at kept
    exact ih kept
  | case3 placed remaining placed' left nonempty done stuck =>
    obtain ⟨same,waits⟩ := @pass_stuck _ ready placed remaining (by rw [done]; exact Nat.not_lt.mp stuck)
    cases done.symm.trans same
    exact ⟨placed,remaining,rfl,closed,waits⟩

open Relation in
/-- What waits for others that wait reaches a cycle: a list is finite. -/
theorem exists_cycle {r : α → α → Prop} {left : List α} (waits : ∀ x ∈ left, ∃ y ∈ left, r x y) {x : α}
    (inside : x ∈ left) : ∃ y, ReflTransGen r x y ∧ TransGen r y y := by
  by_contra none
  push Not at none
  let Reached := { y : α // y ∈ left ∧ ReflTransGen r x y }
  let later (a b : Reached) : Prop := TransGen r b.1 a.1
  have : Finite Reached := ((List.finite_toSet left).subset fun _ held => held.1).to_subtype
  have : IsTrans Reached later := ⟨fun _ _ _ ab bc => bc.trans ab⟩
  have : Std.Irrefl later := ⟨fun a loop => none a.1 a.2.2 loop⟩
  obtain ⟨last,_,least⟩ := (Finite.wellFounded_of_trans_of_irrefl later).has_min Set.univ ⟨⟨x,inside,.refl⟩,trivial⟩
  obtain ⟨y,held,next⟩ := waits last.1 last.2.1
  exact least ⟨y,held,last.2.2.tail next⟩ trivial (.single next)

end AuraDb.Library.DependencyOrder
