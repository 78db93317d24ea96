import Mathlib.Algebra.Order.Ring.Nat
import Mathlib.Algebra.BigOperators.Group.List.Basic
import Mathlib.Data.List.Perm.Basic
import Mathlib.Data.List.Pairwise
import Std.Data.ExtTreeMap

/-! Facts about extensional tree maps: an update of one entry seen from every key, the values in key order, and
sums of values. -/
namespace AuraDb.Library.TreeMap
open Std ExtTreeMap
variable {κ β γ : Type} {cmp : κ → κ → Ordering} [TransCmp cmp] [LawfulEqCmp cmp]

theorem toList_filterMap_congr {δ : Type} (s : ExtTreeMap κ β cmp) (t : ExtTreeMap κ δ cmp)
    (f : β → Option γ) (g : δ → Option γ) (same : ∀ k : κ, s[k]?.bind f = t[k]?.bind g) :
    s.toList.filterMap (fun p => f p.2) = t.toList.filterMap (fun p => g p.2) := by
  have maps : s.filterMap (fun _ v => f v) = t.filterMap (fun _ v => g v) := by
    apply ext_getElem?
    intro k
    rw [getElem?_filterMap',getElem?_filterMap']
    exact same k
  have lists := congrArg (fun m : ExtTreeMap κ γ cmp => m.toList.map Prod.snd) maps
  simp only [toList_filterMap,List.map_filterMap] at lists
  simpa [Option.map_map,Function.comp_def] using lists

variable (t m : ExtTreeMap κ β cmp)

theorem mem_toList_filterMap (f : β → Option γ) (c : γ) :
    c ∈ t.toList.filterMap (fun p => f p.2) ↔ ∃ k : κ, t[k]?.bind f = some c := by
  simp only [List.mem_filterMap,Prod.exists,mem_toList_iff_getElem?_eq_some]
  constructor
  · rintro ⟨k,v,found,shown⟩
    exact ⟨k,by rw [found]; exact shown⟩
  · rintro ⟨k,shown⟩
    obtain ⟨v,found,shown⟩ := Option.bind_eq_some_iff.mp shown
    exact ⟨k,v,found,shown⟩

theorem toList_nodup : t.toList.Nodup := by
  apply List.Pairwise.imp _ (ordered_keys_toList (t := t))
  rintro ⟨k,v⟩ ⟨k',v'⟩ before same
  obtain ⟨rfl,rfl⟩ := same
  simp [ReflCmp.compare_self] at before

omit [LawfulEqCmp cmp] in
theorem keys_nodup : (t.toList.map Prod.fst).Nodup := by
  rw [map_fst_toList_eq_keys]
  exact nodup_keys

theorem countP_le_of_keys (p : β → Bool) (keys : List κ)
    (inside : ∀ (k : κ) (v : β), t[k]? = some v → p v = true → k ∈ keys) :
    t.toList.countP (fun e => p e.2) ≤ keys.length := by
  rw [List.countP_eq_length_filter,← List.length_map Prod.fst]
  apply List.Subperm.length_le
  apply List.subperm_of_subset
  · exact (keys_nodup t).sublist (List.filter_sublist.map _)
  · intro k held
    obtain ⟨⟨k',v⟩,passed,rfl⟩ := List.mem_map.mp held
    obtain ⟨found,holds⟩ := List.mem_filter.mp passed
    exact inside k' v (mem_toList_iff_getElem?_eq_some.mp found) holds

theorem flatMap_toList_single (k : κ) (f : κ × β → List γ)
    (others : ∀ k' v, t[k']? = some v → k' ≠ k → f (k',v) = []) :
    t.toList.flatMap f = t[k]?.elim [] (fun v => f (k,v)) := by
  have single (l : List (κ × β)) (distinct : l.Pairwise (fun p q => p.1 ≠ q.1))
      (others : ∀ p ∈ l, p.1 ≠ k → f p = []) (v : β) (inside : (k,v) ∈ l) : l.flatMap f = f (k,v) := by
    induction l with
    | nil => simp at inside
    | cons p rest ih =>
      obtain ⟨apart,tail⟩ := List.pairwise_cons.mp distinct
      rw [List.flatMap_cons]
      rcases List.mem_cons.mp inside with rfl | later
      · have none : rest.flatMap f = [] := by
          rw [List.flatMap_eq_nil_iff]
          exact fun q held => others q (List.mem_cons_of_mem _ held) (Ne.symm (apart q held))
        rw [none,List.append_nil]
      · rw [others p (by simp) (apart _ later),List.nil_append]
        exact ih tail (fun q held => others q (List.mem_cons_of_mem _ held)) later
  have distinct : t.toList.Pairwise (fun p q => p.1 ≠ q.1) := by
    apply List.Pairwise.imp _ (ordered_keys_toList (t := t))
    rintro p q before same
    simp [same,ReflCmp.compare_self] at before
  have silent : ∀ p ∈ t.toList, p.1 ≠ k → f p = [] := by
    rintro ⟨k',v⟩ inside apart
    exact others k' v (mem_toList_iff_getElem?_eq_some.mp inside) apart
  cases found : t[k]? with
  | some v => exact single t.toList distinct silent v (mem_toList_iff_getElem?_eq_some.mpr found)
  | none =>
    rw [Option.elim_none,List.flatMap_eq_nil_iff]
    rintro ⟨k',v⟩ inside
    apply silent _ inside
    rintro rfl
    rw [mem_toList_iff_getElem?_eq_some,found] at inside
    simp at inside

def total (t : ExtTreeMap κ Nat cmp) : Nat := (t.toList.map Prod.snd).sum

omit [LawfulEqCmp cmp] in
@[simp] theorem total_empty : total (∅ : ExtTreeMap κ Nat cmp) = 0 := by
  have empty : (∅ : ExtTreeMap κ Nat cmp).toList = [] := by simp [← List.isEmpty_iff]
  simp [total,empty]

variable [DecidableEq κ] {k : κ} {v : β}

theorem getElem?_alter_eq (k k' : κ) (f : Option β → Option β) :
    (t.alter k f)[k']? = if k = k' then f t[k]? else t[k']? := by
  rw [getElem?_alter]
  simp only [LawfulEqCmp.compare_eq_iff_eq]

theorem getElem?_insert_eq (k k' : κ) (v : β) : (t.insert k v)[k']? = if k = k' then some v else t[k']? := by
  rw [getElem?_insert]
  simp only [LawfulEqCmp.compare_eq_iff_eq]

theorem of_getElem?_insert {t : ExtTreeMap κ β cmp} {k' : κ} {v' : β} (found : (t.insert k v)[k']? = some v') :
    k' = k ∧ v' = v ∨ k' ≠ k ∧ t[k']? = some v' := by
  rw [getElem?_insert_eq] at found
  split at found
  · rename_i same
    exact .inl ⟨same.symm,(Option.some.inj found).symm⟩
  · rename_i different
    exact .inr ⟨Ne.symm different,found⟩

theorem forall_insert {t : ExtTreeMap κ β cmp} {P : κ → β → Prop} (new : P k v)
    (old : ∀ k' v', k' ≠ k → t[k']? = some v' → P k' v') (k' : κ) (v' : β)
    (found : (t.insert k v)[k']? = some v') : P k' v' := by
  rcases of_getElem?_insert found with ⟨rfl,rfl⟩ | ⟨different,before⟩
  · exact new
  · exact old k' v' different before

theorem getElem?_foldl_insert (keys : List κ) (value : κ → β) (t : ExtTreeMap κ β cmp) (k : κ) :
    (keys.foldl (fun t key => t.insert key (value key)) t)[k]? = if k ∈ keys then some (value k) else t[k]? := by
  induction keys generalizing t with
  | nil => simp
  | cons key rest ih =>
    rw [List.foldl_cons,ih,getElem?_insert_eq]
    by_cases same : k = key
    · simp [same]
    · simp [same,Ne.symm same]

theorem getElem?_foldl_insert_own (values : List β) (key : β → κ) (t : ExtTreeMap κ β cmp) (k : κ) :
    (values.foldl (fun t v => t.insert (key v) v) t)[k]? = (values.reverse.find? (fun v => key v = k)).or t[k]? := by
  induction values generalizing t with
  | nil => simp
  | cons v rest ih =>
    rw [List.foldl_cons,ih,getElem?_insert_eq,List.reverse_cons,List.find?_append,Option.or_assoc]
    by_cases same : key v = k
    · simp [same]
    · simp [same]

theorem getElem?_erase_eq (k k' : κ) : (t.erase k)[k']? = if k = k' then none else t[k']? := by
  rw [getElem?_erase]
  simp only [LawfulEqCmp.compare_eq_iff_eq]

theorem of_getElem?_erase {t : ExtTreeMap κ β cmp} {k' : κ} (found : (t.erase k)[k']? = some v) :
    k' ≠ k ∧ t[k']? = some v := by
  rw [getElem?_erase_eq] at found
  split at found
  · cases found
  · rename_i different
    exact ⟨Ne.symm different,found⟩

section
variable {γ : Type} (f : κ → β → Option γ → Option γ)
include f

private theorem getElem?_foldl_alter_list (l : List (κ × β))
    (distinct : (l.map Prod.fst).Nodup) (t : ExtTreeMap κ γ cmp) (k : κ) :
    (k ∉ l.map Prod.fst → (l.foldl (fun t p => t.alter p.1 (f p.1 p.2)) t)[k]? = t[k]?) ∧
      ∀ b, (k,b) ∈ l → (l.foldl (fun t p => t.alter p.1 (f p.1 p.2)) t)[k]? = f k b t[k]? := by
  induction l generalizing t with
  | nil => simp
  | cons p rest ih =>
    rw [List.map_cons,List.nodup_cons] at distinct
    obtain ⟨before,inside⟩ := ih distinct.2 (t.alter p.1 (f p.1 p.2))
    rw [List.foldl_cons]
    constructor
    · intro absent
      rw [List.map_cons,List.mem_cons,not_or] at absent
      rw [before absent.2,getElem?_alter_eq,if_neg (Ne.symm absent.1)]
    · intro b held
      rcases List.mem_cons.mp held with rfl | later
      · rw [before distinct.1,getElem?_alter_eq,if_pos rfl]
      · have other : p.1 ≠ k := fun same => distinct.1 (List.mem_map.mpr ⟨_,later,same.symm⟩)
        rw [inside b later,getElem?_alter_eq,if_neg other]

theorem getElem?_foldl_alter (t : ExtTreeMap κ γ cmp) (k : κ) :
    (m.toList.foldl (fun t p => t.alter p.1 (f p.1 p.2)) t)[k]? = match m[k]? with
      | some b => f k b t[k]?
      | none => t[k]? := by
  obtain ⟨before,inside⟩ := getElem?_foldl_alter_list f m.toList (keys_nodup m) t k
  cases found : m[k]? with
  | some b => exact inside b (mem_toList_iff_getElem?_eq_some.mpr found)
  | none =>
    apply before
    rintro held
    obtain ⟨⟨k',b⟩,listed,rfl⟩ := List.mem_map.mp held
    rw [mem_toList_iff_getElem?_eq_some,found] at listed
    cases listed

end

def extend (t : ExtTreeMap κ β cmp) (entries : List (κ × β)) : ExtTreeMap κ β cmp :=
  entries.foldl (fun t p => t.insert p.1 p.2) t

theorem extend_empty : extend ∅ m.toList = m := by
  have same : (fun (t : ExtTreeMap κ β cmp) (p : κ × β) => t.insert p.1 p.2) =
      fun t p => t.alter p.1 (fun _ => some p.2) := by
    funext t p
    apply ext_getElem?
    intro k
    rw [getElem?_insert_eq,getElem?_alter_eq]
  apply ext_getElem?
  intro k
  rw [extend,same,getElem?_foldl_alter m (fun _ b _ => some b)]
  cases m[k]? <;> simp

theorem foldl_add_empty (m : ExtTreeMap κ Nat cmp) :
    m.toList.foldl (fun t p => t.alter p.1 (fun n => some (n.getD 0 + p.2))) ∅ = m := by
  apply ext_getElem?
  intro k
  rw [getElem?_foldl_alter m (fun _ b n => some (n.getD 0 + b))]
  cases m[k]? <;> simp

theorem toList_insert_perm (k : κ) (v : β) (absent : t[k]? = none) :
    (t.insert k v).toList.Perm ((k,v)::t.toList) := by
  have fresh : (k,v) ∉ t.toList := by
    intro inside
    rw [mem_toList_iff_getElem?_eq_some,absent] at inside
    simp at inside
  refine (List.perm_ext_iff_of_nodup (toList_nodup _) (List.nodup_cons.mpr ⟨fresh,toList_nodup t⟩)).mpr ?_
  rintro ⟨k',v'⟩
  simp only [mem_toList_iff_getElem?_eq_some,getElem?_insert_eq,List.mem_cons,Prod.mk.injEq]
  by_cases same : k = k'
  · subst k'
    simp [absent,eq_comm]
  · simp [same,Ne.symm same]

theorem total_insert (t : ExtTreeMap κ Nat cmp) (k : κ) (v : Nat) (absent : t[k]? = none) :
    total (t.insert k v) = total t + v := by
  unfold total
  rw [((toList_insert_perm t k v absent).map Prod.snd).sum_eq]
  simp [Nat.add_comm]

theorem total_erase (t : ExtTreeMap κ Nat cmp) (k : κ) (v : Nat) (found : t[k]? = some v) :
    total (t.erase k) + v = total t := by
  have restored : (t.erase k).insert k v = t := by
    apply ext_getElem?
    intro k'
    rw [getElem?_insert_eq,getElem?_erase_eq]
    by_cases same : k = k'
    · subst k'
      simp [found]
    · simp [same]
  conv_rhs => rw [← restored]
  rw [total_insert _ _ _ (by rw [getElem?_erase_eq,if_pos rfl])]

end AuraDb.Library.TreeMap
