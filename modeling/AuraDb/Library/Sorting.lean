import Mathlib.Data.List.Induction
import Mathlib.Data.List.Sort
import Mathlib.Order.Compare

/-! Sorting by a comparator whose laws hold among the elements at hand, not on the
whole type. -/
namespace AuraDb.Library.Sorting
open Std
variable {α β : Type}

abbrev TransOn (p : α → Prop) (cmp : α → α → Ordering) : Prop := TransCmp fun a b : {a : α // p a} => cmp a b

variable {p : α → Prop} {cmp cmp' : α → α → Ordering}

theorem transOn_congr (lawful : TransOn p cmp) (same : ∀ a b, p a → p b → cmp' a b = cmp a b) : TransOn p cmp' := by
  have equal : (fun a b : {a : α // p a} => cmp' a b) = fun a b : {a : α // p a} => cmp a b := by
    funext a b
    exact same a b a.2 b.2
  unfold TransOn
  rw [equal]
  exact lawful

theorem transOn_then (lawful : TransOn p cmp)
    (lawful' : TransOn p cmp') : TransOn p fun a b => (cmp a b).then (cmp' a b) :=
  inferInstanceAs (TransCmp (compareLex (fun a b : {a : α // p a} => cmp a b) fun a b => cmp' a b))

theorem transOn_swap (lawful : TransOn p cmp) : TransOn p fun a b => (cmp a b).swap := by
  have flipped : TransOn p fun a b => cmp b a := TransCmp.opposite
  have oriented : ∀ a b : {a : α // p a}, cmp a b = (cmp b a).swap := fun _ _ => lawful.eq_swap
  apply transOn_congr flipped
  intro a b holds holds'
  exact (oriented ⟨b,holds'⟩ ⟨a,holds⟩).symm

theorem transOn_compare [Ord β] [TransOrd β] (p : α → Prop) (f : α → β) : TransOn p fun a b => compare (f a) (f b) :=
  inferInstanceAs (TransCmp (compareOn fun a : {a : α // p a} => f a))

theorem ne_gt_trans (lawful : TransOn p cmp) {a b c : α} (first : p a) (mid : p b) (last : p c) (below : cmp a b ≠ .gt)
    (above : cmp b c ≠ .gt) : cmp a c ≠ .gt :=
  Ordering.isLE_iff_ne_gt.mp (lawful.isLE_trans (a := ⟨a,first⟩) (b := ⟨b,mid⟩) (c := ⟨c,last⟩)
    (Ordering.isLE_iff_ne_gt.mpr below) (Ordering.isLE_iff_ne_gt.mpr above))

theorem transOn_comap {q : β → Prop} (lawful : TransOn p cmp) (f : β → α)
    (maps : ∀ b, q b → p (f b)) : TransOn q fun a b => cmp (f a) (f b) where
  eq_swap {a b} := lawful.eq_swap (a := ⟨f a,maps a a.2⟩) (b := ⟨f b,maps b b.2⟩)
  isLE_trans {a b c} := lawful.isLE_trans (a := ⟨f a,maps a a.2⟩) (b := ⟨f b,maps b b.2⟩) (c := ⟨f c,maps c c.2⟩)

theorem transOn_mono {q : α → Prop} (lawful : TransOn p cmp) (within : ∀ a, q a → p a) : TransOn q cmp :=
  transOn_comap lawful id within

section
variable {items : List α} (lawful : TransOn (· ∈ items) cmp)
include lawful

theorem pairwise_insertionSort : (items.insertionSort fun a b => cmp a b ≠ .gt).Pairwise fun a b => cmp a b ≠ .gt := by
  let below (a b : {a : α // a ∈ items}) : Prop := cmp a b ≠ .gt
  have total : Std.Total below := by
    constructor
    intro a b
    have flipped : cmp a b = (cmp b a).swap := lawful.eq_swap
    cases more : cmp b a <;> simp_all [below]
  have trans : IsTrans _ below := by
    constructor
    exact fun a b c => ne_gt_trans lawful a.2 b.2 c.2
  have sorted := (List.pairwise_insertionSort below items.attach).map Subtype.val (S := fun a b => cmp a b ≠ .gt)
    fun _ _ holds => holds
  have images : (items.attach.insertionSort below).map Subtype.val = items.insertionSort fun a b => cmp a b ≠ .gt := by
    rw [List.map_insertionSort below (fun a b => cmp a b ≠ .gt) Subtype.val items.attach fun _ _ _ _ => Iff.rfl]
    simp
  rwa [images] at sorted

variable (apart : ∀ a ∈ items, ∀ b ∈ items, cmp a b = .eq → a = b)
include apart

theorem pairwise_lt_insertionSort (distinct : items.Nodup) :
    (items.insertionSort fun a b => cmp a b ≠ .gt).Pairwise fun a b => cmp a b = .lt := by
  have perm := List.perm_insertionSort (fun a b => cmp a b ≠ .gt) items
  have both := (pairwise_insertionSort lawful).and (perm.nodup_iff.mpr distinct)
  apply both.imp_of_mem
  rintro a b held held' ⟨below,differ⟩
  cases found : cmp a b with
  | lt => rfl
  | eq => exact absurd (apart a (perm.mem_iff.mp held) b (perm.mem_iff.mp held') found) differ
  | gt => exact absurd found below

theorem eq_of_sorted {xs ys : List α} (perm : xs.Perm items) (perm' : ys.Perm items)
    (sorted : xs.Pairwise fun a b => cmp a b ≠ .gt) (sorted' : ys.Pairwise fun a b => cmp a b ≠ .gt) : xs = ys := by
  refine List.Perm.eq_of_pairwise ?_ sorted sorted' (perm.trans perm'.symm)
  intro a b held held' below above
  have first : a ∈ items := perm.mem_iff.mp held
  have second : b ∈ items := perm'.mem_iff.mp held'
  have flipped : cmp a b = (cmp b a).swap := lawful.eq_swap (a := ⟨a,first⟩) (b := ⟨b,second⟩)
  apply apart a first b second
  cases found : cmp b a <;> simp_all

theorem insertionSort_eq_of_perm {other : List α} (same : other.Perm items) :
    other.insertionSort (fun a b => cmp a b ≠ .gt) = items.insertionSort fun a b => cmp a b ≠ .gt := by
  have lawful' : TransOn (· ∈ other) cmp := transOn_mono lawful fun _ => same.mem_iff.mp
  exact eq_of_sorted lawful apart ((List.perm_insertionSort _ other).trans same) (List.perm_insertionSort _ items)
    (pairwise_insertionSort lawful') (pairwise_insertionSort lawful)

theorem insertionSort_eq_append {kept : List α} {last : α} (parts : (last::kept).Perm items)
    (most : ∀ a ∈ kept, cmp a last ≠ .gt) : items.insertionSort (fun a b => cmp a b ≠ .gt) =
      kept.insertionSort (fun a b => cmp a b ≠ .gt) ++ [last] := by
  have within : TransOn (· ∈ kept) cmp := transOn_mono lawful fun a held => parts.mem_iff.mp (List.mem_cons_of_mem _ held)
  have perm := List.perm_insertionSort (fun a b => cmp a b ≠ .gt) kept
  refine eq_of_sorted lawful apart (List.perm_insertionSort _ items) ?_ (pairwise_insertionSort lawful) ?_
  · exact ((perm.append_right [last]).trans (List.perm_append_singleton last kept)).trans parts
  · rw [List.pairwise_append]
    refine ⟨pairwise_insertionSort within,List.pairwise_singleton _ _,fun a held b here => ?_⟩
    exact List.mem_singleton.mp here ▸ most a (perm.mem_iff.mp held)

end

theorem take_orderedInsert (le : α → α → Prop) [DecidableRel le] (a : α) (k : Nat) (sorted : List α) :
    ((sorted.take k).orderedInsert le a).take k = (sorted.orderedInsert le a).take k := by
  induction sorted generalizing k with
  | nil => simp
  | cons b rest ih =>
    cases k with
    | zero => simp
    | succ k =>
      rw [List.take_succ_cons,List.orderedInsert_cons,List.orderedInsert_cons]
      split
      · cases k <;> simp [List.take_take]
      · rw [List.take_succ_cons,List.take_succ_cons,ih]

theorem foldl_last {first : α} (lawful : TransOn p cmp) (others : List α) (holds : ∀ a ∈ first::others, p a) :
    let last := others.foldl (fun kept a => if cmp a kept == .gt then a else kept) first
    last ∈ first::others ∧ ∀ a ∈ first::others, cmp a last ≠ .gt := by
  have flipped {a b : α} (here : p a) (there : p b) : cmp a b = (cmp b a).swap :=
    lawful.eq_swap (a := ⟨a,here⟩) (b := ⟨b,there⟩)
  have self {a : α} (here : p a) : cmp a a ≠ .gt := by
    intro more
    have turned := flipped here here
    rw [more] at turned
    cases turned
  induction others using List.reverseRecOn with
  | nil => simpa using self (holds first List.mem_cons_self)
  | append_singleton others new ih =>
    have old : ∀ a ∈ first::others, p a := fun a held => holds a (List.mem_append_left [new] held)
    have fresh : p new := holds new (List.mem_append_right (first::others) List.mem_cons_self)
    obtain ⟨inside,most⟩ := ih old
    rw [List.foldl_append,List.foldl_cons,List.foldl_nil,← List.cons_append]
    generalize others.foldl (fun kept a => if cmp a kept == .gt then a else kept) first = last at inside most
    by_cases more : cmp new last = .gt
    · rw [if_pos (by simp [more])]
      refine ⟨by simp,fun a held => ?_⟩
      rcases List.mem_append.mp held with held | held
      · have turned := flipped (old last inside) fresh
        exact ne_gt_trans lawful (old a held) (old last inside) fresh (most a held) (by simp [turned,more])
      · obtain rfl := List.mem_singleton.mp held
        exact self fresh
    · rw [if_neg (by simpa using more)]
      refine ⟨List.mem_append_left _ inside,fun a held => ?_⟩
      rcases List.mem_append.mp held with held | held
      · exact most a held
      · exact List.mem_singleton.mp held ▸ more

theorem findIdx_split {p : α → Bool} (xs ys : List α) (before : ∀ x ∈ xs, p x = false) (after : ∀ y ∈ ys, p y = true) :
    (xs ++ ys).findIdx p = xs.length := by
  induction xs with
  | nil =>
    cases ys with
    | nil => rfl
    | cons y rest => simp [List.findIdx_cons,after y List.mem_cons_self]
  | cons x rest ih =>
    rw [List.cons_append,List.findIdx_cons,before x List.mem_cons_self,cond_false,
      ih fun x inside => before x (List.mem_cons_of_mem _ inside)]
    rfl

theorem findIdx_after {items : List α} (lawful : TransOn (· ∈ items) cmp)
    (sorted : items.Pairwise fun a b => cmp a b = .lt) {k : Nat} {last : α} (found : items[k]? = some last)
    {p : α → Bool} (seeks : ∀ a ∈ items, p a = (cmp last a == .lt)) : items.findIdx p = k + 1 := by
  obtain ⟨bound,rfl⟩ := List.getElem?_eq_some_iff.mp found
  have parts : items = items.take k ++ items[k]::items.drop (k + 1) := by simp
  have apart := sorted
  rw [parts,List.pairwise_append,List.pairwise_cons] at apart
  obtain ⟨_,⟨later,_⟩,earlier⟩ := apart
  have flipped (a : α) (inside : a ∈ items) : cmp items[k] a = (cmp a items[k]).swap :=
    lawful.eq_swap (a := ⟨items[k],List.getElem_mem bound⟩) (b := ⟨a,inside⟩)
  have split := findIdx_split (p := p) (items.take (k + 1)) (items.drop (k + 1)) ?_ ?_
  · rwa [List.take_append_drop,List.length_take,Nat.min_eq_left bound] at split
  · intro a inside
    rw [seeks a (List.mem_of_mem_take inside)]
    rw [List.take_succ_eq_append_getElem bound,List.mem_append,List.mem_singleton] at inside
    rcases inside with inside | rfl
    · have below := earlier a inside items[k] List.mem_cons_self
      rw [flipped a (List.mem_of_mem_take inside),below]
      rfl
    · have self := flipped items[k] (List.getElem_mem bound)
      cases same : cmp items[k] items[k] with
      | lt =>
        rw [same] at self
        cases self
      | eq | gt => rfl
  · intro a inside
    rw [seeks a (List.mem_of_mem_drop inside),later a inside]
    rfl

end AuraDb.Library.Sorting
