import Mathlib.Data.List.Basic

/-! Version chains: the committed versions of one item, each with the timestamp at which it became visible; a
version without a value is a tombstone. -/
namespace AuraDb.Library.VersionChain

structure Version (α : Type) where
  commitTs : Nat
  value : Option α
  deriving DecidableEq, Repr

abbrev Chain (α : Type) := List (Version α)

variable {α : Type}

def Ascending (chain : Chain α) : Prop := chain.Pairwise (fun a b => a.commitTs < b.commitTs)

def visibleAt (chain : Chain α) (readTs : Nat) : Option (Version α) :=
  chain.reverse.find? (fun v => decide (v.commitTs ≤ readTs))

def latest (chain : Chain α) : Option (Version α) := chain.getLast?

/-- Insert at the place of the timestamp, replacing a version that has it, as a binary search does on an
ascending chain. -/
def insertVersion : Chain α → Version α → Chain α
  | [], version => [version]
  | v::rest, version =>
    if v.commitTs < version.commitTs then v::insertVersion rest version
    else if v.commitTs = version.commitTs then version::rest
    else version::v::rest

def rposition {β : Type} (p : β → Bool) : List β → Option Nat
  | [] => none
  | b::rest =>
    match rposition p rest with
    | some i => some (i+1)
    | none => if p b then some 0 else none

/-- Those before the version visible at `cutoff`, but never so many that fewer than `keep` remain. -/
def removable (cutoff keep : Nat) (chain : Chain α) : Nat :=
  match rposition (fun v => decide (v.commitTs ≤ cutoff)) chain with
  | none => 0
  | some floor => min floor (chain.length - keep)

def isDead (cutoff : Nat) (chain : Chain α) : Bool :=
  match chain.getLast? with
  | none => false
  | some last => last.value.isNone && decide (last.commitTs ≤ cutoff)

def prune (cutoff keep : Nat) (chain : Chain α) : Option (Chain α) :=
  if isDead cutoff chain then none else some (chain.drop (removable cutoff keep chain))

variable (chain : Chain α) (version : Version α) (older newer : Chain α) (cutoff keep t : Nat)

theorem mem_insertVersion (v : Version α) (inside : v ∈ insertVersion chain version) : v = version ∨ v ∈ chain := by
  induction chain with
  | nil => simpa [insertVersion] using inside
  | cons head rest ih =>
    simp only [insertVersion] at inside
    split_ifs at inside with before same
    · rcases List.mem_cons.mp inside with rfl | later
      · simp
      · rcases ih later with h | h <;> simp [h]
    · rcases List.mem_cons.mp inside with rfl | later <;> simp [*]
    · rcases List.mem_cons.mp inside with rfl | later
      · simp
      · exact Or.inr later

theorem insertVersion_ascending (ascending : Ascending chain) : Ascending (insertVersion chain version) := by
  induction chain with
  | nil => simp [insertVersion,Ascending]
  | cons head rest ih =>
    obtain ⟨above,tail⟩ := List.pairwise_cons.mp ascending
    simp only [insertVersion]
    split_ifs with before same
    · refine List.pairwise_cons.mpr ⟨?_,ih tail⟩
      intro v inside
      rcases mem_insertVersion rest version v inside with rfl | old
      · exact before
      · exact above v old
    · exact List.pairwise_cons.mpr ⟨fun v inside => same ▸ above v inside,tail⟩
    · refine List.pairwise_cons.mpr ⟨?_,ascending⟩
      intro v inside
      rcases List.mem_cons.mp inside with rfl | old
      · omega
      · have := above v old
        omega

theorem insertVersion_newer (newer : ∀ v ∈ chain, v.commitTs < version.commitTs) :
    insertVersion chain version = chain ++ [version] := by
  induction chain with
  | nil => rfl
  | cons head rest ih =>
    simp only [insertVersion,newer head (by simp),if_true,List.cons_append]
    rw [ih (fun v inside => newer v (by simp [inside]))]

theorem insertVersion_same_last (last version : Version α)
    (older : ∀ v ∈ chain, v.commitTs < version.commitTs) (same : last.commitTs = version.commitTs) :
    insertVersion (chain ++ [last]) version = chain ++ [version] := by
  induction chain with
  | nil => simp [insertVersion,same]
  | cons head rest ih =>
    simp only [List.cons_append,insertVersion,older head (by simp),if_true]
    rw [ih (fun v inside => older v (by simp [inside]))]

theorem foldl_insertVersion_ascending (done chain : Chain α) (ascending : Ascending (done ++ chain)) :
    chain.foldl insertVersion done = done ++ chain := by
  induction chain generalizing done with
  | nil => simp
  | cons v rest ih =>
    have newer : ∀ w ∈ done, w.commitTs < v.commitTs := by
      intro w inside
      exact (List.pairwise_append.mp ascending).2.2 w inside v (by simp)
    rw [List.foldl_cons,insertVersion_newer done v newer,ih _ (by simpa using ascending)]
    simp

theorem visibleAt_append_single (v : Version α) (t : Nat) :
    visibleAt (chain ++ [v]) t = if v.commitTs ≤ t then some v else visibleAt chain t := by
  simp only [visibleAt,List.reverse_append,List.reverse_cons,List.reverse_nil,List.nil_append,
    List.cons_append,List.find?_cons]
  by_cases old : v.commitTs ≤ t <;> simp [old]

theorem visibleAt_eq_latest (bounded : ∀ v ∈ chain, v.commitTs ≤ t) : visibleAt chain t = latest chain := by
  rcases List.eq_nil_or_concat chain with rfl | ⟨front,last,rfl⟩
  · rfl
  · rw [List.concat_eq_append] at bounded ⊢
    rw [visibleAt_append_single,if_pos (bounded last (by simp))]
    simp [latest]

theorem visibleAt_append : visibleAt (older ++ newer) t = (visibleAt newer t).or (visibleAt older t) := by
  simp only [visibleAt,List.reverse_append,List.find?_append]

theorem value_latest_append (ended : ∀ v ∈ latest older, v.value = none) :
    (latest (older ++ newer)).bind (·.value) = (latest newer).bind (·.value) := by
  simp only [latest,List.getLast?_append] at ended ⊢
  cases newer.getLast? with
  | some v => rfl
  | none => simpa [Option.bind_eq_none_iff] using ended

theorem value_visibleAt_append (bounded : ∀ v ∈ older, v.commitTs ≤ t) (ended : ∀ v ∈ latest older, v.value = none) :
    (visibleAt (older ++ newer) t).bind (·.value) = (visibleAt newer t).bind (·.value) := by
  rw [visibleAt_append,visibleAt_eq_latest older t bounded]
  cases visibleAt newer t with
  | some v => rfl
  | none => simpa [Option.bind_eq_none_iff] using ended

theorem mem_of_visibleAt (v : Version α) (visible : visibleAt chain t = some v) : v ∈ chain := by
  simpa using List.mem_of_find?_eq_some visible

theorem rposition_spec {β : Type} (p : β → Bool) (items : List β) (i : Nat)
    (found : rposition p items = some i) : ∃ b, items[i]? = some b ∧ p b = true := by
  induction items generalizing i with
  | nil => simp [rposition] at found
  | cons b rest ih =>
    simp only [rposition] at found
    cases later : rposition p rest with
    | some j =>
      simp only [later,Option.some.injEq] at found
      subst i
      simpa using ih j later
    | none =>
      simp only [later] at found
      split_ifs at found with holds
      simp only [Option.some.injEq] at found
      subst i
      exact ⟨b,by simp,holds⟩

theorem removable_lt (chain : Chain α) (positive : 0 < keep)
    (nonempty : chain ≠ []) : removable cutoff keep chain < chain.length := by
  have length : 0 < chain.length := List.length_pos_iff.mpr nonempty
  unfold removable
  split <;> omega

theorem removable_le (chain : Chain α) : removable cutoff keep chain ≤ chain.length := by
  unfold removable
  split <;> omega

theorem removable_keeps (chain : Chain α) :
    min keep chain.length ≤ (chain.drop (removable cutoff keep chain)).length := by
  rw [List.length_drop]
  unfold removable
  split <;> omega

theorem visibleAt_drop (k t : Nat)
    (kept : ∃ v ∈ chain.drop k, v.commitTs ≤ t) : visibleAt (chain.drop k) t = visibleAt chain t := by
  obtain ⟨v,inside,old⟩ := kept
  conv_rhs => rw [← List.take_append_drop k chain]
  simp only [visibleAt,List.reverse_append,List.find?_append]
  cases found : (chain.drop k).reverse.find? (fun v => decide (v.commitTs ≤ t)) with
  | some w => rfl
  | none =>
    have absent := List.find?_eq_none.mp found v (by simpa using inside)
    simp [old] at absent

theorem removable_kept (chain : Chain α) (some_removed : 0 < removable cutoff keep chain) :
    ∃ v ∈ chain.drop (removable cutoff keep chain), v.commitTs ≤ cutoff := by
  unfold removable at some_removed ⊢
  cases found : rposition (fun v => decide (v.commitTs ≤ cutoff)) chain with
  | none => simp [found] at some_removed
  | some floor =>
    obtain ⟨v,at_floor,old⟩ := rposition_spec _ _ _ found
    refine ⟨v,?_,by simpa using old⟩
    rw [List.mem_iff_getElem?]
    refine ⟨floor - min floor (chain.length - keep),?_⟩
    have place : min floor (chain.length - keep) + (floor - min floor (chain.length - keep)) = floor := by omega
    rw [List.getElem?_drop,place,at_floor]

theorem visibleAt_drop_removable (chain : Chain α) (later : cutoff ≤ t) :
    visibleAt (chain.drop (removable cutoff keep chain)) t = visibleAt chain t := by
  rcases Nat.eq_zero_or_pos (removable cutoff keep chain) with none | some
  · rw [none,List.drop_zero]
  · obtain ⟨v,inside,old⟩ := removable_kept cutoff keep chain some
    exact visibleAt_drop chain _ t ⟨v,inside,Nat.le_trans old later⟩

theorem visibleAt_dead (chain : Chain α) (dead : isDead cutoff chain = true)
    (later : cutoff ≤ t) : (visibleAt chain t).bind (·.value) = none := by
  rcases List.eq_nil_or_concat chain with rfl | ⟨front,last,rfl⟩
  · rfl
  rw [List.concat_eq_append] at dead ⊢
  simp only [isDead,List.getLast?_append,List.getLast?_singleton,Option.some_or,
    Bool.and_eq_true,Option.isNone_iff_eq_none,decide_eq_true_eq] at dead
  rw [visibleAt_append_single,if_pos (Nat.le_trans dead.2 later)]
  simpa using dead.1

theorem visibleAt_prune (chain : Chain α) (later : cutoff ≤ t) :
    (visibleAt ((prune cutoff keep chain).getD []) t).bind (·.value) = (visibleAt chain t).bind (·.value) := by
  unfold prune
  split
  · rename_i dead
    rw [visibleAt_dead cutoff t chain dead later]
    rfl
  · rw [Option.getD_some,visibleAt_drop_removable cutoff keep t chain later]

theorem latest_drop_removable (chain : Chain α) (positive : 0 < keep) :
    latest (chain.drop (removable cutoff keep chain)) = latest chain := by
  rcases eq_or_ne chain [] with rfl | nonempty
  · simp [latest]
  · have short := removable_lt cutoff keep chain positive nonempty
    simp only [latest]
    rw [List.getLast?_drop,if_neg (by omega)]

theorem latest_prune (chain : Chain α) (positive : 0 < keep) :
    (latest ((prune cutoff keep chain).getD [])).bind (·.value) = (latest chain).bind (·.value) := by
  unfold prune
  split
  · rename_i dead
    simp only [isDead] at dead
    cases found : chain.getLast? with
    | none => simp [found] at dead
    | some last =>
      simp only [found,Bool.and_eq_true,Option.isNone_iff_eq_none] at dead
      simp [latest,found,dead.1]
  · rw [Option.getD_some,latest_drop_removable cutoff keep chain positive]

theorem prune_kept (chain : Chain α) (last : Version α) (isLast : latest chain = some last)
    (stays : cutoff < last.commitTs ∨ last.value.isSome) :
    prune cutoff keep chain = some (chain.drop (removable cutoff keep chain)) := by
  have alive : isDead cutoff chain = false := by
    simp only [latest] at isLast
    simp only [isDead,isLast,Bool.and_eq_false_iff,decide_eq_false_iff_not]
    rcases stays with newer | some
    · exact Or.inr (Nat.not_le.mpr newer)
    · exact Or.inl (by simpa using some)
  simp [prune,alive]

theorem Ascending.drop {chain : Chain α} (ascending : Ascending chain) (k : Nat) :
    Ascending (chain.drop k) := List.Pairwise.sublist (List.drop_sublist k chain) ascending

end AuraDb.Library.VersionChain
