import AuraDb.Library.TreeMap
import Mathlib.Algebra.BigOperators.Group.Finset.Basic
import Mathlib.Data.List.Count
import Mathlib.Logic.Function.Basic

/-! Indexes kept beside a collection of items: unique keys, posting lists and an inverted index over words. Each
is compared with what it is an index of: a function from an item to its key, or to its words. -/
namespace AuraDb.Library.Inverted
open Std TreeMap Function
variable {κ ι : Type} [DecidableEq κ] [DecidableEq ι] {ck : κ → κ → Ordering} {ci : ι → ι → Ordering}
  [TransCmp ck] [LawfulEqCmp ck] [TransCmp ci] [LawfulEqCmp ci] {key : ι → Option κ}

section unique

def UniqueAgrees (m : ExtTreeMap κ ι ck) (key : ι → Option κ) : Prop :=
  ∀ k i, m[k]? = some i ↔ key i = some k

def removeUnique (m : ExtTreeMap κ ι ck) (k : κ) (i : ι) : ExtTreeMap κ ι ck :=
  if m[k]? = some i then m.erase k else m

variable {m m' : ExtTreeMap κ ι ck}

omit [DecidableEq κ] [DecidableEq ι] [LawfulEqCmp ck] in
theorem uniqueAgrees_empty : UniqueAgrees (∅ : ExtTreeMap κ ι ck) (fun _ => none) := by
  intro k i
  simp

section
variable (agrees : UniqueAgrees m key)
include agrees

theorem UniqueAgrees.insert (k : κ) (i : ι) (absent : key i = none) (free : ∀ j, key j ≠ some k) :
    UniqueAgrees (m.insert k i) (update key i (some k)) := by
  intro k' j
  rw [getElem?_insert_eq,update_apply]
  by_cases own : j = i
  · subst j
    by_cases same : k = k'
    · simp [same]
    · simp [same,agrees k' i,absent]
  · by_cases same : k = k'
    · subst k'
      simp [own,Ne.symm own,free j]
    · simp [own,same,agrees k' j]

theorem UniqueAgrees.removeUnique (k : κ) (i : ι) (own : ∀ k', key i = some k' → k' = k) :
    UniqueAgrees (removeUnique m k i) (update key i none) := by
  intro k' j
  unfold Inverted.removeUnique
  by_cases held : m[k]? = some i
  · rw [if_pos held,getElem?_erase_eq]
    by_cases same : k = k'
    · subst k'
      by_cases self : j = i
      · simp [self]
      · have other : key j ≠ some k := by
          intro found
          have := (agrees k j).mpr found
          rw [held] at this
          exact self (Option.some.inj this).symm
        simp [self,other]
    · by_cases self : j = i
      · subst j
        simp only [same,if_false]
        constructor
        · intro found
          have := own k' ((agrees k' i).mp found)
          exact absurd this.symm same
        · simp
      · simp [same,self,agrees k' j]
  · rw [if_neg held]
    by_cases self : j = i
    · subst j
      constructor
      · intro found
        have has := (agrees k' i).mp found
        rw [own k' has] at found
        exact absurd found held
      · simp
    · simp [self,agrees k' j]

omit [DecidableEq κ] [DecidableEq ι] in
theorem UniqueAgrees.unique (agrees' : UniqueAgrees m' key) : m = m' := by
  apply ExtTreeMap.ext_getElem?
  intro k
  apply Option.ext
  intro i
  rw [agrees k i,agrees' k i]

end

def UniqueCovers (m : ExtTreeMap κ ι ck) (key : ι → Option κ) : Prop := ∀ k i, key i = some k → m[k]? = some i

omit [DecidableEq κ] [DecidableEq ι] [LawfulEqCmp ck] in
theorem UniqueAgrees.covers (agrees : UniqueAgrees m key) : UniqueCovers m key := fun k i has => (agrees k i).mpr has

section
variable (covers : UniqueCovers m key)
include covers

omit [DecidableEq κ] [DecidableEq ι] [LawfulEqCmp ck] in
theorem UniqueCovers.injective {i j : ι} {k : κ} (left : key i = some k) (right : key j = some k) : i = j := by
  have found := covers k i left
  rw [covers k j right] at found
  exact (Option.some.inj found).symm

omit [DecidableEq κ] [LawfulEqCmp ck] in
theorem UniqueCovers.forget (i : ι) : UniqueCovers m (update key i none) := by
  intro k j has
  rw [update_apply] at has
  split_ifs at has
  exact covers k j has

theorem UniqueCovers.removeUnique (k : κ) (i : ι) : UniqueCovers (removeUnique m k i) (update key i none) := by
  intro k' j has
  rw [update_apply] at has
  split_ifs at has with own
  have found := covers k' j has
  unfold Inverted.removeUnique
  split
  · rename_i held
    rw [getElem?_erase_eq]
    split
    · rename_i same
      rw [same,found] at held
      exact absurd (Option.some.inj held) own
    · exact found
  · exact found

theorem UniqueCovers.insert (k : κ) (i : ι)
    (free : ∀ j, j ≠ i → key j ≠ some k) : UniqueCovers (m.insert k i) (update key i (some k)) := by
  intro k' j has
  rw [update_apply] at has
  rw [getElem?_insert_eq]
  split_ifs at has with own
  · simp [Option.some.inj has,own]
  · have other : k ≠ k' := fun same => free j own (same ▸ has)
    simp [other,covers k' j has]

end

end unique

section postings

def posted (m : ExtTreeMap κ (List ι) ck) (k : κ) : List ι := m[k]?.getD []

def PostingsAgree (m : ExtTreeMap κ (List ι) ck) (key : ι → Option κ) : Prop :=
  ∀ k, (posted m k).Nodup ∧ ∀ i, i ∈ posted m k ↔ key i = some k

def push (m : ExtTreeMap κ (List ι) ck) (k : κ) (i : ι) : ExtTreeMap κ (List ι) ck :=
  m.alter k (fun ids => some (ids.getD [] ++ [i]))

def retain (m : ExtTreeMap κ (List ι) ck) (k : κ) (i : ι) : ExtTreeMap κ (List ι) ck :=
  m.alter k (fun ids => ids.map (·.filter (fun j => j ≠ i)))

variable {m m' : ExtTreeMap κ (List ι) ck}

omit [DecidableEq κ] [DecidableEq ι] [LawfulEqCmp ck] in
theorem postingsAgree_empty : PostingsAgree (∅ : ExtTreeMap κ (List ι) ck) (fun _ => none) := by
  intro k
  simp [posted]

section
variable (m) (k : κ) (k' : κ) (i : ι)
include m k k' i

omit [DecidableEq ι] in
theorem posted_push : posted (push m k i) k' = if k = k' then posted m k ++ [i] else posted m k' := by
  simp only [posted,push,getElem?_alter_eq]
  split <;> rfl

theorem posted_retain :
    posted (retain m k i) k' = if k = k' then (posted m k).filter (fun j => j ≠ i) else posted m k' := by
  simp only [posted,retain,getElem?_alter_eq]
  split
  · cases m[k]? <;> simp
  · rfl

end

section
variable (agrees : PostingsAgree m key)
include agrees

theorem PostingsAgree.push (k : κ) (i : ι) (absent : key i = none) :
    PostingsAgree (push m k i) (update key i (some k)) := by
  intro k'
  rw [posted_push]
  by_cases same : k = k'
  · subst k'
    rw [if_pos rfl]
    obtain ⟨distinct,members⟩ := agrees k
    have fresh : i ∉ posted m k := by simp [members i,absent]
    refine ⟨List.nodup_append.mpr ⟨distinct,by simp,?_⟩,?_⟩
    · rintro a inside b added rfl
      exact fresh (List.mem_singleton.mp added ▸ inside)
    · intro j
      rw [List.mem_append,List.mem_singleton,members j,update_apply]
      by_cases own : j = i <;> simp [own]
  · rw [if_neg same]
    refine ⟨(agrees k').1,?_⟩
    intro j
    rw [(agrees k').2 j,update_apply]
    by_cases own : j = i
    · simp [own,absent,same]
    · simp [own]

theorem PostingsAgree.retain (k : κ) (i : ι) (own : ∀ k', key i = some k' → k' = k) :
    PostingsAgree (retain m k i) (update key i none) := by
  intro k'
  rw [posted_retain]
  by_cases same : k = k'
  · subst k'
    rw [if_pos rfl]
    refine ⟨(agrees k).1.filter _,?_⟩
    intro j
    rw [List.mem_filter,(agrees k).2 j,update_apply]
    by_cases self : j = i <;> simp [self]
  · rw [if_neg same]
    refine ⟨(agrees k').1,?_⟩
    intro j
    rw [(agrees k').2 j,update_apply]
    by_cases self : j = i
    · subst j
      have other : key i ≠ some k' := fun found => same (own k' found).symm
      simp [other]
    · simp [self]

omit [DecidableEq κ] [DecidableEq ι] [LawfulEqCmp ck] in
theorem PostingsAgree.perm (agrees' : PostingsAgree m' key) (k : κ) : (posted m k).Perm (posted m' k) := by
  refine (List.perm_ext_iff_of_nodup (agrees k).1 (agrees' k).1).mpr ?_
  intro i
  rw [(agrees k).2 i,(agrees' k).2 i]

end

end postings

structure WordIndex (κ ι : Type) (ck : κ → κ → Ordering) (ci : ι → ι → Ordering) where
  postings : ExtTreeMap κ (ExtTreeMap ι Nat ci) ck
  lengths : ExtTreeMap ι Nat ci
  total : Nat

namespace WordIndex
variable {t t' : WordIndex κ ι ck ci} {words : ι → List κ}

instance : DecidableEq (WordIndex κ ι ck ci) := fun t t' =>
  decidable_of_iff (t.postings = t'.postings ∧ t.lengths = t'.lengths ∧ t.total = t'.total)
    (by cases t; cases t'; simp)

def empty : WordIndex κ ι ck ci := ⟨∅,∅,0⟩

def frequency (postings : ExtTreeMap κ (ExtTreeMap ι Nat ci) ck) (w : κ) (i : ι) : Option Nat :=
  postings[w]?.bind (fun items => items[i]?)

def addWord (i : ι) (postings : ExtTreeMap κ (ExtTreeMap ι Nat ci) ck) (w : κ) :
    ExtTreeMap κ (ExtTreeMap ι Nat ci) ck :=
  postings.alter w (fun items => some ((items.getD ∅).alter i (fun n => some (n.getD 0 + 1))))

def removeWord (i : ι) (postings : ExtTreeMap κ (ExtTreeMap ι Nat ci) ck) (w : κ) :
    ExtTreeMap κ (ExtTreeMap ι Nat ci) ck :=
  match postings[w]? with
  | none => postings
  | some items =>
    if (items.erase i).isEmpty then postings.erase w else postings.insert w (items.erase i)

def add (t : WordIndex κ ι ck ci) (i : ι) (ws : List κ) : WordIndex κ ι ck ci :=
  { postings := ws.foldl (addWord i) t.postings
    lengths := if ws.length = 0 then t.lengths
      else t.lengths.alter i (fun n => some (n.getD 0 + ws.length))
    total := if ws.length = 0 then t.total else t.total + ws.length }

/-- The counts are lowered by what is found, never below zero. -/
def remove (t : WordIndex κ ι ck ci) (i : ι) (ws : List κ) : WordIndex κ ι ck ci :=
  let postings := ws.foldl (removeWord i) t.postings
  match t.lengths[i]? with
  | none => { t with postings := postings }
  | some held =>
    { postings := postings
      lengths := if held ≤ ws.length then t.lengths.erase i else t.lengths.insert i (held - ws.length)
      total := t.total - min ws.length held }

structure Agrees (t : WordIndex κ ι ck ci) (words : ι → List κ) : Prop where
  frequency : ∀ w i, frequency t.postings w i = if w ∈ words i then some ((words i).count w) else none
  lengths : ∀ i, t.lengths[i]? = if words i = [] then none else some (words i).length
  total : t.total = TreeMap.total t.lengths

theorem frequency_addWord (postings : ExtTreeMap κ (ExtTreeMap ι Nat ci) ck) (w w' : κ) (i j : ι) :
    frequency (addWord i postings w) w' j =
      if w = w' ∧ i = j then some ((frequency postings w i).getD 0 + 1) else frequency postings w' j := by
  simp only [frequency,addWord,getElem?_alter_eq]
  by_cases word : w = w'
  · subst w'
    simp only [if_true,Option.bind_some,getElem?_alter_eq,true_and]
    by_cases item : i = j
    · cases postings[w]? <;> simp [item]
    · cases postings[w]? <;> simp [item]
  · simp [word]

theorem frequency_removeWord (postings : ExtTreeMap κ (ExtTreeMap ι Nat ci) ck) (w w' : κ) (i j : ι) :
    frequency (removeWord i postings w) w' j = if w = w' ∧ i = j then none else frequency postings w' j := by
  unfold removeWord
  cases found : postings[w]? with
  | none =>
    by_cases both : w = w' ∧ i = j
    · obtain ⟨rfl,rfl⟩ := both
      simp [frequency,found]
    · simp [both]
  | some items =>
    have erased : (items.erase i)[j]? = if i = j then none else items[j]? := getElem?_erase_eq items i j
    simp only
    split
    · rename_i emptied
      have gone : (items.erase i)[j]? = none := by
        rw [ExtTreeMap.isEmpty_iff] at emptied
        simp [emptied]
      simp only [frequency,getElem?_erase_eq]
      by_cases word : w = w'
      · subst w'
        by_cases item : i = j
        · simp [item]
        · simpa [item,found] using gone.symm
      · simp [word]
    · simp only [frequency,getElem?_insert_eq]
      by_cases word : w = w'
      · subst w'
        by_cases item : i = j <;> simp [item,found,erased]
      · simp [word]

section
variable (ws : List κ) (postings : ExtTreeMap κ (ExtTreeMap ι Nat ci) ck) (i : ι) (j : ι) (w : κ)
include ws postings i j w

theorem frequency_foldl_addWord : frequency (ws.foldl (addWord i) postings) w j =
      if i = j ∧ w ∈ ws then some ((frequency postings w i).getD 0 + ws.count w)
      else frequency postings w j := by
  induction ws generalizing postings with
  | nil => simp
  | cons v rest ih =>
    rw [List.foldl_cons,ih,frequency_addWord,frequency_addWord]
    by_cases item : i = j
    · subst j
      by_cases word : v = w
      · subst v
        by_cases later : w ∈ rest
        · simp [later]
          omega
        · simp [later,List.count_eq_zero_of_not_mem later]
      · simp [word,Ne.symm word]
    · simp [item]

theorem frequency_foldl_removeWord : frequency (ws.foldl (removeWord i) postings) w j =
      if i = j ∧ w ∈ ws then none else frequency postings w j := by
  induction ws generalizing postings with
  | nil => simp
  | cons v rest ih =>
    rw [List.foldl_cons,ih,frequency_removeWord]
    by_cases item : i = j
    · subst j
      by_cases word : v = w
      · simp [word]
      · simp [word,Ne.symm word]
    · simp [item]

end

omit [DecidableEq ι] [LawfulEqCmp ck] [LawfulEqCmp ci] in
theorem agrees_empty : Agrees (empty : WordIndex κ ι ck ci) (fun _ => []) := by
  constructor <;> simp [empty,WordIndex.frequency]

theorem Agrees.add (agrees : Agrees t words) (i : ι) (ws : List κ) (absent : words i = []) :
    Agrees (t.add i ws) (update words i ws) := by
  have none : t.lengths[i]? = none := by simp [agrees.lengths i,absent]
  have inserted : t.lengths.alter i (fun n => some (n.getD 0 + ws.length)) = t.lengths.insert i ws.length := by
    apply ExtTreeMap.ext_getElem?
    intro j
    rw [getElem?_alter_eq,getElem?_insert_eq,none]
    simp
  refine ⟨?_,?_,?_⟩
  · intro w j
    simp only [WordIndex.add]
    rw [frequency_foldl_addWord,agrees.frequency,agrees.frequency,update_apply]
    by_cases own : j = i
    · subst j
      simp [absent]
    · simp [own,Ne.symm own]
  · intro j
    simp only [WordIndex.add,inserted]
    by_cases nothing : ws = []
    · by_cases own : j = i
      · simp [nothing,own,none]
      · simp [nothing,own,agrees.lengths j]
    · rw [if_neg (by simpa using nothing),getElem?_insert_eq]
      by_cases own : j = i
      · simp [own,nothing]
      · simp [own,Ne.symm own,agrees.lengths j]
  · simp only [WordIndex.add,inserted]
    by_cases nothing : ws.length = 0
    · simp [nothing,agrees.total]
    · simp [nothing,agrees.total,total_insert _ _ _ none]

theorem Agrees.remove (agrees : Agrees t words) (i : ι) : Agrees (t.remove i (words i)) (update words i []) := by
  have frequencies (w : κ) (j : ι) :
      WordIndex.frequency ((words i).foldl (removeWord i) t.postings) w j =
        if w ∈ update words i [] j then some ((update words i [] j).count w) else none := by
    rw [frequency_foldl_removeWord,agrees.frequency,update_apply]
    by_cases own : j = i
    · subst j
      by_cases inside : w ∈ words i <;> simp [inside]
    · simp [own,Ne.symm own]
  have length := agrees.lengths i
  by_cases nothing : words i = []
  · rw [if_pos nothing] at length
    have unchanged : update words i [] = words := by rw [← nothing,update_eq_self]
    rw [unchanged] at frequencies ⊢
    simp only [WordIndex.remove,length]
    exact ⟨frequencies,agrees.lengths,agrees.total⟩
  · rw [if_neg nothing] at length
    simp only [WordIndex.remove,length,Nat.le_refl,if_true,Nat.min_self]
    refine ⟨frequencies,?_,?_⟩
    · intro j
      rw [getElem?_erase_eq,update_apply]
      by_cases own : j = i
      · simp [own]
      · simp [own,Ne.symm own,agrees.lengths j]
    · have erased := total_erase t.lengths i _ length
      simp only [agrees.total]
      omega

omit [DecidableEq ι] [LawfulEqCmp ck] in
theorem Agrees.unique (agrees : Agrees t words) (agrees' : Agrees t' words) :
    (∀ w i, WordIndex.frequency t.postings w i = WordIndex.frequency t'.postings w i) ∧
      t.lengths = t'.lengths ∧ t.total = t'.total := by
  have lengths : t.lengths = t'.lengths := by
    apply ExtTreeMap.ext_getElem?
    intro i
    rw [agrees.lengths,agrees'.lengths]
  refine ⟨?_,lengths,?_⟩
  · intro w i
    rw [agrees.frequency,agrees'.frequency]
  · rw [agrees.total,agrees'.total,lengths]

section Counts

def counted (n : Nat) : Option Nat := if n = 0 then none else some n

omit [DecidableEq ι] [LawfulEqCmp ck] [LawfulEqCmp ci] in
theorem Agrees.counted (agrees : Agrees t words) (w : κ) (i : ι) :
    WordIndex.frequency t.postings w i = counted ((words i).count w) := by
  rw [agrees.frequency,WordIndex.counted]
  by_cases inside : w ∈ words i <;> simp [inside,List.count_eq_zero]

def merge (held items : ExtTreeMap ι Nat ci) : ExtTreeMap ι Nat ci :=
  items.toList.foldl (fun held p => held.alter p.1 fun n => some (n.getD 0 + p.2)) held

variable {a b : Nat} {i : ι} {w : κ} {held items : ExtTreeMap ι Nat ci}

theorem getElem?_merge (first : held[i]? = counted a) (second : items[i]? = counted b) :
    (merge held items)[i]? = counted (a + b) := by
  rw [merge,getElem?_foldl_alter items (fun _ b n => some (n.getD 0 + b)),second,first]
  by_cases none : a = 0 <;> by_cases none' : b = 0 <;> simp [counted,none,none']

omit [DecidableEq κ] in
theorem getElem?_foldl_merge {l : List (κ × ExtTreeMap ι Nat ci)} {f : κ → Nat}
    (counts : ∀ p ∈ l, p.2[i]? = counted (f p.1)) (first : held[i]? = counted a) :
    (l.foldl (fun held p => merge held p.2) held)[i]? = counted (a + (l.map fun p => f p.1).sum) := by
  induction l generalizing held a with
  | nil => exact first
  | cons p rest ih =>
    rw [List.map_cons,List.sum_cons,← Nat.add_assoc]
    exact ih (fun q inside => counts q (List.mem_cons_of_mem _ inside)) (getElem?_merge first (counts p List.mem_cons_self))

/-- The postings of words that become one word, as those of that word. -/
def regroup (g : κ → List κ) (postings : ExtTreeMap κ (ExtTreeMap ι Nat ci) ck) :
    ExtTreeMap κ (ExtTreeMap ι Nat ci) ck :=
  postings.toList.foldl (fun view p => (g p.1).foldl (fun view out =>
    view.alter out fun entry => some (merge (entry.getD ∅) p.2)) view) ∅

theorem frequency_foldl_regroup (outs : List κ) {view : ExtTreeMap κ (ExtTreeMap ι Nat ci) ck}
    (first : frequency view w i = counted a) (second : items[i]? = counted b) :
    frequency (outs.foldl (fun view out => view.alter out fun entry => some (merge (entry.getD ∅) items)) view) w i =
      counted (a + b * outs.count w) := by
  induction outs generalizing view a with
  | nil => exact first
  | cons out rest ih =>
    have step : frequency (view.alter out fun entry => some (merge (entry.getD ∅) items)) w i =
        counted (a + if out = w then b else 0) := by
      rw [frequency,getElem?_alter_eq]
      split
      · rename_i same
        subst same
        refine getElem?_merge ?_ second
        rw [← first,frequency]
        cases view[out]? <;> simp
      · exact first
    rw [List.foldl_cons,ih step,List.count_cons]
    by_cases same : out = w
    · simp [same,Nat.mul_add,Nat.add_assoc,Nat.add_comm b]
    · simp [same]

theorem sum_counts {keys ws : List κ} (distinct : keys.Nodup) (covered : ∀ w ∈ ws, w ∈ keys) (h : κ → Nat) :
    (keys.map fun k => ws.count k * h k).sum = (ws.map h).sum := by
  rw [← List.sum_toFinset _ distinct,Finset.sum_list_map_count]
  refine (Finset.sum_subset ?_ ?_).symm
  · intro w inside
    exact List.mem_toFinset.mpr (covered w (List.mem_toFinset.mp inside))
  · intro w _ absent
    simp [List.count_eq_zero.mpr fun inside => absent (List.mem_toFinset.mpr inside)]

end Counts

omit [DecidableEq ι] [LawfulEqCmp ci] in
theorem Agrees.posted (agrees : Agrees t words) (i : ι) :
    (∀ p ∈ t.postings.toList, p.2[i]? = WordIndex.counted ((words i).count p.1)) ∧
      ∀ w ∈ words i, w ∈ t.postings.toList.map Prod.fst := by
  refine ⟨?_,?_⟩
  · intro p inside
    rw [← agrees.counted p.1 i,WordIndex.frequency,ExtTreeMap.mem_toList_iff_getElem?_eq_some.mp inside]
    rfl
  · intro w inside
    have held := agrees.frequency w i
    rw [if_pos inside] at held
    obtain ⟨items,posted,_⟩ := Option.bind_eq_some_iff.mp held
    exact List.mem_map.mpr ⟨_,ExtTreeMap.mem_toList_iff_getElem?_eq_some.mpr posted,rfl⟩

theorem Agrees.measured (agrees : Agrees t words) : t.postings.toList.foldl (fun lengths p =>
    p.2.toList.foldl (fun lengths q => lengths.alter q.1 (fun n => some (n.getD 0 + q.2))) lengths) ∅ = t.lengths := by
  apply ExtTreeMap.ext_getElem?
  intro i
  obtain ⟨counts,covered⟩ := agrees.posted i
  have whole := sum_counts (keys_nodup t.postings) covered fun _ => 1
  simp only [List.map_map,Function.comp_def,Nat.mul_one,List.map_const',List.sum_replicate_nat] at whole
  refine (getElem?_foldl_merge (f := (words i).count) (a := 0) counts (by simp [WordIndex.counted])).trans ?_
  rw [agrees.lengths,whole,WordIndex.counted]
  by_cases none : words i = [] <;> simp [none]

theorem Agrees.regrouped (agrees : Agrees t words) (g : κ → List κ) (w : κ) (i : ι) :
    WordIndex.frequency (regroup g t.postings) w i = WordIndex.counted (((words i).flatMap g).count w) := by
  obtain ⟨counts,covered⟩ := agrees.posted i
  have general (l : List (κ × ExtTreeMap ι Nat ci)) (view : ExtTreeMap κ (ExtTreeMap ι Nat ci) ck) (a : Nat)
      (counts : ∀ p ∈ l, p.2[i]? = WordIndex.counted ((words i).count p.1))
      (first : WordIndex.frequency view w i = WordIndex.counted a) :
      WordIndex.frequency (l.foldl (fun view p => (g p.1).foldl (fun view out =>
        view.alter out fun entry => some (merge (entry.getD ∅) p.2)) view) view) w i =
        WordIndex.counted (a + (l.map fun p => (words i).count p.1 * (g p.1).count w).sum) := by
    induction l generalizing view a with
    | nil => exact first
    | cons p rest ih =>
      rw [List.map_cons,List.sum_cons,← Nat.add_assoc]
      exact ih _ _ (fun q inside => counts q (List.mem_cons_of_mem _ inside))
        (frequency_foldl_regroup (g p.1) first (counts p List.mem_cons_self))
  have whole := sum_counts (keys_nodup t.postings) covered fun x => (g x).count w
  rw [List.map_map] at whole
  refine (general _ ∅ 0 counts (by simp [WordIndex.frequency,WordIndex.counted])).trans ?_
  rw [Nat.zero_add,List.count_flatMap]
  exact congrArg WordIndex.counted whole

section Search
omit [DecidableEq κ] [LawfulEqCmp ck]
variable {γ : Type} (f : ExtTreeMap ι Nat ci → ι → Nat → Option γ → γ) {hit : γ → Nat}
  {postings postings' : ExtTreeMap κ (ExtTreeMap ι Nat ci) ck}

/-- One word of a search: every item it is posted for is noted. -/
def gather (postings : ExtTreeMap κ (ExtTreeMap ι Nat ci) ck) (found : ExtTreeMap ι γ ci) (w : κ) : ExtTreeMap ι γ ci :=
  match postings[w]? with
  | none => found
  | some items => items.toList.foldl (fun found p => found.alter p.1 fun entry => some (f items p.1 p.2 entry)) found

theorem getElem?_gather (found : ExtTreeMap ι γ ci) (w : κ) (i : ι) : (gather f postings found w)[i]? =
    match frequency postings w i with
    | none => found[i]?
    | some n => some (f (postings[w]?.getD ∅) i n found[i]?) := by
  unfold gather frequency
  cases postings[w]? with
  | none => rfl
  | some items =>
    rw [getElem?_foldl_alter items (fun i n entry => some (f items i n entry))]
    cases h : items[i]? <;> simp [h]

theorem gather_hits (counts : ∀ items i n entry, hit (f items i n entry) = (entry.map hit).getD 0 + 1) (ws : List κ)
    (found : ExtTreeMap ι γ ci) (i : ι) : ((ws.foldl (gather f postings) found)[i]?.map hit).getD 0 =
      (found[i]?.map hit).getD 0 + ws.countP fun w => (frequency postings w i).isSome := by
  induction ws generalizing found with
  | nil => simp
  | cons w rest ih =>
    rw [List.foldl_cons,ih,List.countP_cons,getElem?_gather]
    cases frequency postings w i with
    | none => simp
    | some n =>
      simp only [Option.map_some,Option.getD_some,counts,Option.isSome_some,if_true]
      omega

theorem mem_gather_iff (counts : ∀ items i n entry, hit (f items i n entry) = (entry.map hit).getD 0 + 1) {ws : List κ}
    (some_word : ws ≠ []) (i : ι) :
    (∃ entry, (ws.foldl (gather f postings) ∅)[i]? = some entry ∧ hit entry = ws.length) ↔
      ∀ w ∈ ws, (frequency postings w i).isSome = true := by
  have hits : ((ws.foldl (gather f postings) ∅)[i]?.map hit).getD 0 =
      ws.countP fun w => (frequency postings w i).isSome := by
    rw [gather_hits f counts]
    simp
  have positive : 0 < ws.length := List.length_pos_iff.mpr some_word
  rw [← List.countP_eq_length,← hits]
  cases (ws.foldl (gather f postings) ∅)[i]? with
  | none => simp [positive.ne]
  | some entry => simp

theorem gather_congr {g : ι → Nat → Option γ → γ} (same : ∀ w i, frequency postings w i = frequency postings' w i) :
    gather (fun _ => g) postings = gather (fun _ => g) postings' := by
  funext found w
  apply ExtTreeMap.ext_getElem?
  intro i
  rw [getElem?_gather,getElem?_gather,same]

end Search

end WordIndex

end AuraDb.Library.Inverted
