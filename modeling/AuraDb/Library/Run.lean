import Mathlib.Data.List.Basic

/-! Runs of a machine that takes one action at a time and shows what each action
gave. A run may be restricted to actions that are admitted in the state where they
are taken. -/
namespace AuraDb.Library
variable {σ Act Obs : Type}

/-- From a state, through admitted actions, with everything shown so far. -/
inductive Run (step : σ → Act → Option (σ × List Obs)) (admitted : σ → Act → Prop) :
    σ → List Obs → σ → Prop where
  | start (s : σ) : Run step admitted s [] s
  | next {s t u : σ} {shown now : List Obs} (before : Run step admitted s shown t) (a : Act)
      (allowed : admitted t a) (taken : step t a = some (u,now)) : Run step admitted s (shown ++ now) u

def steps (step : σ → Act → Option (σ × List Obs)) : σ → List Act → Option (σ × List Obs)
  | s, [] => some (s,[])
  | s, a::rest => match step s a with
    | none => none
    | some (t,now) => (steps step t rest).map (fun p => (p.1,now ++ p.2))

def Along (step : σ → Act → Option (σ × List Obs)) (admitted : σ → Act → Prop) : σ → List Act → Prop
  | _, [] => True
  | s, a::rest => admitted s a ∧ ∀ t now, step s a = some (t,now) → Along step admitted t rest

/-- Without the actions that leave alone what is looked at, the rest of a run shows the same of it. -/
theorem steps_filtered {step : σ → Act → Option (σ × List Obs)} {admitted : σ → Act → Prop} {related : σ → σ → Prop}
    {kept : Act → Bool} {watched : Obs → Bool} (acts : List Act)
    (followed : ∀ s t a s' now, a ∈ acts → related s t → admitted s a → step s a = some (s',now) →
      if kept a = true then ∃ t' now', step t a = some (t',now') ∧ related s' t' ∧
        now'.filter watched = now.filter watched
      else related s' t ∧ now.filter watched = [])
    {s s' t : σ} {shown : List Obs} (initially : related s t) (along : Along step admitted s acts)
    (taken : steps step s acts = some (s',shown)) : ∃ t' shown', steps step t (acts.filter kept) = some (t',shown') ∧
      related s' t' ∧ shown'.filter watched = shown.filter watched := by
  induction acts generalizing s t shown with
  | nil =>
    cases taken
    exact ⟨t,[],rfl,initially,rfl⟩
  | cons a rest ih =>
    simp only [steps] at taken
    cases first : step s a with
    | none => simp [first] at taken
    | some p =>
      obtain ⟨v,now⟩ := p
      obtain ⟨⟨u,later⟩,others,same⟩ := Option.map_eq_some_iff.mp (by simpa only [first] using taken)
      cases same
      have ih {w : σ} (holds : related v w) := ih (fun s t b s' now inside => followed s t b s' now (by simp [inside]))
        holds (along.2 v now first) others
      have follows := followed s t a v now List.mem_cons_self initially along.1 first
      rw [List.filter_append]
      split at follows
      · rename_i stays
        obtain ⟨w,now',moved,holds,seen⟩ := follows
        obtain ⟨t',later',ran,last,rest_seen⟩ := ih holds
        refine ⟨t',now' ++ later',?_,last,by rw [List.filter_append,seen,rest_seen]⟩
        simp only [List.filter_cons_of_pos stays,steps,moved,ran,Option.map_some]
      · rename_i leaves
        rw [List.filter_cons_of_neg leaves,follows.2,List.nil_append]
        exact ih follows.1

instance decidableForallHeld {α : Type} {p : α → Prop} [DecidablePred p] (held : Option α) :
    Decidable (∀ a, held = some a → p a) := inferInstanceAs (Decidable (∀ a ∈ held, p a))

instance decidableExistsHeld {α : Type} {p : α → Prop} [DecidablePred p] (held : Option α) :
    Decidable (∃ a, held = some a ∧ p a) := inferInstanceAs (Decidable (∃ a ∈ held, p a))

instance decidableExistsOk {ε α : Type} {p : α → Prop} [DecidablePred p] :
    (r : Except ε α) → Decidable (∃ a, r = .ok a ∧ p a)
  | .error _ => .isFalse (by simp)
  | .ok a => decidable_of_iff (p a) (by simp)

namespace Run
variable {step : σ → Act → Option (σ × List Obs)} {admitted : σ → Act → Prop}
  {s t : σ} {shown : List Obs} {test : σ → Act → Bool}

theorem invariant (run : Run step admitted s shown t) (P : List Obs → σ → Prop) (initially : P [] s)
    (kept : ∀ shown t a u now, P shown t → admitted t a → step t a = some (u,now) →
      P (shown ++ now) u) : P shown t := by
  induction run with
  | start => exact initially
  | next before a allowed taken ih => exact kept _ _ a _ _ ih allowed taken

theorem mono {admitted' : σ → Act → Prop} (weaker : ∀ t a, admitted t a → admitted' t a)
    (run : Run step admitted s shown t) : Run step admitted' s shown t := by
  induction run with
  | start => exact .start _
  | next before a allowed taken ih => exact .next ih a (weaker _ a allowed) taken

theorem trans {u : σ} {later : List Obs} (first : Run step admitted s shown t)
    (second : Run step admitted t later u) : Run step admitted s (shown ++ later) u := by
  induction second with
  | start => simpa using first
  | next before a allowed taken ih => exact List.append_assoc .. ▸ .next ih a allowed taken

section
variable (acts : List Act)
include acts

theorem of_along (along : Along step admitted s acts)
    (taken : steps step s acts = some (t,shown)) : Run step admitted s shown t := by
  induction acts generalizing s shown with
  | nil =>
    cases taken
    exact .start _
  | cons a rest ih =>
    simp only [steps] at taken
    cases first : step s a with
    | none => simp [first] at taken
    | some p =>
      obtain ⟨v,now⟩ := p
      obtain ⟨⟨u,later⟩,others,same⟩ := Option.map_eq_some_iff.mp (by simpa only [first] using taken)
      cases same
      have one : Run step admitted s ([] ++ now) v := .next (.start s) a along.1 first
      exact .trans one (ih (along.2 v now first) others)

theorem along_of_all (allowed : ∀ a ∈ acts, ∀ t, admitted t a) (s : σ) : Along step admitted s acts := by
  induction acts generalizing s with
  | nil => trivial
  | cons a rest ih =>
    exact ⟨allowed a (by simp) s,fun t _ _ => ih (fun b inside => allowed b (by simp [inside])) t⟩

theorem of_steps (allowed : ∀ a ∈ acts, ∀ t, admitted t a) (s t : σ) (shown : List Obs)
    (taken : steps step s acts = some (t,shown)) : Run step admitted s shown t :=
  of_along acts (along_of_all acts allowed s) taken

theorem exists_of_steps (s : σ) (P : σ → List Obs → Prop)
    (found : ∃ p ∈ steps step s acts, P p.1 p.2) (allowed : ∀ a ∈ acts, ∀ t, admitted t a) :
    ∃ t shown, Run step admitted s shown t ∧ P t shown := by
  obtain ⟨⟨t,shown⟩,taken,holds⟩ := found
  exact ⟨t,shown,of_steps acts allowed s t shown taken,holds⟩

end

theorem exists_free (step : σ → Act → Option (σ × List Obs)) (acts : List Act) (s : σ) (P : σ → List Obs → Prop)
    (found : ∃ p ∈ steps step s acts, P p.1 p.2) : ∃ t shown, Run step (fun _ _ => True) s shown t ∧ P t shown :=
  exists_of_steps acts s P found (fun _ _ _ => trivial)

theorem exists_shown {P : σ → List Obs → Prop} (acts : List Act) (found : ∃ p ∈ steps step s acts, P p.1 p.2) :
    ∃ shown t, Run step (fun _ _ => True) s shown t ∧ P t shown := exists_comm.mp (exists_free step acts s P found)

def guarded (step : σ → Act → Option (σ × List Obs)) (test : σ → Act → Bool) (s : σ) (a : Act) :
    Option (σ × List Obs) := if test s a then step s a else none

theorem along_of_guarded (sound : ∀ s a, test s a = true → admitted s a) (acts : List Act) {p : σ × List Obs}
    (taken : steps (guarded step test) s acts = some p) :
    Along step admitted s acts ∧ steps step s acts = some p := by
  induction acts generalizing s p with
  | nil => exact ⟨trivial,taken⟩
  | cons a rest ih =>
    simp only [steps] at taken
    cases passed : test s a with
    | false => simp [guarded,passed] at taken
    | true =>
      cases first : step s a with
      | none => simp [guarded,passed,first] at taken
      | some q =>
        simp only [guarded,passed,if_true,first] at taken
        obtain ⟨r,others,same⟩ := Option.map_eq_some_iff.mp taken
        obtain ⟨along,ran⟩ := ih others
        refine ⟨⟨sound s a passed,fun t now stepped => ?_⟩,?_⟩
        · cases first.symm.trans stepped
          exact along
        · simp only [steps,first,ran,Option.map_some,same]

theorem of_guarded {among : σ → Act → Prop} (sound : ∀ s a, among s a → test s a = true → admitted s a)
    (run : Run (guarded step test) among s shown t) : Run step admitted s shown t := by
  induction run with
  | start => exact .start _
  | next before a inside taken ih =>
    unfold guarded at taken
    split at taken
    · rename_i passed
      exact .next ih a (sound _ a inside passed) taken
    · cases taken

theorem exists_of_guarded (acts : List Act) (s : σ) (test : σ → Act → Bool) (P : σ → List Obs → Prop)
    (found : ∃ p ∈ steps (guarded step test) s acts, P p.1 p.2)
    (sound : ∀ s a, a ∈ acts → test s a = true → admitted s a) : ∃ t shown, Run step admitted s shown t ∧ P t shown := by
  obtain ⟨⟨t,shown⟩,taken,holds⟩ := found
  exact ⟨t,shown,of_guarded sound (of_steps acts (fun _ inside _ => inside) s t shown taken),holds⟩

theorem exists_of_admitted [∀ s a, Decidable (admitted s a)] (acts : List Act) (s : σ) (P : σ → List Obs → Prop)
    (found : ∃ p ∈ steps (guarded step (fun s a => decide (admitted s a))) s acts, P p.1 p.2) :
    ∃ t shown, Run step admitted s shown t ∧ P t shown :=
  exists_of_guarded acts s _ P found (fun _ _ _ => of_decide_eq_true)

end Run

end AuraDb.Library
