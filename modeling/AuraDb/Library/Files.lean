import AuraDb.Library.Framing
import Mathlib.Logic.Function.Basic

/-! Files under a crash. A program is a list of steps on named files; a crash stops it before any step or inside
a write, after any number of its bytes. -/
namespace AuraDb.Library.Files
open Framing

abbrev Disk (Name : Type) := Name → Option Bytes

inductive Step (Name : Type) where
  | create (file : Name)
  | write (file : Name) (bytes : Bytes)
  | rename (source target : Name)

variable {Name : Type} [DecidableEq Name]

def extend (disk : Disk Name) (file : Name) (bytes : Bytes) : Disk Name :=
  Function.update disk file (some ((disk file).getD [] ++ bytes))

def Step.run (disk : Disk Name) : Step Name → Disk Name
  | .create file => Function.update disk file (some [])
  | .write file bytes => extend disk file bytes
  | .rename source target => Function.update (Function.update disk target (disk source)) source none

def run (steps : List (Step Name)) (disk : Disk Name) : Disk Name := steps.foldl Step.run disk

inductive Crash : List (Step Name) → Disk Name → Disk Name → Prop where
  | stop (steps : List (Step Name)) (disk : Disk Name) : Crash steps disk disk
  | torn (file : Name) (bytes : Bytes) (count : Nat) (rest : List (Step Name)) (disk : Disk Name) :
      Crash (.write file bytes::rest) disk (extend disk file (bytes.take count))
  | next {step : Step Name} {rest : List (Step Name)} {disk disk' : Disk Name}
      (later : Crash rest (step.run disk) disk') : Crash (step::rest) disk disk'

def replace (beside target : Name) (bytes : Bytes) : List (Step Name) :=
  [.create beside,.write beside bytes,.rename beside target]

variable {first second : List (Step Name)} {disk disk' : Disk Name} {beside target : Name} {bytes : Bytes}

theorem run_append : run (first ++ second) disk = run second (run first disk) := List.foldl_append ..

theorem Crash.append (crash : Crash (first ++ second) disk disk') :
    Crash first disk disk' ∨ Crash second (run first disk) disk' := by
  induction first generalizing disk with
  | nil => exact .inr crash
  | cons step rest ih =>
    cases crash with
    | stop => exact .inl (.stop _ _)
    | torn file bytes count => exact .inl (.torn file bytes count rest disk)
    | next later => exact (ih later).imp_left .next

theorem Crash.done (steps : List (Step Name)) (disk : Disk Name) : Crash steps disk (run steps disk) := by
  induction steps generalizing disk with
  | nil => exact .stop [] disk
  | cons step rest ih => exact .next (ih (step.run disk))

theorem run_replace (different : beside ≠ target) : run (replace beside target bytes) disk =
    Function.update (Function.update disk target (some bytes)) beside none := by
  ext1 file
  rcases eq_or_ne file beside with rfl | other
  · simp [run,replace,Step.run]
  · rcases eq_or_ne file target with rfl | third
    · simp [run,replace,Step.run,extend,other]
    · simp [run,replace,Step.run,extend,other,third]

theorem Crash.replace (crash : Crash (replace beside target bytes) disk disk') :
    (∀ file, file ≠ beside → disk' file = disk file) ∨ disk' = run (Files.replace beside target bytes) disk := by
  cases crash with
  | stop => exact .inl (fun _ _ => rfl)
  | next later =>
    cases later with
    | stop => exact .inl (fun file other => by simp [Step.run,other])
    | torn => exact .inl (fun file other => by simp [Step.run,extend,other])
    | next later =>
      cases later with
      | stop => exact .inl (fun file other => by simp [Step.run,extend,other])
      | next later =>
        cases later with
        | stop => exact .inr rfl

theorem Crash.replace_dropLast (crash : Crash (Files.replace beside target bytes).dropLast disk disk') :
    ∀ file, file ≠ beside → disk' file = disk file := by
  intro file other
  cases crash with
  | stop => rfl
  | next later =>
    cases later with
    | stop => simp [Step.run,other]
    | torn => simp [Step.run,extend,other]
    | next later =>
      cases later with
      | stop => simp [Step.run,extend,other]

end AuraDb.Library.Files
