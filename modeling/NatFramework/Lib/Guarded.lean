import Mathlib.Data.List.Basic

/-!
# Guarded assignments

A row of `if` statements that assign to one variable, without an `else`: each whose
guard is met overrides those in front of it. Computing a value can fail, and then
the whole row fails, also where a later assignment would have overridden it.

* `run_ok_iff`: the row runs through exactly when every assignment met does.
* `run_last`: what holds of the variable and of each value assigned holds at the end.
* `run_of_met`, `run_met`: where one is met, what the variable was does not matter.
-/
namespace NatFramework.Lib

/-- `if (guard) x = value;` -/
structure Guarded (ε α : Type) where
  guard : Bool
  value : Except ε α

namespace Guarded

variable {ε α : Type}

def run : List (Guarded ε α) → α → Except ε α
  | [], a => .ok a
  | c :: cs, a => if c.guard then c.value >>= run cs else run cs a

variable {cs : List (Guarded ε α)} {a b : α}

theorem run_append (cs ds : List (Guarded ε α)) (a : α) :
    run (cs ++ ds) a = run cs a >>= run ds := by
  induction cs generalizing a with
  | nil => rfl
  | cons c cs ih =>
    rw [List.cons_append, run, run]
    split
    · cases c.value with
      | ok b => exact ih b
      | error e => rfl
    · exact ih a

theorem run_ok_iff (cs : List (Guarded ε α)) (a : α) :
    (∃ b, run cs a = .ok b) ↔ ∀ c ∈ cs, c.guard → ∃ b, c.value = .ok b := by
  induction cs generalizing a with
  | nil => simp [run]
  | cons c cs ih =>
    rw [run, List.forall_mem_cons]
    split
    · rename_i hmet
      cases hv : c.value with
      | ok b =>
        have hok : (Except.ok b >>= run cs : Except ε α) = run cs b := rfl
        rw [hok, ih]
        simp [hmet]
      | error e =>
        have herr : (Except.error e >>= run cs : Except ε α) = .error e := rfl
        rw [herr]
        simp [hmet]
    · rename_i hmet
      rw [ih]
      simp [hmet]

/-- What holds of each value that is assigned, and at first, holds at the end. -/
theorem run_last {P : α → Prop} (hcs : ∀ c ∈ cs, c.guard → ∀ b, c.value = .ok b → P b)
    (ha : P a) (h : run cs a = .ok b) : P b := by
  induction cs generalizing a with
  | nil =>
    cases h
    exact ha
  | cons c cs ih =>
    obtain ⟨hc, hcs⟩ := List.forall_mem_cons.mp hcs
    rw [run] at h
    split at h
    · rename_i hmet
      cases hv : c.value with
      | ok x =>
        rw [hv] at h
        exact ih hcs (hc hmet x hv) h
      | error e =>
        rw [hv] at h
        cases h
    · exact ih hcs ha h

theorem run_of_met (h : ∃ c ∈ cs, c.guard) (a b : α) : run cs a = run cs b := by
  induction cs generalizing a b with
  | nil => simp at h
  | cons c cs ih =>
    rw [run, run]
    split
    · rfl
    · rename_i hmet
      obtain ⟨d, hd, hguard⟩ := h
      rcases List.mem_cons.mp hd with rfl | hd
      · exact absurd hguard hmet
      · exact ih ⟨d, hd, hguard⟩ a b

/-- Where one is met, the value is one of those assigned. -/
theorem run_met {P : α → Prop} (hcs : ∀ c ∈ cs, c.guard → ∀ b, c.value = .ok b → P b)
    (hmet : ∃ c ∈ cs, c.guard) (h : run cs a = .ok b) : P b := by
  induction cs generalizing a with
  | nil => simp at hmet
  | cons c cs ih =>
    obtain ⟨hc, hcs'⟩ := List.forall_mem_cons.mp hcs
    rw [run] at h
    split at h
    · rename_i hguard
      cases hv : c.value with
      | ok x =>
        rw [hv] at h
        exact run_last hcs' (hc hguard x hv) h
      | error e =>
        rw [hv] at h
        cases h
    · rename_i hguard
      obtain ⟨d, hd, hd'⟩ := hmet
      rcases List.mem_cons.mp hd with rfl | hd
      · exact absurd hd' hguard
      · exact ih hcs' ⟨d, hd, hd'⟩ h

end Guarded

end NatFramework.Lib
