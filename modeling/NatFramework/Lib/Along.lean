import Mathlib.Data.List.Basic

/-!
# Programs that are looked at between their steps

A program is a list of steps. Who looks on, or whom the program dies under, may
meet any state between two steps.

* `Along exec I R Q es s`: from `s` the steps `es` lead through states with `I`, each
  step from a state to one in `R` to it, and end in a state with `Q`.
* `Along.rest`: what is left of a program after some of its steps.
* `along_append`: one such program behind the other.
-/
namespace NatFramework.Lib

variable {σ ε : Type} (exec : σ → ε → σ) (I : σ → Prop) (R : σ → σ → Prop) (Q : σ → Prop)

def Along : List ε → σ → Prop
  | [], s => I s ∧ Q s
  | e :: es, s => I s ∧ R s (exec s e) ∧ Along es (exec s e)

variable {exec I R Q} {Q' : σ → Prop} {es fs : List ε} {s : σ}

theorem Along.here (h : Along exec I R Q es s) : I s := by
  cases es with
  | nil => exact h.1
  | cons e es => exact h.1

theorem Along.rest (h : Along exec I R Q (es ++ fs) s) : Along exec I R Q fs (es.foldl exec s) := by
  induction es generalizing s with
  | nil => exact h
  | cons e es ih => exact ih h.2.2

theorem Along.last (h : Along exec I R Q es s) : Q (es.foldl exec s) := by
  have hnil : Along exec I R Q [] (es.foldl exec s) := Along.rest (by rwa [List.append_nil])
  exact hnil.2

theorem Along.mono (h : Along exec I R Q es s) (hQ : ∀ s, I s → Q s → Q' s) :
    Along exec I R Q' es s := by
  induction es generalizing s with
  | nil => exact ⟨h.1, hQ s h.1 h.2⟩
  | cons e es ih => exact ⟨h.1, h.2.1, ih h.2.2⟩

/-- One program behind the other. -/
theorem along_append (h : Along exec I R (fun s => Along exec I R Q fs s) es s) :
    Along exec I R Q (es ++ fs) s := by
  induction es generalizing s with
  | nil => exact h.2
  | cons e es ih => exact ⟨h.1, h.2.1, ih h.2.2⟩

/-- The end is related to the start, where the relation composes. -/
theorem Along.rel (hrefl : ∀ s, R s s) (htrans : ∀ {a b c}, R a b → R b c → R a c)
    (h : Along exec I R Q es s) : R s (es.foldl exec s) := by
  induction es generalizing s with
  | nil => exact hrefl s
  | cons e es ih => exact htrans h.2.1 (ih h.2.2)

end NatFramework.Lib
