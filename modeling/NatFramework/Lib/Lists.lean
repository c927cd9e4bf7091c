import Mathlib.Data.List.Basic

/-!
# Entries of a list

What stands at a place of a list of which one entry was rewritten, or behind
which one was put.
-/
namespace NatFramework.Lib

variable {α : Type} {l : List α} {j k : Nat} {x y : α}

theorem getElem?_set_cases (h : (l.set k y)[j]? = some x) :
    (j = k ∧ x = y) ∨ (j ≠ k ∧ l[j]? = some x) := by
  by_cases hj : j = k
  · subst hj
    have hlt := (List.getElem?_eq_some_iff.mp h).1
    rw [List.length_set] at hlt
    rw [List.getElem?_set_self hlt, Option.some.injEq] at h
    exact Or.inl ⟨rfl, h.symm⟩
  · rw [List.getElem?_set_ne (Ne.symm hj)] at h
    exact Or.inr ⟨hj, h⟩

theorem getElem?_concat_cases (h : (l ++ [x])[k]? = some y) :
    (k < l.length ∧ l[k]? = some y) ∨ (k = l.length ∧ y = x) := by
  rcases Nat.lt_trichotomy k l.length with hk | rfl | hk
  · rw [List.getElem?_append_left hk] at h
    exact Or.inl ⟨hk, h⟩
  · rw [List.getElem?_concat_length, Option.some.injEq] at h
    exact Or.inr ⟨rfl, h.symm⟩
  · have := (List.getElem?_eq_some_iff.mp h).1
    simp only [List.length_append, List.length_cons, List.length_nil] at this
    omega

theorem getD_concat (l : List α) (x d : α) : (l ++ [x]).getD l.length d = x := by
  rw [List.getD_eq_getElem?_getD, List.getElem?_concat_length, Option.getD_some]

end NatFramework.Lib
