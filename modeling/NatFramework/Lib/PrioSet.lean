import Mathlib.Algebra.Order.Ring.Rat

/-!
# Ordered sets with a best element

`PrioOps ν τ` is the interface of a container ordered by a key that also knows
an element of best priority (a treap, a heap with an index). `Lawful` says what
its operations do to the elements. `listOps` implements the interface by a list.
-/
namespace NatFramework.Lib

structure PrioOps (ν τ : Type) where
  empty : τ
  pushBack : ν → τ → τ
  erase : ν → τ → τ
  top : τ → Option ν
  mem : ν → τ → Prop

/-- `key` orders the elements; `prio x y` says that `x` goes before `y`. -/
structure PrioOps.Lawful {ν τ : Type} (O : PrioOps ν τ) (key : ν → Int) (prio : ν → ν → Bool) :
    Prop where
  mem_empty : ∀ x, ¬ O.mem x O.empty
  /-- An element appended behind all keys is added. -/
  mem_pushBack : ∀ n t, (∀ m, O.mem m t → key m ≤ key n) →
    ∀ x, O.mem x (O.pushBack n t) ↔ x = n ∨ O.mem x t
  /-- The elements with an equal key are removed. -/
  mem_erase : ∀ n t x, O.mem x (O.erase n t) ↔ O.mem x t ∧ key x ≠ key n
  top_none : ∀ t, O.top t = none ↔ ∀ x, ¬ O.mem x t
  /-- Where the priority is that of a score, the top has the best score. -/
  top_best : ∀ t n (score : ν → ℚ),
    (∀ x y, O.mem x t → O.mem y t → (prio x y = true ↔ score y < score x)) →
    O.top t = some n → O.mem n t ∧ ∀ m, O.mem m t → score m ≤ score n

/-- The better of two elements, the first on a tie. -/
def better {ν : Type} (prio : ν → ν → Bool) (x y : ν) : ν := if prio y x then y else x

/-- The interface on lists. -/
def listOps {ν : Type} (key : ν → Int) (prio : ν → ν → Bool) : PrioOps ν (List ν) where
  empty := []
  pushBack n t := t ++ [n]
  erase n t := t.filter fun x => key x ≠ key n
  top t := match t with
    | [] => none
    | x :: t => some (t.foldl (better prio) x)
  mem x t := x ∈ t

theorem foldl_better_best {ν : Type} {prio : ν → ν → Bool} {score : ν → ℚ} (t : List ν) (x : ν)
    (h : ∀ y z, y ∈ x :: t → z ∈ x :: t → (prio y z = true ↔ score z < score y)) :
    t.foldl (better prio) x ∈ x :: t ∧
      ∀ m, m ∈ x :: t → score m ≤ score (t.foldl (better prio) x) := by
  induction t generalizing x with
  | nil => simp
  | cons y t ih =>
    have hb : better prio x y ∈ x :: y :: t ∧ score x ≤ score (better prio x y) ∧
        score y ≤ score (better prio x y) := by
      have hxy := h y x (by simp) (by simp)
      unfold better
      split
      · rename_i hp
        exact ⟨by simp, (hxy.mp hp).le, le_refl _⟩
      · rename_i hp
        exact ⟨by simp, le_refl _, not_lt.mp fun hlt => hp (hxy.mpr hlt)⟩
    have hsub : ∀ z, z ∈ better prio x y :: t → z ∈ x :: y :: t := by
      intro z hz
      rcases List.mem_cons.mp hz with rfl | hz
      · exact hb.1
      · simp [hz]
    obtain ⟨h1, h2⟩ := ih (better prio x y) fun a b ha hb' => h a b (hsub a ha) (hsub b hb')
    refine ⟨hsub _ h1, fun m hm => ?_⟩
    have hbest := h2 _ (List.mem_cons_self ..)
    rcases List.mem_cons.mp hm with rfl | hm
    · exact hb.2.1.trans hbest
    · rcases List.mem_cons.mp hm with rfl | hm
      · exact hb.2.2.trans hbest
      · exact h2 m (List.mem_cons_of_mem _ hm)

theorem listOps_lawful {ν : Type} (key : ν → Int) (prio : ν → ν → Bool) :
    (listOps key prio).Lawful key prio where
  mem_empty x hx := by cases hx
  mem_pushBack n t _ x := by simp [listOps, or_comm]
  mem_erase n t x := by simp [listOps]
  top_none t := by
    cases t with
    | nil => simp [listOps]
    | cons x t =>
      simp only [listOps, reduceCtorEq, false_iff, not_forall, not_not]
      exact ⟨x, List.mem_cons_self ..⟩
  top_best t n score h ht := by
    cases t with
    | nil => cases ht
    | cons x t =>
      obtain rfl : t.foldl (better prio) x = n := by simpa [listOps] using ht
      exact foldl_better_best t x h

end NatFramework.Lib
