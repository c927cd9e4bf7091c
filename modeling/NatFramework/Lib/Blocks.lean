import Mathlib.Data.Fintype.EquivFin
import Mathlib.Data.Fintype.Vector
import Mathlib.Data.List.TakeWhile

/-!
# Block by block

`mapBlocks k f n l`: `f` on each of the first `n` blocks of `k` elements.

* `mapBlocks_inverse`: what undoes `f` on a block undoes it on all.
* `length_of_inverse`: over a finite alphabet it gives blocks.
-/
namespace NatFramework.Lib

variable {α : Type} {k : Nat} {f g : List α → List α}

def mapBlocks (k : Nat) (f : List α → List α) : Nat → List α → List α
  | 0, _ => []
  | n + 1, l => f (l.take k) ++ mapBlocks k f n (l.drop k)

/-- The last block on its own. -/
theorem mapBlocks_succ (n : Nat) (l : List α) :
    mapBlocks k f (n + 1) l = mapBlocks k f n l ++ f ((l.drop (k * n)).take k) := by
  induction n generalizing l with
  | zero => simp [mapBlocks]
  | succ n ih =>
    rw [mapBlocks, ih, mapBlocks, List.append_assoc, List.drop_drop, Nat.mul_succ,
      Nat.add_comm (k * n)]

/-- What lies behind the blocks does not matter. -/
theorem mapBlocks_append {n : Nat} {l : List α} (h : k * n ≤ l.length) (r : List α) :
    mapBlocks k f n (l ++ r) = mapBlocks k f n l := by
  induction n generalizing l with
  | zero => rfl
  | succ n ih =>
    rw [Nat.mul_succ] at h
    rw [mapBlocks, mapBlocks, List.take_append_of_le_length (by omega),
      List.drop_append_of_le_length (by omega), ih (by rw [List.length_drop]; omega)]

theorem length_mapBlocks (hf : ∀ b, b.length = k → (f b).length = k) {n : Nat} {l : List α}
    (h : l.length = k * n) : (mapBlocks k f n l).length = k * n := by
  induction n generalizing l with
  | zero => rfl
  | succ n ih =>
    rw [Nat.mul_succ] at h ⊢
    rw [mapBlocks, List.length_append, hf _ (by rw [List.length_take]; omega),
      ih (by rw [List.length_drop]; omega), Nat.add_comm]

/-- What undoes `f` on the blocks of a finite alphabet gives blocks: there are no
blocks but those that `f` gives. -/
theorem length_of_inverse [Finite α] (hf : ∀ b, b.length = k → (f b).length = k)
    (hg : ∀ b, b.length = k → g (f b) = b) {b : List α} (h : b.length = k) : (g b).length = k := by
  have : Fintype α := Fintype.ofFinite α
  let F : List.Vector α k → List.Vector α k := fun v => ⟨f v.1, hf v.1 v.2⟩
  have hinj : Function.Injective F := by
    intro v w hvw
    have hfvw : f v.1 = f w.1 := congrArg Subtype.val hvw
    apply Subtype.ext
    rw [← hg v.1 v.2, hfvw, hg w.1 w.2]
  obtain ⟨v, hv⟩ := Finite.injective_iff_surjective.mp hinj ⟨b, h⟩
  have hb : f v.1 = b := congrArg Subtype.val hv
  rw [← hb, hg v.1 v.2, v.2]

theorem length_mapBlocks_le (hf : ∀ b, b.length = k → (f b).length = k) {n : Nat} {l : List α}
    (h : k * n ≤ l.length) : (mapBlocks k f n l).length = k * n := by
  rw [← List.take_append_drop (k * n) l, mapBlocks_append (by rw [List.length_take]; omega)]
  exact length_mapBlocks hf (by rw [List.length_take]; omega)

theorem mapBlocks_inverse (hf : ∀ b, b.length = k → (f b).length = k)
    (hg : ∀ b, b.length = k → g (f b) = b) {n : Nat} {l : List α} (h : l.length = k * n) :
    mapBlocks k g n (mapBlocks k f n l) = l := by
  induction n generalizing l with
  | zero => exact (List.eq_nil_of_length_eq_zero h).symm
  | succ n ih =>
    rw [Nat.mul_succ] at h
    have hblock : (l.take k).length = k := by
      rw [List.length_take]
      omega
    have hlen := hf _ hblock
    have htake : (mapBlocks k f (n + 1) l).take k = f (l.take k) := by
      rw [mapBlocks, List.take_append_of_le_length (Nat.le_of_eq hlen.symm),
        List.take_of_length_le (Nat.le_of_eq hlen)]
    have hdrop : (mapBlocks k f (n + 1) l).drop k = mapBlocks k f n (l.drop k) := by
      rw [mapBlocks, List.drop_append_of_le_length (Nat.le_of_eq hlen.symm),
        List.drop_of_length_le (Nat.le_of_eq hlen), List.nil_append]
    rw [mapBlocks, htake, hdrop, hg _ hblock, ih (by rw [List.length_drop]; omega),
      List.take_append_drop]

end NatFramework.Lib
