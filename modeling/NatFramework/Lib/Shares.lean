import Mathlib.Data.List.Basic

/-!
# One party's share of a list

The entries of a list that satisfy `p`, and where they stand among themselves.

* `getElem?_rank`: an entry of the share stands at its rank.
* `filter_set`, `filter_set_of_not`: rewriting an entry that stays where it belongs.
* `rank_set`, `rank_append`: and the ranks it leaves.
-/
namespace NatFramework.Lib

variable {α : Type} (p : α → Bool)

/-- How many entries in front of `k` are in the share. -/
def rank (l : List α) (k : Nat) : Nat := (l.take k).countP p

variable {p} {l : List α} {j k : Nat} {a b : α}

theorem rank_length (p : α → Bool) (l : List α) : rank p l l.length = (l.filter p).length := by
  rw [rank, List.take_length, List.countP_eq_length_filter]

theorem rank_append (p : α → Bool) (m : List α) (h : k ≤ l.length) : rank p (l ++ m) k = rank p l k := by
  rw [rank, rank, List.take_append_of_le_length h]

theorem split_of_getElem? (h : l[k]? = some a) :
    l = l.take k ++ a :: l.drop (k + 1) ∧ (l.take k).length = k := by
  obtain ⟨hlt, hget⟩ := List.getElem?_eq_some_iff.mp h
  refine ⟨?_, by simp [Nat.le_of_lt hlt]⟩
  rw [← hget, List.getElem_cons_drop, List.take_append_drop]

theorem set_of_getElem? (h : l[k]? = some a) (b : α) : l.set k b = l.take k ++ b :: l.drop (k + 1) := by
  obtain ⟨hlt, -⟩ := List.getElem?_eq_some_iff.mp h
  rw [List.set_eq_take_append_cons_drop, if_pos hlt]

theorem getElem?_rank (h : l[k]? = some a) (ha : p a) : (l.filter p)[rank p l k]? = some a := by
  have hsplit := (split_of_getElem? h).1
  rw [rank, List.countP_eq_length_filter]
  conv_lhs => rw [hsplit, List.filter_append, List.filter_cons_of_pos ha]
  rw [← hsplit]
  simp

theorem filter_set (h : l[k]? = some a) (ha : p a) (hb : p b) :
    (l.set k b).filter p = (l.filter p).set (rank p l k) b := by
  have hsplit := (split_of_getElem? h).1
  have hfilter : l.filter p = (l.take k).filter p ++ a :: (l.drop (k + 1)).filter p := by
    conv_lhs => rw [hsplit, List.filter_append, List.filter_cons_of_pos ha]
  rw [set_of_getElem? h, List.filter_append, List.filter_cons_of_pos hb, hfilter, rank,
    List.countP_eq_length_filter]
  simp

theorem filter_set_of_not (h : l[k]? = some a) (ha : ¬p a) (hb : ¬p b) : (l.set k b).filter p = l.filter p := by
  have hsplit := (split_of_getElem? h).1
  conv_rhs => rw [hsplit, List.filter_append, List.filter_cons_of_neg ha]
  rw [set_of_getElem? h, List.filter_append, List.filter_cons_of_neg hb]

/-- An entry that stays in its share, or outside, does not move the others. -/
theorem rank_set (h : l[j]? = some a) (hab : p a = p b) (k : Nat) : rank p (l.set j b) k = rank p l k := by
  have htake : ∀ m : List α, m[j]? = some a → (m.set j b).countP p = m.countP p := by
    intro m hm
    have hsplit := (split_of_getElem? hm).1
    conv_rhs => rw [hsplit, List.countP_append, List.countP_cons]
    rw [set_of_getElem? hm, List.countP_append, List.countP_cons, hab]
  rw [rank, rank, List.take_set]
  by_cases hj : j < k
  · exact htake _ (by rw [List.getElem?_take_of_lt hj, h])
  · rw [List.set_eq_of_length_le]
    rw [List.length_take]
    omega

end NatFramework.Lib
