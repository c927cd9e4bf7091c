import Mathlib.Data.List.Nodup
import Mathlib.Logic.Function.Basic

/-!
# Writes to a keyed store

`writes key f l m`: each element of `l` in turn rewrites the entry at its key.

* `writes_at`: an entry sees the writes with its key and no others.
* `writes_of_nodup`: with distinct keys it sees one.
-/
namespace NatFramework.Lib

variable {α ι β : Type} [DecidableEq ι]

def writes (key : α → ι) (f : α → β → β) (l : List α) (m : ι → β) : ι → β :=
  l.foldl (fun m a => Function.update m (key a) (f a (m (key a)))) m

section Writes

variable {key : α → ι} {f : α → β → β} {l : List α} {m : ι → β}

@[simp] theorem writes_nil : writes key f [] m = m := rfl

theorem writes_cons (a : α) :
    writes key f (a :: l) m = writes key f l (Function.update m (key a) (f a (m (key a)))) := rfl

theorem writes_append (l' : List α) :
    writes key f (l ++ l') m = writes key f l' (writes key f l m) := List.foldl_append

theorem writes_at (i : ι) :
    writes key f l m i = (l.filter (key · = i)).foldl (fun b a => f a b) (m i) := by
  induction l generalizing m with
  | nil => rfl
  | cons a l ih =>
    rw [writes_cons, ih]
    by_cases h : key a = i
    · rw [List.filter_cons_of_pos (by simpa using h), List.foldl_cons, ← h, Function.update_self]
    · rw [List.filter_cons_of_neg (by simpa using h), Function.update_of_ne (Ne.symm h)]

theorem writes_of_not_mem {i : ι} (h : ∀ a ∈ l, key a ≠ i) : writes key f l m i = m i := by
  have hnil : l.filter (key · = i) = [] :=
    List.filter_eq_nil_iff.mpr fun a ha => by simpa using h a ha
  rw [writes_at, hnil, List.foldl_nil]

theorem filter_key_of_nodup (hd : (l.map key).Nodup) {a : α} (ha : a ∈ l) :
    l.filter (key · = key a) = [a] := by
  induction l with
  | nil => cases ha
  | cons b l ih =>
    rw [List.map_cons] at hd
    obtain ⟨hb, hd⟩ := List.nodup_cons.mp hd
    rcases List.mem_cons.mp ha with rfl | ha
    · have hnil : l.filter (key · = key a) = [] := by
        refine List.filter_eq_nil_iff.mpr fun c hc h => hb ?_
        rw [← of_decide_eq_true h]
        exact List.mem_map_of_mem hc
      rw [List.filter_cons_of_pos (by simp), hnil]
    · have hne : key b ≠ key a := fun h => hb (h ▸ List.mem_map_of_mem ha)
      rw [List.filter_cons_of_neg (by simpa using hne), ih hd ha]

theorem writes_of_nodup (hd : (l.map key).Nodup) {a : α} (ha : a ∈ l) :
    writes key f l m (key a) = f a (m (key a)) := by
  rw [writes_at, filter_key_of_nodup hd ha, List.foldl_cons, List.foldl_nil]

end Writes

end NatFramework.Lib
