import Mathlib.Data.List.Basic
import Mathlib.Data.List.Dedup
import Mathlib.Data.List.Induction
import Mathlib.Data.List.Nodup

/-!
# A duplicate filter that forgets

`IdRing n α` remembers the ids it has let through in a ring of `n` places and
stops an id that stands in one of them. What it remembers is a window: the
latest `n` ids let through (`contents_test`), so that what the filter does to a
stream of records is `passed`, a function of the ids alone.

* `test_iff`: an id is stopped exactly if it is in the window.
* `passed_perm`: when every record of the stream is let through exactly once,
  what passed is the stream without its repetitions.
* `exactlyOnce_prefixes_iff`: that this is so at every moment of the stream, as a
  condition on the ids and their distance.
-/
namespace NatFramework.Lib

/-- The last `n` of a list. -/
def latest {α : Type} (n : Nat) (l : List α) : List α := l.drop (l.length - n)

structure IdRing (n : Nat) (α : Type) where
  front : Nat := 0
  ids : Nat → α

namespace IdRing

variable {n : Nat} {α β : Type}

/-- `true` if the id is stopped; otherwise it is remembered. -/
def test [DecidableEq α] (m : α) (q : IdRing n α) : IdRing n α × Bool :=
  if (List.range (min q.front n)).any fun i => m = q.ids i then (q, true)
  else
    ({ front := q.front + 1, ids := fun i => if i = q.front % n then m else q.ids i }, false)

/-- The remembered ids, oldest first. -/
def contents (q : IdRing n α) : List α :=
  (List.range (min q.front n)).map fun i => q.ids ((q.front - min q.front n + i) % n)

theorem length_contents (q : IdRing n α) : q.contents.length = min q.front n := by
  simp [contents]

/-- The window is the used part of the ring, rotated. -/
theorem mem_contents (q : IdRing n α) (m : α) :
    m ∈ q.contents ↔ ∃ i < min q.front n, q.ids i = m := by
  simp only [contents, List.mem_map, List.mem_range]
  by_cases hf : q.front ≤ n
  · rw [Nat.min_eq_left hf, Nat.sub_self]
    constructor
    · rintro ⟨i, hi, rfl⟩
      exact ⟨i, hi, by rw [Nat.zero_add, Nat.mod_eq_of_lt (by omega)]⟩
    · rintro ⟨i, hi, rfl⟩
      exact ⟨i, hi, by rw [Nat.zero_add, Nat.mod_eq_of_lt (by omega)]⟩
  · rw [Nat.min_eq_right (by omega)]
    constructor
    · rintro ⟨i, hi, rfl⟩
      exact ⟨_, Nat.mod_lt _ (by omega), rfl⟩
    · rintro ⟨j, hj, rfl⟩
      have hr : (q.front - n) % n < n := Nat.mod_lt _ (by omega)
      by_cases hle : (q.front - n) % n ≤ j
      · refine ⟨j - (q.front - n) % n, by omega, ?_⟩
        rw [← Nat.mod_add_mod, Nat.add_sub_cancel' hle, Nat.mod_eq_of_lt hj]
      · refine ⟨j + n - (q.front - n) % n, by omega, ?_⟩
        rw [← Nat.mod_add_mod, Nat.add_sub_cancel' (by omega), Nat.add_mod_right,
          Nat.mod_eq_of_lt hj]

theorem test_iff [DecidableEq α] (q : IdRing n α) (m : α) : (q.test m).2 = true ↔ m ∈ q.contents := by
  rw [mem_contents]
  unfold test
  split
  · rename_i h
    simp only [List.any_eq_true, List.mem_range, decide_eq_true_eq] at h
    obtain ⟨i, hi, rfl⟩ := h
    exact iff_of_true rfl ⟨i, hi, rfl⟩
  · rename_i h
    simp only [List.any_eq_true, List.mem_range, decide_eq_true_eq, not_exists, not_and] at h
    exact iff_of_false Bool.false_ne_true fun ⟨i, hi, he⟩ => h i hi he.symm

theorem mod_ne {a d : Nat} (hd : 0 < d) (hn : d < n) : a % n ≠ (a + d) % n := by
  intro he
  have hdvd : n ∣ a + d - a := Nat.dvd_of_mod_eq_zero (Nat.sub_mod_eq_zero_of_mod_eq he.symm)
  have := Nat.le_of_dvd (by omega) hdvd
  omega

/-- What the filter lets through enters the window; the oldest id leaves it. -/
theorem contents_test [DecidableEq α] (hn : 0 < n) (q : IdRing n α) (m : α) :
    (q.test m).1.contents =
      if m ∈ q.contents then q.contents else latest n (q.contents ++ [m]) := by
  by_cases hm : m ∈ q.contents
  · rw [if_pos hm]
    have ht := (test_iff q m).mpr hm
    unfold test at ht ⊢
    split
    · rfl
    · rename_i h
      rw [if_neg h] at ht
      cases ht
  · rw [if_neg hm]
    have ht : (q.test m).1 =
        { front := q.front + 1, ids := fun i => if i = q.front % n then m else q.ids i } := by
      have ht := mt (test_iff q m).mp hm
      unfold test at ht ⊢
      split
      · rename_i h
        rw [if_pos h] at ht
        exact absurd rfl ht
      · rfl
    rw [ht]
    apply List.ext_getElem
    · simp only [length_contents, latest, List.length_drop, List.length_append, List.length_singleton]
      omega
    · intro i h1 h2
      have h1 : i < min (q.front + 1) n := by rwa [length_contents] at h1
      simp only [latest, List.getElem_drop, List.length_append, length_contents,
        List.length_singleton]
      by_cases hlast : i + 1 = min (q.front + 1) n
      · -- the new id is the last of the window
        have hidx : min q.front n + 1 - n + i = q.contents.length := by
          rw [length_contents]
          omega
        rw [List.getElem_append_right (by omega)]
        simp only [contents, List.getElem_map, List.getElem_range]
        rw [if_pos, List.getElem_singleton]
        congr 1
        omega
      · rw [List.getElem_append_left (by rw [length_contents]; omega)]
        simp only [contents, List.getElem_map, List.getElem_range]
        have hne : (q.front + 1 - min (q.front + 1) n + i) % n ≠ q.front % n := by
          have := mod_ne (n := n) (a := q.front + 1 - min (q.front + 1) n + i)
            (d := min (q.front + 1) n - 1 - i) (by omega) (by omega)
          rwa [show q.front + 1 - min (q.front + 1) n + i + (min (q.front + 1) n - 1 - i) = q.front by
            omega] at this
        rw [if_neg hne]
        congr 2
        omega

/-- A filter that has seen an id remembers one. -/
theorem contents_test_ne_nil [DecidableEq α] (hn : 0 < n) (q : IdRing n α) (m : α) :
    (q.test m).1.contents ≠ [] := by
  rw [contents_test hn]
  split
  · rename_i hm
    exact List.ne_nil_of_mem hm
  · rw [latest, ← List.length_pos_iff, List.length_drop, List.length_append, List.length_singleton]
    omega

/-! ## Filtering a stream -/

section Stream

variable [DecidableEq α] (n) (key : β → α)

/-- The records of a stream whose id is not in the window; each of these enters
the window, which starts as `w`. -/
def passed : List α → List β → List β
  | _, [] => []
  | w, d :: ds =>
    if key d ∈ w then passed w ds else d :: passed (latest n (w ++ [key d])) ds

/-- Every record of the stream is let through exactly once. -/
def ExactlyOnce (w : List α) (ds : List β) : Prop :=
  (passed n key w ds).Nodup ∧ ∀ d ∈ ds, d ∈ passed n key w ds

instance [DecidableEq β] (w : List α) (ds : List β) : Decidable (ExactlyOnce n key w ds) := by
  unfold ExactlyOnce
  infer_instance

variable {n key}

theorem passed_subset (w : List α) (ds : List β) : ∀ d ∈ passed n key w ds, d ∈ ds := by
  induction ds generalizing w with
  | nil => simp [passed]
  | cons x ds ih =>
    intro d hd
    rw [passed] at hd
    split at hd
    · exact List.mem_cons_of_mem x (ih _ d hd)
    · rcases List.mem_cons.mp hd with rfl | hd
      · exact List.mem_cons_self
      · exact List.mem_cons_of_mem x (ih _ d hd)

theorem exactlyOnce_iff [DecidableEq β] {w : List α} {ds : List β} :
    ExactlyOnce n key w ds ↔ ∀ d ∈ ds, (passed n key w ds).count d = 1 := by
  constructor
  · rintro ⟨hnd, hmem⟩ d hd
    exact List.count_eq_one_of_mem hnd (hmem d hd)
  · intro h
    refine ⟨List.nodup_iff_count_le_one.mpr fun d => ?_, fun d hd => ?_⟩
    · by_cases hd : d ∈ ds
      · exact Nat.le_of_eq (h d hd)
      · rw [List.count_eq_zero_of_not_mem fun hx => hd (passed_subset w ds d hx)]
        exact Nat.zero_le 1
    · exact List.count_pos_iff.mp (by rw [h d hd]; exact Nat.one_pos)

/-- What passed is the stream without its repetitions. -/
theorem passed_perm [DecidableEq β] {w : List α} {ds : List β} (h : ExactlyOnce n key w ds) :
    (passed n key w ds).Perm ds.dedup := by
  rw [List.perm_ext_iff_of_nodup h.1 ds.nodup_dedup]
  intro d
  rw [List.mem_dedup]
  exact ⟨passed_subset w ds d, h.2 d⟩

/-! ### Counting each record when it comes first -/

omit [DecidableEq α] in
theorem latest_latest_append (l m : List α) : latest n (latest n l ++ m) = latest n (l ++ m) := by
  unfold latest
  rw [List.length_append, List.length_drop, List.length_append]
  by_cases h : l.length ≤ n
  · simp [h]
  · rw [← List.drop_append_of_le_length (by omega), List.drop_drop]
    congr 1
    omega

/-- What a stream leaves in the window. -/
theorem passed_append (w : List α) (ds es : List β) (hw : w.length ≤ n) :
    passed n key w (ds ++ es) =
      passed n key w ds ++ passed n key (latest n (w ++ (passed n key w ds).map key)) es := by
  induction ds generalizing w with
  | nil => simp [passed, latest, hw]
  | cons d ds ih =>
    rw [List.cons_append, passed, passed]
    split
    · exact ih w hw
    · rw [ih _ (by simp [latest]; omega), latest_latest_append]
      simp

theorem passed_concat (w : List α) (ds : List β) (d : β) (hw : w.length ≤ n) :
    passed n key w (ds ++ [d]) = passed n key w ds ++
      if key d ∈ latest n (w ++ (passed n key w ds).map key) then [] else [d] := by
  rw [passed_append w ds [d] hw]
  rfl

section Copies

variable [DecidableEq β]

omit [DecidableEq α] in
theorem eraseDups_concat (ds : List β) (d : β) :
    (ds ++ [d]).eraseDups = ds.eraseDups ++ if d ∈ ds then [] else [d] := by
  rw [List.eraseDups_append]
  by_cases hd : d ∈ ds
  · simp [List.removeAll, hd]
  · simp [List.removeAll, hd, List.eraseDups_cons]

omit [DecidableEq α] in
theorem nodup_eraseDups (ds : List β) : ds.eraseDups.Nodup := by
  induction ds using List.reverseRecOn with
  | nil => exact List.nodup_nil
  | append_singleton ds d ih =>
    rw [eraseDups_concat]
    split
    · rwa [List.append_nil]
    · rename_i hd
      rw [List.nodup_append]
      refine ⟨ih, List.nodup_singleton d, ?_⟩
      rintro x hx y hy rfl
      rw [List.mem_singleton.mp hy] at hx
      exact hd (List.mem_eraseDups.mp hx)

variable (n key) in
/-- A record's id is in the window of the latest `n` different records exactly
if the record is a copy of an earlier one. -/
def CopiesInWindow (w : List α) (ds : List β) : Prop :=
  ∀ i, (h : i < ds.length) →
    (key ds[i] ∈ latest n (w ++ (ds.take i).eraseDups.map key) ↔ ds[i] ∈ ds.take i)

instance (w : List α) (ds : List β) : Decidable (CopiesInWindow n key w ds) := by
  unfold CopiesInWindow
  infer_instance

omit [DecidableEq α] in
theorem copiesInWindow_concat {w : List α} {ds : List β} {d : β} :
    CopiesInWindow n key w (ds ++ [d]) ↔ CopiesInWindow n key w ds ∧
      (key d ∈ latest n (w ++ ds.eraseDups.map key) ↔ d ∈ ds) := by
  constructor
  · intro h
    refine ⟨fun i hi => ?_, ?_⟩
    · have := h i (by rw [List.length_append]; omega)
      rwa [List.getElem_append_left hi, List.take_append_of_le_length (by omega)] at this
    · have := h ds.length (by simp)
      rwa [List.getElem_concat_length rfl, List.take_left] at this
  · rintro ⟨h, hd⟩ i hi
    rw [List.length_append, List.length_singleton] at hi
    by_cases hlt : i < ds.length
    · rw [List.getElem_append_left hlt, List.take_append_of_le_length (by omega)]
      exact h i hlt
    · obtain rfl : i = ds.length := by omega
      rwa [List.getElem_concat_length rfl, List.take_left]

theorem passed_eq_eraseDups {w : List α} {ds : List β} (hw : w.length ≤ n)
    (h : CopiesInWindow n key w ds) : passed n key w ds = ds.eraseDups := by
  induction ds using List.reverseRecOn with
  | nil => rfl
  | append_singleton ds d ih =>
    obtain ⟨h1, h2⟩ := copiesInWindow_concat.mp h
    rw [passed_concat w ds d hw, eraseDups_concat, ih h1]
    simp only [h2]

theorem CopiesInWindow.exactlyOnce {w : List α} {ds : List β} (hw : w.length ≤ n)
    (h : CopiesInWindow n key w ds) : ExactlyOnce n key w ds := by
  rw [ExactlyOnce, passed_eq_eraseDups hw h]
  exact ⟨nodup_eraseDups ds, fun d hd => List.mem_eraseDups.mpr hd⟩

/-- At every moment of the stream each record so far has been let through
exactly once if and only if the copies are those whose id is in the window. -/
theorem exactlyOnce_prefixes_iff {w : List α} {ds : List β} (hw : w.length ≤ n) :
    (∀ pre, pre <+: ds → ExactlyOnce n key w pre) ↔ CopiesInWindow n key w ds := by
  constructor
  · intro h
    induction ds using List.reverseRecOn with
    | nil => exact fun i hi => absurd hi (Nat.not_lt_zero i)
    | append_singleton ds d ih =>
      have hc := ih fun pre hp => h pre (hp.trans (List.prefix_append ds [d]))
      refine copiesInWindow_concat.mpr ⟨hc, ?_⟩
      obtain ⟨hnd, hmem⟩ := h _ List.prefix_rfl
      rw [passed_concat w ds d hw, passed_eq_eraseDups hw hc] at hnd hmem
      constructor
      · intro hk
        have hd := hmem d (by simp)
        rw [if_pos hk, List.append_nil, List.mem_eraseDups] at hd
        exact hd
      · intro hd
        by_contra hk
        rw [if_neg hk, List.nodup_append] at hnd
        exact hnd.2.2 d (List.mem_eraseDups.mpr hd) d (by simp) rfl
  · rintro h pre ⟨post, rfl⟩
    refine CopiesInWindow.exactlyOnce hw ?_
    intro i hi
    have := h i (by rw [List.length_append]; omega)
    rwa [List.getElem_append_left hi, List.take_append_of_le_length (by omega)] at this

end Copies

end Stream

end IdRing

end NatFramework.Lib
