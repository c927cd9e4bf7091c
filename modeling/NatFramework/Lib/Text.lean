import Mathlib.Data.List.DropRight
import Mathlib.Data.List.Basic

/-!
# Lines of text

Lines as `getline` takes them, blanks cut off on both sides, and the last
occurrence of a character.

* `mem_linesFrom`, `linesFrom_single`: what the lines consist of.
* `trimBy_around`: a character that is no blank keeps the text before it from the
  cut on the right and the text behind it from the cut on the left.
* `rfind_append`: the last occurrence is the one with none behind it.
* `splitOn_eq`: a split, field by field.
-/
namespace NatFramework.Lib

/-! ## Lines -/

/-- The lines of a text behind a part `cur` of its first line; a last line without
a line break counts if it is not empty. -/
def linesFrom : List Char → List Char → List (List Char)
  | [], cur => if cur = [] then [] else [cur]
  | c :: cs, cur => if c = '\n' then cur :: linesFrom cs [] else linesFrom cs (cur ++ [c])

/-- The lines `getline` takes off a text. -/
def getlines (text : List Char) : List (List Char) := linesFrom text []

theorem mem_linesFrom {x : Char} : ∀ {text cur l : List Char}, l ∈ linesFrom text cur → x ∈ l →
    x ∈ text ∨ x ∈ cur
  | [], cur, l, hl, hx => by
    unfold linesFrom at hl
    split at hl
    · simp at hl
    · exact .inr (List.mem_singleton.mp hl ▸ hx)
  | c :: cs, cur, l, hl, hx => by
    unfold linesFrom at hl
    split at hl
    · rcases List.mem_cons.mp hl with rfl | hl
      · exact .inr hx
      · rcases mem_linesFrom hl hx with h | h
        · exact .inl (List.mem_cons_of_mem _ h)
        · simp at h
    · rcases mem_linesFrom hl hx with h | h
      · exact .inl (List.mem_cons_of_mem _ h)
      · rcases List.mem_append.mp h with h | h
        · exact .inr h
        · exact .inl (by simp_all)

theorem mem_getlines {text l : List Char} {x : Char} (hl : l ∈ getlines text) (hx : x ∈ l) :
    x ∈ text := by
  rcases mem_linesFrom hl hx with h | h
  · exact h
  · simp at h

theorem linesFrom_single : ∀ {text cur : List Char}, '\n' ∉ text → text ++ cur ≠ [] →
    linesFrom text cur = [cur ++ text]
  | [], cur, _, hne => by
    have hcur : cur ≠ [] := by simpa using hne
    simp [linesFrom, hcur]
  | c :: cs, cur, h, _ => by
    rw [List.mem_cons, not_or] at h
    rw [linesFrom, if_neg (Ne.symm h.1), linesFrom_single h.2 (by simp)]
    simp

theorem getlines_single {text : List Char} (h : '\n' ∉ text) (hne : text ≠ []) :
    getlines text = [text] := by
  rw [getlines, linesFrom_single h (by simpa using hne), List.nil_append]

/-! ## Blanks on both sides -/

variable {α : Type*} {p : α → Bool}

/-- The text without the blanks in front and at the end. -/
def trimBy (p : α → Bool) (l : List α) : List α := (l.dropWhile p).rdropWhile p

theorem rdropWhile_append_cons {x : α} (hx : p x = false) (xs c : List α) :
    (xs ++ x :: c).rdropWhile p = xs ++ x :: c.rdropWhile p := by
  induction c using List.reverseRecOn with
  | nil =>
    rw [List.rdropWhile_concat_neg p xs x (by simp [hx])]
    simp
  | append_singleton c y ih =>
    rw [← List.cons_append, ← List.append_assoc]
    by_cases hy : p y = true
    · rw [List.rdropWhile_concat_pos p _ y hy, List.rdropWhile_concat_pos p _ y hy]
      exact ih
    · rw [List.rdropWhile_concat_neg p _ y hy, List.rdropWhile_concat_neg p _ y hy]
      simp

/-- `x` is no blank, so the text in front keeps its right end and the text behind
its left end. -/
theorem trimBy_around {x : α} (hx : p x = false) (l c : List α) :
    trimBy p (l ++ x :: c) = l.dropWhile p ++ x :: c.rdropWhile p := by
  have hdrop : (l ++ x :: c).dropWhile p = l.dropWhile p ++ x :: c := by
    rw [List.dropWhile_append]
    cases h : l.dropWhile p with
    | nil => simp [hx]
    | cons y ys => simp
  rw [trimBy, hdrop, rdropWhile_append_cons hx]

theorem trimBy_dropWhile (l : List α) : trimBy p (l.dropWhile p) = trimBy p l := by
  rw [trimBy, List.dropWhile_idempotent, trimBy]

/-! ## The last occurrence -/

variable [DecidableEq α]

/-- `rfind(x)`: the position of the last `x`. -/
def rfind (x : α) : List α → Option Nat
  | [] => none
  | y :: ys =>
    match rfind x ys with
    | some k => some (k + 1)
    | none => if y = x then some 0 else none

theorem rfind_eq_none {x : α} {l : List α} (h : x ∉ l) : rfind x l = none := by
  induction l with
  | nil => rfl
  | cons y ys ih =>
    rw [List.mem_cons, not_or] at h
    rw [rfind, ih h.2]
    exact if_neg (Ne.symm h.1)

theorem rfind_append {x : α} {c : List α} (h : x ∉ c) (l : List α) :
    rfind x (l ++ x :: c) = some l.length := by
  induction l with
  | nil => simp [rfind, rfind_eq_none h]
  | cons y ys ih => simp [rfind, ih]

/-- The split of a list at every `x`, at its first one. -/
theorem splitOn_eq (x : α) (l : List α) : l.splitOn x =
    match l.dropWhile (· ≠ x) with
    | [] => [l.takeWhile (· ≠ x)]
    | _ :: r => l.takeWhile (· ≠ x) :: r.splitOn x := by
  induction l with
  | nil => rfl
  | cons y ys ih =>
    rw [List.splitOn_cons_eq_if_modifyHead, List.dropWhile_cons, List.takeWhile_cons]
    by_cases hy : y = x
    · simp [hy]
    · simp only [beq_iff_eq, hy, if_false, ne_eq, not_false_eq_true, decide_true, if_true]
      rw [ih]
      cases ys.dropWhile (· ≠ x) with
      | nil => rfl
      | cons z zs => rfl

/-- A list that holds `x` is cut at its last one. -/
theorem exists_last {x : α} {l : List α} (h : x ∈ l) : ∃ a b, l = a ++ x :: b ∧ x ∉ b := by
  induction l with
  | nil => simp at h
  | cons y ys ih =>
    by_cases hys : x ∈ ys
    · obtain ⟨a, b, rfl, hb⟩ := ih hys
      exact ⟨y :: a, b, rfl, hb⟩
    · rcases List.mem_cons.mp h with rfl | h
      · exact ⟨[], ys, rfl, hys⟩
      · exact absurd h hys

end NatFramework.Lib
