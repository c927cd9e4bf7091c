import Mathlib.Data.Nat.Digits.Lemmas
import NatFramework.Lib.CString

/-!
# Decimal texts

`decimal v` is the decimal digits of `v`, the lowest first, and 0 has one;
`decimalText` is the text of an integer.

* `decimal_eq`: the digits as a loop of `%` and `/` gives them.
* `atoi_decimalText`, `isDecimal_decimalText`: `atoi` reads the integer back, and there
  are no leading zeros.
-/
namespace NatFramework.Lib

def digitChar (d : Nat) : Char := Char.ofNat (48 + d)

def decimal (v : Nat) : List Nat := if v = 0 then [0] else Nat.digits 10 v

def decimalText (n : Int) : String :=
  String.ofList ((if n < 0 then ['-'] else []) ++ (decimal n.natAbs).reverse.map digitChar)

/-- A sign for a negative number, and digits without leading zeros, which `atoi` reads
as the number. -/
structure IsDecimal (s : String) (n : Int) : Prop where
  atoi : CString.atoi s = n
  digits : ∃ ds : List Nat, s.toList = (if n < 0 then ['-'] else []) ++ ds.map digitChar ∧
    ds ≠ [] ∧ (∀ d ∈ ds, d < 10) ∧ (ds.head? = some 0 → ds = [0])

theorem decimal_eq (v : Nat) : decimal v = v % 10 :: if 0 < v / 10 then decimal (v / 10) else [] := by
  unfold decimal
  by_cases hv : v = 0
  · subst hv
    rfl
  · rw [if_neg hv, Nat.digits_eq_cons_digits_div (by decide) hv]
    by_cases hdiv : v / 10 = 0
    · simp [hdiv]
    · rw [if_neg hdiv, if_pos (Nat.pos_of_ne_zero hdiv)]

theorem decimal_ne_nil (v : Nat) : decimal v ≠ [] := by
  rw [decimal_eq]
  exact List.cons_ne_nil _ _

theorem decimal_lt {v d : Nat} (hd : d ∈ decimal v) : d < 10 := by
  unfold decimal at hd
  split at hd
  · rw [List.mem_singleton.mp hd]
    decide
  · exact Nat.digits_lt_base (by decide) hd

theorem ofDigits_decimal (v : Nat) : Nat.ofDigits 10 (decimal v) = v := by
  unfold decimal
  split
  · rename_i hv
    rw [hv]
    rfl
  · exact Nat.ofDigits_digits 10 v

/-- Only the text of 0 begins with a zero. -/
theorem decimal_head {v : Nat} (h : (decimal v).reverse.head? = some 0) : decimal v = [0] := by
  unfold decimal at h ⊢
  split
  · rfl
  · rename_i hv
    rw [if_neg hv, List.head?_reverse, List.getLast?_eq_some_getLast (Nat.digits_ne_nil_iff_ne_zero.mpr hv),
      Option.some.injEq] at h
    exact absurd h (Nat.getLast_digit_ne_zero 10 hv)

theorem length_decimal_le {v k : Nat} (hk : 0 < k) (hv : v < 10 ^ k) : (decimal v).length ≤ k := by
  unfold decimal
  split
  · exact hk
  · exact (Nat.digits_length_le_iff (by decide) v).mpr hv

/-! ## Reading it back -/

theorem digitChar_spec {d : Nat} (hd : d < 10) :
    CString.digitVal (digitChar d) = d ∧ CString.isSpace (digitChar d) = false ∧
      digitChar d ≠ '-' ∧ digitChar d ≠ '+' ∧ (digitChar d).toNat = 48 + d := by
  revert d
  decide

namespace CString

theorem digits_append {base acc : Nat} {xs ys : List Char} (h : ∀ c ∈ xs, digitVal c < base) :
    digits base acc (xs ++ ys) = digits base (digits base acc xs) ys := by
  induction xs generalizing acc with
  | nil => rfl
  | cons c xs ih =>
    obtain ⟨hc, hxs⟩ := List.forall_mem_cons.mp h
    rw [List.cons_append, digits, digits, if_pos hc, if_pos hc, ih hxs]

theorem digits_reverse {ds : List Nat} (h : ∀ d ∈ ds, d < 10) (acc : Nat) :
    digits 10 acc (ds.reverse.map digitChar) = acc * 10 ^ ds.length + Nat.ofDigits 10 ds := by
  induction ds with
  | nil => simp [digits]
  | cons d ds ih =>
    obtain ⟨hd, hds⟩ := List.forall_mem_cons.mp h
    have hval := (digitChar_spec hd).1
    have hfront : ∀ c ∈ ds.reverse.map digitChar, digitVal c < 10 := by
      intro c hc
      obtain ⟨x, hx, rfl⟩ := List.mem_map.mp hc
      have hx := hds x (List.mem_reverse.mp hx)
      rwa [(digitChar_spec hx).1]
    rw [List.reverse_cons, List.map_append, digits_append hfront, ih hds, List.map_singleton, digits,
      hval, if_pos hd, digits, Nat.ofDigits_cons, List.length_cons, pow_succ]
    ring

theorem atoi_decimalText (n : Int) : atoi (decimalText n) = n := by
  have hlt : ∀ d ∈ decimal n.natAbs, d < 10 := fun d => decimal_lt
  have hdigits := digits_reverse hlt 0
  rw [Nat.zero_mul, Nat.zero_add, ofDigits_decimal] at hdigits
  obtain ⟨d, hd, ds, hds⟩ : ∃ d, d < 10 ∧ ∃ ds, (decimal n.natAbs).reverse.map digitChar = digitChar d :: ds := by
    cases hrev : (decimal n.natAbs).reverse with
    | nil => exact absurd (List.reverse_eq_nil_iff.mp hrev) (decimal_ne_nil _)
    | cons d ds =>
      refine ⟨d, hlt d (List.mem_reverse.mp ?_), ds.map digitChar, rfl⟩
      rw [hrev]
      exact List.mem_cons_self
  obtain ⟨-, hspace, hminus, hplus, -⟩ := digitChar_spec hd
  unfold atoi decimalText
  rw [String.toList_ofList]
  by_cases hn : n < 0
  · have hsign : sign ((['-'] ++ (decimal n.natAbs).reverse.map digitChar).dropWhile isSpace) =
        (true, (decimal n.natAbs).reverse.map digitChar) := rfl
    rw [if_pos hn, hsign]
    dsimp only
    rw [if_pos rfl, hdigits]
    omega
  · have hsign : sign (((decimal n.natAbs).reverse.map digitChar).dropWhile isSpace) =
        (false, (decimal n.natAbs).reverse.map digitChar) := by
      rw [hds, List.dropWhile_cons, hspace, if_neg Bool.false_ne_true]
      unfold sign
      split
      · rename_i heq
        exact absurd (List.cons.inj heq).1 hminus
      · rename_i heq
        exact absurd (List.cons.inj heq).1 hplus
      · rfl
    rw [if_neg hn, List.nil_append, hsign]
    dsimp only
    rw [if_neg Bool.false_ne_true, hdigits]
    omega

end CString

theorem isDecimal_decimalText (n : Int) : IsDecimal (decimalText n) n where
  atoi := CString.atoi_decimalText n
  digits := by
    refine ⟨(decimal n.natAbs).reverse, String.toList_ofList, ?_, ?_, fun h => ?_⟩
    · exact mt List.reverse_eq_nil_iff.mp (decimal_ne_nil _)
    · exact fun d hd => decimal_lt (List.mem_reverse.mp hd)
    · rw [decimal_head h]
      rfl

end NatFramework.Lib
