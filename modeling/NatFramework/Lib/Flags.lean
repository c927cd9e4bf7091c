import Mathlib.Data.BitVec

/-!
# Bit masks

`hasAny s m` is the C test `s & m` used as a condition: some bit of the mask
`m` is set in `s`. Setting bits with `|` never clears one.
-/
namespace NatFramework.Lib

/-- `s & m` as a C condition. -/
def hasAny {w : Nat} (s m : BitVec w) : Bool := s &&& m != 0

namespace hasAny

variable {w : Nat}

theorem iff_exists (s m : BitVec w) :
    hasAny s m = true ↔ ∃ i, s.getLsbD i = true ∧ m.getLsbD i = true := by
  simp only [hasAny, bne_iff_ne, ne_eq]
  constructor
  · intro h
    by_contra hne
    apply h
    apply BitVec.eq_of_getLsbD_eq
    intro i hi
    simp only [BitVec.getLsbD_and, BitVec.ofNat_eq_ofNat, BitVec.getLsbD_zero]
    cases hs : s.getLsbD i <;> cases hm : m.getLsbD i <;> simp
    exact hne ⟨i, hs, hm⟩
  · rintro ⟨i, hs, hm⟩ h
    have := congrArg (fun b => b.getLsbD i) h
    simp [hs, hm] at this

/-- `(s | t) & m`. -/
@[simp] theorem or_left (s t m : BitVec w) : hasAny (s ||| t) m = (hasAny s m || hasAny t m) := by
  rw [Bool.eq_iff_iff]
  simp only [Bool.or_eq_true, iff_exists, BitVec.getLsbD_or]
  constructor
  · rintro ⟨i, h | h, hm⟩
    · exact Or.inl ⟨i, h, hm⟩
    · exact Or.inr ⟨i, h, hm⟩
  · rintro (⟨i, h, hm⟩ | ⟨i, h, hm⟩)
    · exact ⟨i, Or.inl h, hm⟩
    · exact ⟨i, Or.inr h, hm⟩

/-- A larger mask is hit whenever a smaller one is. -/
theorem mono {s m m' : BitVec w} (h : m &&& m' = m) (hs : hasAny s m = true) :
    hasAny s m' = true := by
  rw [iff_exists] at hs ⊢
  obtain ⟨i, h1, h2⟩ := hs
  refine ⟨i, h1, ?_⟩
  rw [← h, BitVec.getLsbD_and, Bool.and_eq_true] at h2
  exact h2.2

end hasAny

end NatFramework.Lib
