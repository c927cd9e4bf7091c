import NatFramework.Lib.Bytes

/-!
# Items laid one behind the other

`Tiles enc m a l b`: from address `a` to address `b` the memory holds the items of
`l`, each with its place and encoded by `enc`.

* `Tiles.congr`: only the bytes between the ends matter.
* `Tiles.append`, `Tiles.place_le`: joining, and where an item lies.
-/
namespace NatFramework.Lib

variable {ρ : Type} {enc : ρ → List UInt8}

def Tiles (enc : ρ → List UInt8) (m : Mem) : Nat → List (Nat × ρ) → Nat → Prop
  | a, [], b => a = b
  | a, x :: l, b =>
    x.1 = a ∧ slice m a (enc x.2).length = enc x.2 ∧ Tiles enc m (a + (enc x.2).length) l b

namespace Tiles

variable {m m' : Mem} {a b c : Nat} {l l' : List (Nat × ρ)}

theorem le (h : Tiles enc m a l b) : a ≤ b := by
  induction l generalizing a with
  | nil => exact Nat.le_of_eq h
  | cons x l ih =>
    have := ih h.2.2
    omega

theorem congr (h : Tiles enc m a l b) (hm : ∀ k, a ≤ k → k < b → m' k = m k) :
    Tiles enc m' a l b := by
  induction l generalizing a with
  | nil => exact h
  | cons x l ih =>
    obtain ⟨hplace, hbytes, hrest⟩ := h
    have hle := hrest.le
    refine ⟨hplace, ?_, ih hrest fun k hk => hm k (by omega)⟩
    rw [← hbytes, length_slice]
    exact slice_congr fun k hk => hm (a + k) (by omega) (by omega)

theorem append (h : Tiles enc m a l b) (h' : Tiles enc m b l' c) : Tiles enc m a (l ++ l') c := by
  induction l generalizing a with
  | nil =>
    rw [List.nil_append, show a = b from h]
    exact h'
  | cons x l ih => exact ⟨h.1, h.2.1, ih h.2.2⟩

/-- One item more at the end. -/
theorem concat (h : Tiles enc m a l b) {r : ρ} (hr : slice m b (enc r).length = enc r) :
    Tiles enc m a (l ++ [(b, r)]) (b + (enc r).length) :=
  h.append ⟨rfl, hr, rfl⟩

theorem place_le (h : Tiles enc m a l b) {x : Nat × ρ} (hx : x ∈ l) :
    a ≤ x.1 ∧ x.1 + (enc x.2).length ≤ b := by
  induction l generalizing a with
  | nil => exact nomatch hx
  | cons y l ih =>
    have hle := h.2.2.le
    rcases List.mem_cons.mp hx with rfl | hx
    · have := h.1
      omega
    · have := ih h.2.2 hx
      omega

/-- Between different ends there is an item. -/
theorem exists_cons (h : Tiles enc m a l b) (hne : a ≠ b) :
    ∃ r l', l = (a, r) :: l' ∧ slice m a (enc r).length = enc r ∧
      Tiles enc m (a + (enc r).length) l' b := by
  cases l with
  | nil => exact absurd h hne
  | cons x l =>
    obtain ⟨rfl, hbytes, hrest⟩ := h
    exact ⟨x.2, l, rfl, hbytes, hrest⟩

/-- Where every item takes room, there is none between equal ends. -/
theorem eq_nil (h : Tiles enc m a l a) (hpos : ∀ r, enc r ≠ []) : l = [] := by
  cases l with
  | nil => rfl
  | cons x l =>
    have hle := h.2.2.le
    have hlen := List.length_pos_iff.mpr (hpos x.2)
    omega

end Tiles

end NatFramework.Lib
