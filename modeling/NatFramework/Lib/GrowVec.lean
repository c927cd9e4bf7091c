import Mathlib.Data.List.Basic

/-!
# A growing vector and the addresses of its elements

`GrowVec α` is a vector that moves to new storage when an element is appended
beyond its capacity. An address names the storage, counted by `gen`, and the
place in it; `deref` reads an address, and finds nothing in storage that has
been given up. How far the capacity grows is a parameter.

* `deref_emplaceBack_back`: the element appended is behind its address.
* `deref_emplaceBack_of_not_full`, `deref_emplaceBack_of_full`: what an append
  does to the addresses taken before it, with room left and without.
-/
namespace NatFramework.Lib

structure GrowVec (α : Type) where
  gen : Nat := 0
  elems : List α := []
  capacity : Nat := 0
  deriving DecidableEq, Repr

/-- A place in one of the storages a vector has had. -/
structure GrowVec.Addr where
  gen : Nat
  idx : Nat
  deriving DecidableEq, Repr

namespace GrowVec

variable {α : Type}

def Full (v : GrowVec α) : Prop := v.capacity ≤ v.elems.length

instance (v : GrowVec α) : Decidable v.Full := inferInstanceAs (Decidable (_ ≤ _))

def emplaceBack (grow : Nat → Nat) (x : α) (v : GrowVec α) : GrowVec α :=
  if v.Full then { gen := v.gen + 1, elems := v.elems ++ [x], capacity := grow v.capacity }
  else { v with elems := v.elems ++ [x] }

/-- The storage is kept. -/
def clear (v : GrowVec α) : GrowVec α := { v with elems := [] }

/-- The address of the last element. -/
def back (v : GrowVec α) : Addr := ⟨v.gen, v.elems.length - 1⟩

def deref (v : GrowVec α) (a : Addr) : Option α := if a.gen = v.gen then v.elems[a.idx]? else none

variable {v : GrowVec α} {grow : Nat → Nat} {x y : α} {a : Addr}

@[simp] theorem elems_emplaceBack : (v.emplaceBack grow x).elems = v.elems ++ [x] := by
  unfold emplaceBack
  split <;> rfl

theorem gen_emplaceBack : (v.emplaceBack grow x).gen = if v.Full then v.gen + 1 else v.gen := by
  unfold emplaceBack
  split <;> rfl

theorem capacity_emplaceBack_of_not_full (h : ¬v.Full) :
    (v.emplaceBack grow x).capacity = v.capacity := by
  unfold emplaceBack
  rw [if_neg h]

@[simp] theorem deref_emplaceBack_back :
    (v.emplaceBack grow x).deref (v.emplaceBack grow x).back = some x := by
  simp [deref, back]

theorem deref_eq_some : v.deref a = some y ↔ a.gen = v.gen ∧ v.elems[a.idx]? = some y := by
  unfold deref
  split <;> simp [*]

/-- With room left the addresses stay good. -/
theorem deref_emplaceBack_of_not_full (h : ¬v.Full) (ha : v.deref a = some y) :
    (v.emplaceBack grow x).deref a = some y := by
  rw [deref_eq_some] at ha ⊢
  obtain ⟨hgen, hget⟩ := ha
  have hlt : a.idx < v.elems.length := (List.getElem?_eq_some_iff.mp hget).1
  rw [gen_emplaceBack, if_neg h, elems_emplaceBack, List.getElem?_append_left hlt]
  exact ⟨hgen, hget⟩

/-- A full vector leaves all of them behind. -/
theorem deref_emplaceBack_of_full (h : v.Full) (ha : v.deref a = some y) :
    (v.emplaceBack grow x).deref a = none := by
  obtain ⟨hgen, -⟩ := deref_eq_some.mp ha
  unfold deref
  rw [gen_emplaceBack, if_pos h, if_neg]
  omega

end GrowVec

end NatFramework.Lib
