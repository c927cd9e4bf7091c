import Mathlib.Algebra.Order.Ring.Rat

/-!
# The arithmetic of C

An `int` is an `Int`, a `double` a rational number. The language gives no value to
an `int` sum that leaves the range of the type. In `Arith` such a sum, and a
division by zero, end the computation; `wrap` is what a program compiled for a
machine of two's complement goes on with.
-/
namespace NatFramework.Lib

inductive Undefined where
  /-- a result that is not in the range of `int` -/
  | overflow (n : Int)
  | divZero
  deriving DecidableEq, Repr

abbrev Arith := Except Undefined

def InInt (n : Int) : Prop := -2 ^ 31 ≤ n ∧ n < 2 ^ 31

instance InInt.decidable (n : Int) : Decidable (InInt n) := by
  delta InInt
  infer_instance

def int32 (n : Int) : Arith Int := if InInt n then .ok n else .error (.overflow n)

def wrap (n : Int) : Int := n.bmod (2 ^ 32)

theorem wrap_of_inInt {n : Int} (h : InInt n) : wrap n = n := by
  obtain ⟨h1, h2⟩ := h
  exact Int.bmod_eq_of_le (by omega) (by omega)

def div (a b : ℚ) : Arith ℚ := if b = 0 then .error .divZero else .ok (a / b)

theorem int32_bind_eq_ok {α : Type} {n : Int} {f : Int → Arith α} {a : α} :
    int32 n >>= f = .ok a ↔ InInt n ∧ f n = .ok a := by
  unfold int32
  split
  · rename_i h
    exact ⟨fun hf => ⟨h, hf⟩, And.right⟩
  · rename_i h
    exact iff_of_false (fun hf => nomatch hf) fun hf => h hf.1

theorem div_of_ne {a b : ℚ} (h : b ≠ 0) : div a b = .ok (a / b) := if_neg h

theorem div_eq_ok {a b c : ℚ} : div a b = .ok c ↔ b ≠ 0 ∧ a / b = c := by
  unfold div
  split <;> simp [*]

end NatFramework.Lib
