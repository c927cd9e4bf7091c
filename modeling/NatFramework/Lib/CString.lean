import Mathlib.Algebra.Group.Int.Defs
import Mathlib.Data.List.Basic

/-!
# Numbers in C strings

`atoi` and `strtoll(s, NULL, 0)`: leading white space and a sign are skipped,
the longest run of digits is read, the rest of the string is ignored. With base
0 the first digits choose the base: `0x` and a hexadecimal digit for 16, another
leading `0` for 8. So a decimal id padded with zeros is read as an octal one, up
to its first `8` or `9`.
-/
namespace NatFramework.Lib.CString

def isSpace (c : Char) : Bool :=
  c = ' ' || c = '\t' || c = '\n' || c = '\r' || c.toNat = 11 || c.toNat = 12

/-- The value of a digit in a base up to 36; 36 for any other character. -/
def digitVal (c : Char) : Nat :=
  if '0' ≤ c ∧ c ≤ '9' then c.toNat - '0'.toNat
  else if 'a' ≤ c ∧ c ≤ 'z' then c.toNat - 'a'.toNat + 10
  else if 'A' ≤ c ∧ c ≤ 'Z' then c.toNat - 'A'.toNat + 10
  else 36

/-- The value of the digits in front, behind a part of value `acc`. -/
def digits (base : Nat) : Nat → List Char → Nat
  | acc, [] => acc
  | acc, c :: cs => if digitVal c < base then digits base (acc * base + digitVal c) cs else acc

/-- An optional sign: whether it is `-`, and what follows it. -/
def sign : List Char → Bool × List Char
  | '-' :: cs => (true, cs)
  | '+' :: cs => (false, cs)
  | cs => (false, cs)

def atoi (s : String) : Int :=
  let (neg, cs) := sign (s.toList.dropWhile isSpace)
  let v : Int := digits 10 0 cs
  if neg then -v else v

/-- The digits of a number whose base its prefix chooses. -/
def autoDigits : List Char → Nat
  | '0' :: 'x' :: c :: cs => if digitVal c < 16 then digits 16 0 (c :: cs) else 0
  | '0' :: 'X' :: c :: cs => if digitVal c < 16 then digits 16 0 (c :: cs) else 0
  | '0' :: cs => digits 8 0 cs
  | cs => digits 10 0 cs

/-- `strtoll(s, NULL, 0)`; a value out of range is cut to the range. -/
def strtoll (s : String) : Int :=
  let (neg, cs) := sign (s.toList.dropWhile isSpace)
  let v : Int := autoDigits cs
  if neg then max (-v) (-2 ^ 63) else min v (2 ^ 63 - 1)

example : strtoll "  127" = 127 ∧ strtoll "08" = 0 ∧ strtoll "09" = 0 ∧ strtoll "017" = 15 := by decide

end NatFramework.Lib.CString
