import Mathlib.Data.List.Count
import Mathlib.Data.List.TakeWhile
import NatFramework.Lib.Bytes

/-!
# Checked runs

A program that reads bytes through pointers and lengths, run under a checker: the
first read outside the bytes, index outside a table or length beyond what is left
ends the run with a `Fault`.

* `Passes`: the checker found nothing; `passes_bind`.
* `readByte`, `readSpan`, `readInt`, `readCStr`, `cutLen`: the steps of such a
  program, each with the exact condition under which it passes.
-/
namespace NatFramework.Lib

/-- What the checker stops a run for. -/
inductive Fault where
  /-- a read at an offset outside the bytes -/
  | read (off : Nat)
  /-- an index outside a table -/
  | index (i : Int)
  /-- a length of more than is left -/
  | length (n : Nat)
  deriving DecidableEq, Repr

abbrev Checked := Except Fault

namespace Checked

variable {α β : Type}

/-- The run goes through. -/
def Passes (x : Checked α) : Prop := ∃ a, x = .ok a

theorem passes_ok (a : α) : Passes (.ok a : Checked α) := ⟨a, rfl⟩

theorem not_passes_error (f : Fault) : ¬Passes (.error f : Checked α) := by
  rintro ⟨a, h⟩
  cases h

instance : (x : Checked α) → Decidable (Passes x)
  | .ok a => isTrue (passes_ok a)
  | .error f => isFalse (not_passes_error f)

@[simp] theorem ok_bind (a : α) (f : α → Checked β) : (.ok a : Checked α) >>= f = f a := rfl

@[simp] theorem error_bind (e : Fault) (f : α → Checked β) :
    (.error e : Checked α) >>= f = .error e := rfl

theorem bind_eq_ok {x : Checked α} {f : α → Checked β} {b : β} :
    x >>= f = .ok b ↔ ∃ a, x = .ok a ∧ f a = .ok b := by
  cases x with
  | ok a => simp
  | error e => simp

theorem passes_bind {x : Checked α} {f : α → Checked β} :
    Passes (x >>= f) ↔ ∃ a, x = .ok a ∧ Passes (f a) := by
  cases x with
  | ok a => simp
  | error e => simpa using not_passes_error e

theorem map_eq_ok {x : Checked α} {f : α → β} {b : β} :
    f <$> x = .ok b ↔ ∃ a, x = .ok a ∧ f a = b := by
  cases x with
  | ok a =>
    constructor
    · exact fun h => ⟨a, rfl, Except.ok.inj h⟩
    · rintro ⟨c, hc, rfl⟩
      cases hc
      rfl
  | error e =>
    constructor
    · intro h
      cases h
    · rintro ⟨c, hc, -⟩
      cases hc

theorem passes_map {x : Checked α} {f : α → β} : Passes (f <$> x) ↔ Passes x := by
  cases x with
  | ok a => exact iff_of_true ⟨f a, rfl⟩ ⟨a, rfl⟩
  | error e => exact iff_of_false (not_passes_error e) (not_passes_error e)

end Checked

/-! ## Reads -/

/-- The number a signed word of 32 bits holds. -/
def asInt32 (n : Nat) : Int := Int.bmod n (2 ^ 32)

theorem asInt32_of_lt {n : Nat} (h : n < 2 ^ 31) : asInt32 n = n :=
  Int.bmod_eq_of_le (by omega) (by omega)

theorem toNat_asInt32 {n : Nat} (h : n < 2 ^ 32) (hpos : 0 ≤ asInt32 n) :
    (asInt32 n).toNat = n := by
  unfold asInt32 at hpos ⊢
  rw [Int.bmod_def] at hpos ⊢
  split at hpos
  · rename_i hlow
    rw [if_pos hlow]
    omega
  · omega

/-- Ends the run with `f` unless `p` holds. -/
def check (p : Prop) [Decidable p] (f : Fault) : Checked Unit := if p then .ok () else .error f

def readByte (bs : List UInt8) (off : Nat) : Checked UInt8 :=
  match bs[off]? with
  | some b => .ok b
  | none => .error (.read off)

/-- The `n` bytes from offset `off` on. -/
def readSpan (bs : List UInt8) (off n : Nat) : Checked (List UInt8) :=
  if off + n ≤ bs.length then .ok ((bs.drop off).take n) else .error (.read (max off bs.length))

/-- All that follows offset `off`. -/
def readTail (bs : List UInt8) (off : Nat) : Checked (List UInt8) :=
  if off ≤ bs.length then .ok (bs.drop off) else .error (.read off)

/-- The `int` at offset `off`. -/
def readInt (bs : List UInt8) (off : Nat) : Checked Int :=
  (fun b => asInt32 (ofLe b)) <$> readSpan bs off 4

/-- The bytes from offset `off` up to the next 0. -/
def readCStr (bs : List UInt8) (off : Nat) : Checked { s : List UInt8 // 0 ∉ s } :=
  if 0 ∈ bs.drop off then
    .ok ⟨(bs.drop off).takeWhile (fun b => decide (b ≠ 0)),
      fun h => by simpa using List.mem_takeWhile_imp h⟩
  else .error (.read (max off bs.length))

/-- `len -= n` on a `uint32_t`, for what is left behind offset `off`. -/
def cutLen (bs : List UInt8) (off len n : Nat) : Checked Nat :=
  let left := (2 ^ 32 - n + len) % 2 ^ 32
  if off + left ≤ bs.length then .ok left else .error (.length left)

variable {bs : List UInt8} {off len n : Nat}

open Checked

theorem check_of {p : Prop} [Decidable p] (h : p) (f : Fault) : check p f = .ok () := if_pos h

theorem check_of_not {p : Prop} [Decidable p] (h : ¬p) (f : Fault) : check p f = .error f :=
  if_neg h

theorem readByte_of_lt (h : off < bs.length) : readByte bs off = .ok (bs.getD off 0) := by
  unfold readByte
  rw [List.getD_eq_getElem?_getD, List.getElem?_eq_getElem h]
  rfl

theorem readByte_of_le (h : bs.length ≤ off) : readByte bs off = .error (.read off) := by
  unfold readByte
  rw [List.getElem?_eq_none h]

theorem readSpan_of_le (h : off + n ≤ bs.length) : readSpan bs off n = .ok ((bs.drop off).take n) :=
  if_pos h

theorem readSpan_of_lt (h : bs.length < off + n) :
    readSpan bs off n = .error (.read (max off bs.length)) := if_neg (Nat.not_le.mpr h)

theorem readTail_of_le (h : off ≤ bs.length) : readTail bs off = .ok (bs.drop off) := if_pos h

theorem readTail_of_lt (h : bs.length < off) : readTail bs off = .error (.read off) :=
  if_neg (Nat.not_le.mpr h)

theorem readInt_of_le (h : off + 4 ≤ bs.length) :
    readInt bs off = .ok (asInt32 (ofLe ((bs.drop off).take 4))) := by
  unfold readInt
  rw [readSpan_of_le h]
  rfl

theorem readInt_of_lt (h : bs.length < off + 4) :
    readInt bs off = .error (.read (max off bs.length)) := by
  unfold readInt
  rw [readSpan_of_lt h]
  rfl

theorem readCStr_of_not_mem (h : 0 ∉ bs.drop off) :
    readCStr bs off = .error (.read (max off bs.length)) := if_neg h

/-- Behind a string and its 0 there is one 0 less. -/
theorem count_drop_takeWhile {cs : List UInt8} (h : 0 ∈ cs) :
    (cs.drop ((cs.takeWhile (fun b => decide (b ≠ 0))).length + 1)).count 0 + 1 = cs.count 0 := by
  induction cs with
  | nil => cases h
  | cons c cs ih =>
    by_cases hc : c = 0
    · subst hc
      simp
    · have hmem : 0 ∈ cs := (List.mem_cons.mp h).resolve_left (Ne.symm hc)
      rw [List.takeWhile_cons_of_pos (by simpa using hc), List.length_cons, List.drop_succ_cons,
        List.count_cons_of_ne hc]
      exact ih hmem

theorem readCStr_of_mem (h : 0 ∈ bs.drop off) : ∃ s, readCStr bs off = .ok s ∧
    (bs.drop (off + s.1.length + 1)).count 0 + 1 = (bs.drop off).count 0 := by
  refine ⟨_, if_pos h, ?_⟩
  rw [Nat.add_assoc, ← List.drop_drop]
  exact count_drop_takeWhile h

/-- What is cut off was there. -/
theorem cutLen_of_le (h : off ≤ bs.length) (hn : n ≤ 2 ^ 32)
    (hlen : (len + off) % 2 ^ 32 = (bs.length + n) % 2 ^ 32) :
    cutLen bs off len n = .ok ((bs.length - off) % 2 ^ 32) := by
  have hleft : (2 ^ 32 - n + len) % 2 ^ 32 = (bs.length - off) % 2 ^ 32 := by omega
  have hle := Nat.mod_le (bs.length - off) (2 ^ 32)
  unfold cutLen
  dsimp only
  rw [hleft, if_pos (by omega)]

end NatFramework.Lib
