import NatFramework.Lib.Bytes
import NatFramework.Lib.CInt
import NatFramework.Lib.Decimal

/-!
# The text of an integer in a buffer

`utility/utils.cpp`: `int2string` writes the digits with the lowest first, and then
turns them round in place.

* `digitLoop_eq`, `reverseLoop_apply`: what the two loops do to the memory.
* `int2string_eq`: the buffer then holds `decimalText` and its NUL, and nothing else
  has changed; the smallest `int` has no negation, and no result.
-/
namespace NatFramework.Utility

open Lib

/-- `*a = c;` -/
def store (m : Mem) (a : Nat) (c : Int) : Mem := Function.update m a (UInt8.ofInt c)

theorem tdiv_ten_lt {val : Int} (h : 0 < val.tdiv 10) : (val.tdiv 10).toNat < val.toNat := by
  rcases Int.le_total 0 val with hpos | hneg
  · rw [Int.tdiv_eq_ediv_of_nonneg hpos] at h ⊢
    omega
  · have hle : val.tdiv 10 ≤ 0 := by
      rw [← Int.neg_neg val, Int.neg_tdiv, Int.tdiv_eq_ediv_of_nonneg (by omega)]
      omega
    exact absurd h (Int.not_lt.mpr hle)

/-- The digits from `p` on, and where they end. mirrors utility/utils.cpp:381-386 -/
def digitLoop (m : Mem) (p : Nat) (val : Int) : Mem × Nat :=
  if 0 < val.tdiv 10 then digitLoop (store m p (val.tmod 10 + 48)) (p + 1) (val.tdiv 10)
  else (store m p (val.tmod 10 + 48), p + 1)
termination_by val.toNat
decreasing_by exact tdiv_ten_lt ‹_›

/-- mirrors utility/utils.cpp:389-394 -/
def reverseLoop (m : Mem) (buf p : Nat) : Mem :=
  if buf < p then
    reverseLoop (Function.update (Function.update m buf (m p)) p (m buf)) (buf + 1) (p - 1)
  else m
termination_by p - buf

/-- mirrors utility/utils.cpp:380-394 -/
def writeDigits (m : Mem) (buf : Nat) (val : Int) : Mem :=
  let (m, p) := digitLoop m buf val
  reverseLoop (store m p 0) buf (p - 1)

/-- mirrors utility/utils.cpp:372-395 -/
def int2string (m : Mem) (buf : Nat) (val : Int) : Arith Mem :=
  if val < 0 then do
    let minus ← int32 (-val)
    return writeDigits (store m buf 45) (buf + 1) minus
  else return writeDigits m buf val

/-- The string at `a`. -/
structure CStrAt (m : Mem) (a : Nat) (s : String) : Prop where
  bytes : slice m a (s.length + 1) = (s.toList.map fun c => UInt8.ofNat c.toNat) ++ [0]
  chars : ∀ c ∈ s.toList, 0 < c.toNat ∧ c.toNat < 256

/-! ## The loops -/

/-- The byte of a digit. -/
def digitByte (d : Nat) : UInt8 := UInt8.ofNat (48 + d)

theorem store_eq_blit (m : Mem) (a n : Nat) : store m a n = blit m a [UInt8.ofNat n] := by
  funext b
  unfold store
  by_cases h : b = a
  · subst h
    have hmod : ((n : Int) % 2 ^ 8).toNat = n % 2 ^ 8 := by omega
    have hbyte : UInt8.ofInt n = UInt8.ofNat n := by
      rw [UInt8.ofInt, hmod]
      exact UInt8.ofNat_mod_size
    simp [blit, hbyte]
  · rw [Function.update_of_ne h, blit_outside]
    simp
    omega

theorem digitLoop_eq (m : Mem) (p v : Nat) :
    digitLoop m p v = (blit m p ((decimal v).map digitByte), p + (decimal v).length) := by
  induction v using Nat.strongRecOn generalizing m p with
  | ind v ih =>
    have hdigit : (v : Int).tmod 10 + 48 = (48 + v % 10 : Nat) := by
      rw [Nat.add_comm]
      rfl
    have hdiv : (v : Int).tdiv 10 = (v / 10 : Nat) := rfl
    rw [digitLoop, decimal_eq, hdigit, hdiv, store_eq_blit]
    by_cases hpos : 0 < v / 10
    · rw [if_pos (by exact_mod_cast hpos), if_pos hpos, ih _ (by omega), List.map_cons,
        blit_cons m p (digitByte _), List.length_cons, Nat.add_assoc, Nat.add_comm 1]
      rfl
    · rw [if_neg (by exact_mod_cast hpos), if_neg hpos]
      rfl

theorem reverseLoop_apply (m : Mem) (buf p a : Nat) :
    reverseLoop m buf p a = if buf ≤ a ∧ a ≤ p then m (buf + p - a) else m a := by
  fun_induction reverseLoop m buf p with
  | case1 m buf p hlt ih =>
    rw [ih]
    rcases Nat.lt_trichotomy a buf with h | rfl | h
    · rw [if_neg (by omega), if_neg (by omega), Function.update_of_ne (by omega),
        Function.update_of_ne (by omega)]
    · rw [if_neg (by omega), if_pos (by omega), Function.update_of_ne (by omega), Function.update_self]
      congr 1
      omega
    · rcases Nat.lt_trichotomy a p with h' | rfl | h'
      · rw [if_pos (by omega), if_pos (by omega), Function.update_of_ne (by omega),
          Function.update_of_ne (by omega)]
        congr 1
        omega
      · rw [if_neg (by omega), if_pos (by omega), Function.update_self]
        congr 1
        omega
      · rw [if_neg (by omega), if_neg (by omega), Function.update_of_ne (by omega),
          Function.update_of_ne (by omega)]
  | case2 m buf p hge =>
    split
    · congr 1
      omega
    · rfl

theorem writeDigits_eq (m : Mem) (buf v : Nat) :
    writeDigits m buf v = blit m buf ((decimal v).reverse.map digitByte ++ [0]) := by
  obtain ⟨L, hL⟩ : ∃ L, L = (decimal v).map digitByte := ⟨_, rfl⟩
  have hlen : (decimal v).length = L.length := by rw [hL, List.length_map]
  have hpos : 0 < L.length := by
    rw [← hlen]
    exact List.length_pos_of_ne_nil (decimal_ne_nil v)
  have hzero := store_eq_blit (blit m buf L) (buf + L.length) 0
  rw [Int.natCast_zero] at hzero
  funext a
  unfold writeDigits
  rw [digitLoop_eq, ← hL, hlen, List.map_reverse, ← hL]
  dsimp only
  rw [hzero, reverseLoop_apply]
  split
  · rename_i hin
    obtain ⟨k, rfl⟩ : ∃ k, a = buf + k := ⟨a - buf, by omega⟩
    have hk : k < L.length := by omega
    rw [show buf + (buf + L.length - 1) - (buf + k) = buf + (L.length - 1 - k) by omega,
      blit_outside (.inl (by omega)), blit_inside (by omega), blit_inside (by simp; omega),
      List.getElem_append_left (by simpa using hk), List.getElem_reverse]
  · rename_i hout
    rcases Nat.lt_trichotomy a (buf + L.length) with h | rfl | h
    · rw [blit_outside (.inl h), blit_outside (.inl (by omega)), blit_outside (.inl (by omega))]
    · rw [blit_inside (by simp), List.getElem_append_right (by simp)]
      simp [blit]
    · rw [blit_outside (.inr (by simp; omega)), blit_outside (.inr (by omega)),
        blit_outside (.inr (by simp; omega))]

/-! ## The text -/

def textBytes (s : String) : List UInt8 := s.toList.map fun c => UInt8.ofNat c.toNat

theorem textBytes_decimalText (n : Int) : textBytes (decimalText n) =
    (if n < 0 then [45] else []) ++ (decimal n.natAbs).reverse.map digitByte := by
  have hdigits : ((decimal n.natAbs).reverse.map digitChar).map (fun c => UInt8.ofNat c.toNat) =
      (decimal n.natAbs).reverse.map digitByte := by
    rw [List.map_map]
    refine List.map_congr_left fun d hd => ?_
    rw [Function.comp_apply, (digitChar_spec (decimal_lt (List.mem_reverse.mp hd))).2.2.2.2, digitByte]
  rw [textBytes, decimalText, String.toList_ofList, List.map_append, hdigits]
  split <;> rfl

theorem int2string_eq (m : Mem) (buf : Nat) {n : Int} (hn : InInt n) (hmin : n ≠ -2 ^ 31) :
    int2string m buf n = .ok (blit m buf (textBytes (decimalText n) ++ [0])) := by
  unfold int2string
  rw [textBytes_decimalText]
  by_cases hneg : n < 0
  · have hminus : InInt (-n) := by
      unfold InInt at hn ⊢
      omega
    have habs : -n = (n.natAbs : Nat) := by omega
    have hsign := store_eq_blit m buf 45
    rw [if_pos hneg, if_pos hneg, int32, if_pos hminus, habs]
    refine congrArg Except.ok ?_
    rw [writeDigits_eq, List.append_assoc, List.singleton_append, blit_cons]
    exact congrArg (blit · (buf + 1) _) hsign
  · have habs : n = (n.natAbs : Nat) := by omega
    rw [if_neg hneg, if_neg hneg, List.nil_append]
    nth_rewrite 1 [habs]
    rw [writeDigits_eq]
    rfl

/-- The smallest `int` has no negation. -/
theorem int2string_min (m : Mem) (buf : Nat) :
    int2string m buf (-2 ^ 31) = .error (.overflow (2 ^ 31)) := rfl

theorem cstrAt_blit (m : Mem) (buf : Nat) {s : String} (hs : ∀ c ∈ s.toList, 0 < c.toNat ∧ c.toNat < 256) :
    CStrAt (blit m buf (textBytes s ++ [0])) buf s where
  bytes := by
    have hlen : (textBytes s ++ [0]).length = s.length + 1 := by
      simp [textBytes, String.length_toList]
    rw [← hlen, slice_blit_same]
    rfl
  chars := hs

theorem chars_of_isDecimal {s : String} {n : Int} (h : IsDecimal s n) {c : Char} (hc : c ∈ s.toList) :
    0 < c.toNat ∧ c.toNat < 256 := by
  obtain ⟨ds, hs, -, hlt, -⟩ := h.digits
  rw [hs, List.mem_append] at hc
  rcases hc with hc | hc
  · split at hc
    · rw [List.mem_singleton.mp hc]
      decide
    · cases hc
  · obtain ⟨d, hd, rfl⟩ := List.mem_map.mp hc
    have hd := hlt d hd
    rw [(digitChar_spec hd).2.2.2.2]
    omega

theorem length_decimalText {n : Int} (hn : InInt n) : (decimalText n).length ≤ 11 := by
  have hlen : (decimal n.natAbs).length ≤ 10 := by
    refine length_decimal_le (by decide) ?_
    unfold InInt at hn
    omega
  rw [decimalText, String.length_ofList, List.length_append, List.length_map, List.length_reverse]
  split
  · rw [List.length_singleton]
    omega
  · rw [List.length_nil]
    omega

end NatFramework.Utility
