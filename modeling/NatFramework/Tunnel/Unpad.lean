import Mathlib.Data.UInt
import NatFramework.Lib.Checked
import NatFramework.Tunnel.CCrypt
import NatFramework.Tunnel.CWaiter

/-!
# Decrypting what came

`CCrypt::desDecrypt` under the checker, on bytes that need not be the work of
`desEncrypt`: the search for the final NUL looks at most at the last block, and what
it has passed is taken off the size, with one more for the NUL.

* `unpad_eq`: what is looked at is there, and how much is passed.
* `decrypt_iff`: the size wraps only for one block without a NUL.
-/
namespace NatFramework.Tunnel

open Lib Checked

instance finite_uint8 : Finite UInt8 := Finite.of_injective UInt8.toFin fun _ _ => UInt8.toFin_inj.mp

/-- The search for the NUL from the end, with `cut` bytes passed.
mirrors crypt/CCrypt.cpp:260-263 -/
def unpad (res : List UInt8) (cut : Nat) : Checked Nat :=
  if cut < 8 then do
    check (cut < res.length) (.index (res.length - cut - 1))
    let b ← readByte res (res.length - cut - 1)
    if b ≠ 0 then unpad res (cut + 1) else .ok cut
  else .ok cut
termination_by 8 - cut

/-- `res.resize(res.size() - cut - 1)`, in `size_t`.
mirrors crypt/CCrypt.cpp:264 -/
def resizeCut (res : List UInt8) (cut : Nat) : Checked (List UInt8) := do
  let size := (2 ^ 64 + res.length - cut - 1) % 2 ^ 64
  check (size ≤ res.length) (.length size)
  .ok (res.take size)

namespace Des

variable (d : Des) (source : List UInt8)

/-- The blocks decrypted into a string of the same size, as `resize` has left it.
mirrors crypt/CCrypt.cpp:249-258 -/
def decryptBlocks : List UInt8 :=
  let n := source.length / 8 % 2 ^ 32
  mapBlocks 8 d.decrypt n source ++ List.replicate (source.length - 8 * n) 0

/-- mirrors crypt/CCrypt.cpp:244-267 -/
def checkedDecrypt : Checked (List UInt8) :=
  if source.length < 8 then .ok []
  else do
    let cut ← unpad (d.decryptBlocks source) 0
    resizeCut (d.decryptBlocks source) cut

end Des

/-! ## The search -/

variable {res : List UInt8} {cut : Nat}

/-- Every byte it looks at is there. -/
theorem unpad_eq (hlen : 8 ≤ res.length) (hcut : cut ≤ 8) : unpad res cut =
    .ok (cut + (((res.reverse.drop cut).take (8 - cut)).takeWhile (· ≠ 0)).length) := by
  fun_induction unpad res cut with
  | case1 cut hlt ih =>
    have hidx : cut < res.reverse.length := by
      rw [List.length_reverse]
      omega
    have hbyte : res.getD (res.length - cut - 1) 0 = res.reverse[cut] := by
      rw [List.getElem_reverse, List.getD_eq_getElem?_getD, List.getElem?_eq_getElem (by omega),
        Option.getD_some]
      congr 1
      omega
    have hrest : 8 - cut = (8 - (cut + 1)) + 1 := by omega
    rw [check_of (by omega), ok_bind, readByte_of_lt (by omega), ok_bind, hbyte,
      List.drop_eq_getElem_cons hidx, hrest, List.take_succ_cons]
    split
    · rename_i hne
      rw [ih (by omega), List.takeWhile_cons_of_pos (by simpa using hne), List.length_cons]
      congr 1
      omega
    · rename_i hzero
      rw [List.takeWhile_cons_of_neg (by simpa using hzero), List.length_nil, Nat.add_zero]
  | case2 cut hge =>
    rw [show 8 - cut = 0 by omega]
    simp

/-- What it passes are the bytes behind the last NUL, at most one block of them. -/
theorem resizeCut_eq (h : cut + 1 ≤ res.length) :
    resizeCut res cut = .ok (res.take ((res.length - cut - 1) % 2 ^ 64)) := by
  have hsize : (2 ^ 64 + res.length - cut - 1) % 2 ^ 64 = (res.length - cut - 1) % 2 ^ 64 := by
    omega
  have hle := Nat.mod_le (res.length - cut - 1) (2 ^ 64)
  unfold resizeCut
  dsimp only
  rw [hsize, check_of (by omega), ok_bind]

/-- A block of which nothing is left but the NUL it lacks. -/
theorem resizeCut_wraps (h : res.length = 8) : resizeCut res 8 = .error (.length (2 ^ 64 - 1)) := by
  unfold resizeCut
  dsimp only
  rw [h, check_of_not (by decide)]
  rfl

/-! ## Any ciphertext -/

namespace Des

variable (d : Des) {source : List UInt8}

theorem length_decrypt {b : List UInt8} (h : b.length = 8) : (d.decrypt b).length = 8 :=
  length_of_inverse d.length_encrypt d.decrypt_encrypt h

theorem length_decryptBlocks (source : List UInt8) :
    (d.decryptBlocks source).length = source.length := by
  have hle := Nat.mod_le (source.length / 8) (2 ^ 32)
  have hfits : 8 * (source.length / 8 % 2 ^ 32) ≤ source.length := by omega
  unfold decryptBlocks
  rw [List.length_append, List.length_replicate,
    length_mapBlocks_le (fun b hb => d.length_decrypt hb) hfits]
  omega

/-- How many bytes of the last eight the search passes. -/
def passed (source : List UInt8) : Nat :=
  (((d.decryptBlocks source).reverse.take 8).takeWhile (· ≠ 0)).length

theorem passed_le (source : List UInt8) : d.passed source ≤ 8 := by
  have hle := (List.takeWhile_prefix (l := (d.decryptBlocks source).reverse.take 8)
    (fun b => decide (b ≠ 0))).length_le
  rw [List.length_take] at hle
  exact hle.trans (Nat.min_le_left _ _)

/-- The search and the resizing, with the search done. -/
theorem checkedDecrypt_of_le (h : 8 ≤ source.length) :
    d.checkedDecrypt source = resizeCut (d.decryptBlocks source) (d.passed source) := by
  unfold checkedDecrypt
  rw [if_neg (by omega), unpad_eq (by rw [length_decryptBlocks]; exact h) (Nat.zero_le 8), ok_bind,
    Nat.zero_add, List.drop_zero]
  rfl

theorem passed_block (h : source.length = 8) : d.passed source = 8 ↔ 0 ∉ d.decrypt source := by
  have hlen := d.length_decrypt h
  have hblocks : d.decryptBlocks source = d.decrypt source := by
    unfold decryptBlocks
    rw [h]
    simp [mapBlocks, List.take_of_length_le (Nat.le_of_eq h)]
  have hrev : (d.decrypt source).reverse.length = 8 := by rw [List.length_reverse, hlen]
  unfold passed
  rw [hblocks, List.take_of_length_le hrev.le, ← hrev, ← List.mem_reverse]
  constructor
  · intro hall hmem
    have hself := (List.takeWhile_prefix _).eq_of_length hall
    have hzero := List.takeWhile_eq_self_iff.mp hself 0 hmem
    simp at hzero
  · intro hnone
    rw [List.takeWhile_eq_self_iff.mpr]
    intro b hb
    refine decide_eq_true fun h0 => hnone ?_
    rwa [← h0]

/-- Behind whole blocks, or one byte more than a block, the search ends early or
there is a byte to spare. -/
theorem passed_lt (h : 8 ≤ source.length) (hblock : ¬(source.length = 8 ∧ 0 ∉ d.decrypt source)) :
    d.passed source + 1 ≤ source.length := by
  have hle := d.passed_le source
  by_cases hlen : source.length = 8
  · have hne : d.passed source ≠ 8 := fun h8 => hblock ⟨hlen, (d.passed_block hlen).mp h8⟩
    omega
  · omega

/-- Where there is, that many bytes are left. -/
theorem checkedDecrypt_eq (h : 8 ≤ source.length)
    (hblock : ¬(source.length = 8 ∧ 0 ∉ d.decrypt source)) : d.checkedDecrypt source =
      .ok ((d.decryptBlocks source).take ((source.length - d.passed source - 1) % 2 ^ 64)) := by
  have hblocks := d.length_decryptBlocks source
  have hroom := d.passed_lt h hblock
  rw [d.checkedDecrypt_of_le h, resizeCut_eq (hroom.trans hblocks.ge), hblocks]

/-- A block without a NUL, which no padding gives, does not decrypt. -/
theorem checkedDecrypt_block (hlen : source.length = 8) (hnone : 0 ∉ d.decrypt source) :
    d.checkedDecrypt source = .error (.length (2 ^ 64 - 1)) := by
  rw [d.checkedDecrypt_of_le hlen.ge, (d.passed_block hlen).mpr hnone,
    resizeCut_wraps ((d.length_decryptBlocks source).trans hlen)]

/-- There is such a message under every key: what a block without a NUL encrypts to. -/
theorem checkedDecrypt_encrypt {b : List UInt8} (hlen : b.length = 8) (hnone : 0 ∉ b) :
    d.checkedDecrypt (d.encrypt b) = .error (.length (2 ^ 64 - 1)) := by
  refine d.checkedDecrypt_block (d.length_encrypt b hlen) ?_
  rw [d.decrypt_encrypt b hlen]
  exact hnone

/-- What the checker lets through is decrypted as ever. -/
theorem eq_desDecrypt {s : List UInt8} (hlen : source.length < 2 ^ 35)
    (h : d.checkedDecrypt source = .ok s) : s = d.desDecrypt source := by
  by_cases hshort : source.length < 8
  · rw [checkedDecrypt, if_pos hshort] at h
    rw [desDecrypt, if_pos hshort]
    exact (Except.ok.inj h).symm
  · have hblock : ¬(source.length = 8 ∧ 0 ∉ d.decrypt source) := by
      rintro ⟨h8, hnone⟩
      rw [d.checkedDecrypt_block h8 hnone] at h
      cases h
    have hblocks : d.decryptBlocks source = mapBlocks 8 d.decrypt (source.length / 8) source ++
        List.replicate (source.length % 8) 0 := by
      have hrest : source.length - 8 * (source.length / 8) = source.length % 8 := by omega
      unfold decryptBlocks
      dsimp only
      rw [Nat.mod_eq_of_lt (by omega), hrest]
    rw [d.checkedDecrypt_eq (by omega) hblock, Nat.mod_eq_of_lt (by omega)] at h
    rw [desDecrypt, if_neg hshort, ← hblocks, ← Except.ok.inj h]
    dsimp only
    rw [length_decryptBlocks]
    rfl

/-- For any bytes that come, decryption ends with a string no longer than they are,
unless they are a single block that decrypts to one without a NUL. -/
theorem decrypt_iff (d : Des) (source : List UInt8) :
    (∃ s, d.checkedDecrypt source = .ok s ∧ s.length ≤ source.length) ↔
      ¬(source.length = 8 ∧ 0 ∉ d.decrypt source) := by
  constructor
  · rintro ⟨s, hs, -⟩ ⟨hlen, hnone⟩
    rw [d.checkedDecrypt_block hlen hnone] at hs
    cases hs
  · intro hblock
    by_cases hshort : source.length < 8
    · exact ⟨[], if_pos hshort, Nat.zero_le _⟩
    · refine ⟨_, d.checkedDecrypt_eq (by omega) hblock, ?_⟩
      rw [List.length_take, length_decryptBlocks]
      exact Nat.min_le_right _ _

end Des

/-- A message of one such block, which a waiter takes. -/
theorem unpad_wraps :
    CWaiter.checkHead [0x68, 1, 0, 0, 8, 0, 0, 0] = some (sizeofMetaHead + 8) ∧
      ¬Passes (reversed.checkedDecrypt [1, 2, 3, 4, 5, 6, 7, 8]) := by
  decide +kernel

end NatFramework.Tunnel
