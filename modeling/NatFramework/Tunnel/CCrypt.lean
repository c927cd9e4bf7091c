import Mathlib.Algebra.Group.Nat.Defs
import NatFramework.Lib.Blocks

/-!
# Packets under DES

`CCrypt::desEncrypt` and `desDecrypt`: the packet with its final NUL, filled up
with `0xff` to whole blocks, each block by itself.

* `desEncrypt_eq`: the blocks of the padded packet, each encrypted.
* `desDecrypt_desEncrypt`: decryption gives the packet back.
-/
namespace NatFramework.Tunnel

open Lib

/-- `DES_ecb3_encrypt` under the session's key, in both directions. -/
structure Des where
  encrypt : List UInt8 → List UInt8
  decrypt : List UInt8 → List UInt8
  length_encrypt : ∀ b, b.length = 8 → (encrypt b).length = 8
  decrypt_encrypt : ∀ b, b.length = 8 → decrypt (encrypt b) = b

namespace Des

variable (d : Des) (source : List UInt8)

/-- mirrors crypt/CCrypt.cpp:218-243 -/
def desEncrypt : List UInt8 :=
  let restLen := (source.length + 1) % 2 ^ 32 % 8
  let n := (source.length + 1) / 8 % 2 ^ 32
  let c := source ++ [0]
  mapBlocks 8 d.encrypt n c ++
    if restLen ≠ 0 then
      d.encrypt ((c.drop (8 * n)).take restLen ++ List.replicate (8 - restLen) 0xff)
    else []

/-- mirrors crypt/CCrypt.cpp:245-267 -/
def desDecrypt : List UInt8 :=
  if source.length < 8 then []
  else
    let res := mapBlocks 8 d.decrypt (source.length / 8) source ++
      List.replicate (source.length % 8) 0
    let cut := ((res.reverse.take 8).takeWhile (· ≠ 0)).length
    res.take (res.length - cut - 1)

/-- How much fills the last block. -/
def fill (n : Nat) : Nat := (8 - (n + 1) % 8) % 8

/-- The packet filled up to whole blocks. -/
def padded : List UInt8 := source ++ 0 :: List.replicate (fill source.length) 0xff

theorem length_padded : (padded source).length = 8 * ((source.length + 8) / 8) := by
  simp only [padded, List.length_append, List.length_cons, List.length_replicate, fill]
  omega

theorem desEncrypt_eq (h : source.length + 1 < 2 ^ 32) :
    d.desEncrypt source = mapBlocks 8 d.encrypt ((source.length + 8) / 8) (padded source) := by
  have hn : (source.length + 1) / 8 % 2 ^ 32 = (source.length + 1) / 8 :=
    Nat.mod_eq_of_lt (by omega)
  have hsplit : padded source =
      (source ++ [0]) ++ List.replicate (fill source.length) 0xff := by
    rw [padded, List.append_assoc]
    rfl
  have hlen : (source ++ [0]).length = source.length + 1 := by simp
  unfold desEncrypt
  dsimp only
  rw [hn, Nat.mod_eq_of_lt h, hsplit]
  generalize source ++ [0] = c at hlen
  split
  · rename_i hrest
    have hblocks : (source.length + 8) / 8 = (source.length + 1) / 8 + 1 := by omega
    have hfill : fill source.length = 8 - (source.length + 1) % 8 := by
      unfold fill
      omega
    have htail : (c.drop (8 * ((source.length + 1) / 8))).length = (source.length + 1) % 8 := by
      rw [List.length_drop, hlen]
      omega
    have hblock : (c.drop (8 * ((source.length + 1) / 8)) ++
        List.replicate (8 - (source.length + 1) % 8) (0xff : UInt8)).length ≤ 8 := by
      rw [List.length_append, htail, List.length_replicate]
      omega
    rw [hblocks, hfill, mapBlocks_succ, mapBlocks_append (by omega),
      List.drop_append_of_le_length (by omega), List.take_of_length_le hblock,
      List.take_of_length_le (Nat.le_of_eq htail)]
  · rename_i hrest
    have hblocks : (source.length + 8) / 8 = (source.length + 1) / 8 := by omega
    rw [hblocks, mapBlocks_append (by omega), List.append_nil]

theorem length_desEncrypt (h : source.length + 1 < 2 ^ 32) :
    (d.desEncrypt source).length = 8 * ((source.length + 8) / 8) := by
  rw [desEncrypt_eq d source h]
  exact length_mapBlocks d.length_encrypt (length_padded source)

theorem takeWhile_padded :
    (((padded source).reverse.take 8).takeWhile (· ≠ 0)).length = fill source.length := by
  have hfill : fill source.length < 8 := by
    unfold fill
    omega
  obtain ⟨m, hm⟩ : ∃ m, 8 - fill source.length = m + 1 := ⟨7 - fill source.length, by omega⟩
  have hrev : (padded source).reverse =
      List.replicate (fill source.length) 0xff ++ 0 :: source.reverse := by
    simp [padded]
  rw [hrev, List.take_append, List.length_replicate, hm, List.take_succ_cons,
    List.take_of_length_le (by rw [List.length_replicate]; omega),
    List.takeWhile_append_of_pos (by simp), List.takeWhile_cons_of_neg (by simp)]
  simp

/-- Decryption gives the packet back. -/
theorem desDecrypt_desEncrypt (h : source.length + 1 < 2 ^ 32) :
    d.desDecrypt (d.desEncrypt source) = source := by
  have hlen := d.length_desEncrypt source h
  have hpad := length_padded source
  unfold desDecrypt
  rw [if_neg (by omega), hlen, Nat.mul_div_cancel_left _ (by decide), Nat.mul_mod_right]
  dsimp only
  rw [List.replicate_zero, List.append_nil, desEncrypt_eq d source h,
    mapBlocks_inverse d.length_encrypt d.decrypt_encrypt hpad, takeWhile_padded]
  have hcut : (padded source).length - fill source.length - 1 = source.length := by
    simp only [padded, List.length_append, List.length_cons, List.length_replicate]
    omega
  rw [hcut, padded, List.take_append_of_le_length (Nat.le_refl _), List.take_length]

/-- **The round trip.** Every packet of fewer than 2^31 bytes. -/
theorem crypt_round_trip (h : source.length < 2 ^ 31) :
    d.desDecrypt (d.desEncrypt source) = source :=
  d.desDecrypt_desEncrypt source (by omega)

end Des

def reversed : Des where
  encrypt := List.reverse
  decrypt := List.reverse
  length_encrypt b h := by rw [List.length_reverse, h]
  decrypt_encrypt b _ := List.reverse_reverse b

/-- A packet that ends like a filled block. -/
theorem crypt_round_trip_reversed :
    reversed.desDecrypt (reversed.desEncrypt [1, 0, 0xff]) = [1, 0, 0xff] :=
  reversed.crypt_round_trip [1, 0, 0xff] (by decide)

end NatFramework.Tunnel
