import Mathlib.Algebra.Group.Nat.Defs
import Mathlib.Data.List.Basic

/-!
# Bytes

Numbers as little-endian bytes, memory as a function of addresses, and a ring
of a given size in it.

* `blit`, `slice`: writing and reading a run of bytes; what a write leaves.
* `wrapWrite`: a write that goes on at the start of the ring; `Cyclic p size h bs`
  says that the ring holds `bs` from count `h` on, and `Cyclic.write` that a
  write behind `bs` keeps it.
-/
namespace NatFramework.Lib

/-! ## Little-endian numbers -/

/-- The `k` low bytes of a number, the lowest first. -/
def leBytes : Nat → Nat → List UInt8
  | 0, _ => []
  | k + 1, n => UInt8.ofNat (n % 256) :: leBytes k (n / 256)

def ofLe : List UInt8 → Nat
  | [] => 0
  | b :: bs => b.toNat + 256 * ofLe bs

@[simp] theorem length_leBytes (k n : Nat) : (leBytes k n).length = k := by
  induction k generalizing n with
  | zero => rfl
  | succ k ih => simp [leBytes, ih]

theorem ofLe_leBytes (k n : Nat) : ofLe (leBytes k n) = n % 256 ^ k := by
  induction k generalizing n with
  | zero => simp [leBytes, ofLe, Nat.mod_one]
  | succ k ih =>
    have hbyte : (UInt8.ofNat (n % 256)).toNat = n % 256 := by
      rw [UInt8.toNat_ofNat']
      omega
    rw [leBytes, ofLe, ih, hbyte, Nat.pow_succ, Nat.mul_comm (256 ^ k), Nat.mod_mul]

theorem ofLe_leBytes_of_lt {k n : Nat} (h : n < 256 ^ k) : ofLe (leBytes k n) = n := by
  rw [ofLe_leBytes, Nat.mod_eq_of_lt h]

/-- What `k` bytes do not hold is cut off. -/
theorem leBytes_mod (k n : Nat) : leBytes k (n % 256 ^ k) = leBytes k n := by
  induction k generalizing n with
  | zero => rfl
  | succ k ih =>
    have hlow : n % 256 ^ (k + 1) % 256 = n % 256 :=
      Nat.mod_mod_of_dvd n ⟨256 ^ k, Nat.pow_succ'⟩
    have hhigh : n % 256 ^ (k + 1) / 256 = n / 256 % 256 ^ k := by
      rw [Nat.pow_succ, Nat.mul_comm, Nat.mod_mul_right_div_self]
    rw [leBytes, leBytes, hlow, hhigh, ih]

theorem ofLe_lt (bs : List UInt8) : ofLe bs < 256 ^ bs.length := by
  induction bs with
  | nil => exact Nat.one_pos
  | cons b bs ih =>
    have hb := b.toNat_lt
    rw [ofLe, List.length_cons, Nat.pow_succ]
    omega

/-! ## Memory -/

abbrev Mem := Nat → UInt8

/-- `memcpy` of `bs` to address `off`. -/
def blit (m : Mem) (off : Nat) (bs : List UInt8) : Mem := fun a =>
  if off ≤ a then bs.getD (a - off) (m a) else m a

/-- The `n` bytes from address `off` on. -/
def slice (m : Mem) (off n : Nat) : List UInt8 := (List.range n).map fun k => m (off + k)

theorem blit_outside {m : Mem} {off a : Nat} {bs : List UInt8} (h : a < off ∨ off + bs.length ≤ a) :
    blit m off bs a = m a := by
  unfold blit
  split
  · rw [List.getD_eq_getElem?_getD, List.getElem?_eq_none (by omega)]
    rfl
  · rfl

theorem blit_inside {m : Mem} {off k : Nat} {bs : List UInt8} (h : k < bs.length) :
    blit m off bs (off + k) = bs[k] := by
  unfold blit
  rw [if_pos (Nat.le_add_right off k), Nat.add_sub_cancel_left, List.getD_eq_getElem?_getD,
    List.getElem?_eq_getElem h]
  rfl

@[simp] theorem blit_nil (m : Mem) (off : Nat) : blit m off [] = m :=
  funext fun _ => by simp [blit]

/-- A write byte by byte. -/
theorem blit_cons (m : Mem) (off : Nat) (b : UInt8) (bs : List UInt8) :
    blit m off (b :: bs) = blit (blit m off [b]) (off + 1) bs := by
  funext a
  rcases Nat.lt_trichotomy a off with h | rfl | h
  · rw [blit_outside (Or.inl h), blit_outside (Or.inl (by omega)), blit_outside (Or.inl h)]
  · rw [blit_outside (Or.inl (Nat.lt_succ_self a))]
    simp [blit]
  · have hb : blit m off [b] a = m a := blit_outside (Or.inr (by simp; omega))
    have hi : a - off = a - (off + 1) + 1 := by omega
    unfold blit at hb ⊢
    rw [if_pos (by omega), if_pos (by omega), hb, hi, List.getD_cons_succ]

@[simp] theorem length_slice (m : Mem) (off n : Nat) : (slice m off n).length = n := by
  simp [slice]

@[simp] theorem slice_zero (m : Mem) (off : Nat) : slice m off 0 = [] := rfl

theorem slice_congr {m m' : Mem} {off n : Nat} (h : ∀ k, k < n → m (off + k) = m' (off + k)) :
    slice m off n = slice m' off n :=
  List.map_congr_left fun k hk => h k (List.mem_range.mp hk)

theorem slice_add (m : Mem) (off a b : Nat) :
    slice m off (a + b) = slice m off a ++ slice m (off + a) b := by
  unfold slice
  rw [List.range_add, List.map_append, List.map_map]
  simp only [Function.comp_def, Nat.add_assoc]

/-- A read that a write does not touch. -/
theorem slice_blit_disjoint {m : Mem} {off n o : Nat} {bs : List UInt8}
    (h : off + n ≤ o ∨ o + bs.length ≤ off) : slice (blit m o bs) off n = slice m off n :=
  slice_congr fun k hk => blit_outside (by omega)

/-- A read of what has been written. -/
theorem slice_blit_same (m : Mem) (off : Nat) (bs : List UInt8) :
    slice (blit m off bs) off bs.length = bs := by
  apply List.ext_getElem
  · simp
  · intro k _ hk
    simp [slice, blit_inside hk]

/-- A write of what is there. -/
theorem blit_slice (m : Mem) (off n : Nat) : blit m off (slice m off n) = m := by
  funext a
  rcases Nat.lt_or_ge a off with hlt | hge
  · exact blit_outside (.inl hlt)
  · obtain ⟨k, rfl⟩ := Nat.exists_eq_add_of_le hge
    rcases Nat.lt_or_ge k n with hin | hout
    · rw [blit_inside (by rwa [length_slice])]
      simp [slice]
    · exact blit_outside (.inr (by rw [length_slice]; omega))

/-! ## A ring -/

/-- A write at `m` that goes on at the start when the end is reached. -/
def wrapWrite (p : Mem) (size m : Nat) (bs : List UInt8) : Mem :=
  blit (blit p m (bs.take (min (size - m) bs.length))) 0 (bs.drop (min (size - m) bs.length))

/-- The ring holds `bs` from count `h` on. -/
def Cyclic (p : Mem) (size h : Nat) (bs : List UInt8) : Prop :=
  ∀ k (hk : k < bs.length), p ((h + k) % size) = bs[k]

/-- How far behind `m` a place of the ring lies tells what a write leaves there. -/
theorem wrapWrite_apply {p : Mem} {size m a : Nat} {bs : List UInt8} (hm : m < size) (ha : a < size)
    (hlen : bs.length ≤ size) :
    wrapWrite p size m bs a = bs.getD ((a + size - m) % size) (p a) := by
  unfold wrapWrite
  rcases Nat.lt_or_ge a m with hlt | hge
  · -- before `m`: only the second piece can reach it
    have hk : (a + size - m) % size = a + size - m := Nat.mod_eq_of_lt (by omega)
    rw [hk]
    rcases Nat.lt_or_ge (a + size - m) bs.length with hin | hout
    · have ha' : a < (bs.drop (min (size - m) bs.length)).length := by
        rw [List.length_drop]
        omega
      have hb := @blit_inside (blit p m (bs.take (min (size - m) bs.length))) 0 _ _ ha'
      rw [Nat.zero_add] at hb
      rw [hb, List.getElem_drop, List.getD_eq_getElem?_getD, List.getElem?_eq_getElem hin]
      simp only [Option.getD_some]
      congr 1
      omega
    · rw [blit_outside (by rw [List.length_drop]; omega), blit_outside (Or.inl hlt),
        List.getD_eq_getElem?_getD, List.getElem?_eq_none hout]
      rfl
  · -- from `m` on: only the first piece can reach it
    have hk : (a + size - m) % size = a - m := by
      rw [show a + size - m = a - m + size by omega, Nat.add_mod_right, Nat.mod_eq_of_lt (by omega)]
    rw [hk, blit_outside (by rw [List.length_drop]; omega)]
    rcases Nat.lt_or_ge (a - m) bs.length with hin | hout
    · have ha' : a - m < (bs.take (min (size - m) bs.length)).length := by
        rw [List.length_take]
        omega
      have hb := @blit_inside p m _ _ ha'
      rw [show m + (a - m) = a by omega] at hb
      rw [hb, List.getElem_take, List.getD_eq_getElem?_getD, List.getElem?_eq_getElem hin]
      rfl
    · rw [blit_outside (by rw [List.length_take]; omega), List.getD_eq_getElem?_getD,
        List.getElem?_eq_none hout]
      rfl

/-- The place of count `t + k` lies `k` behind that of `t`. -/
theorem dist_mod {size t k : Nat} (hk : k < size) :
    ((t + k) % size + size - t % size) % size = k := by
  have hpos : 0 < size := by omega
  have hr : t % size < size := Nat.mod_lt t hpos
  rw [Nat.add_mod, Nat.mod_eq_of_lt hk]
  generalize t % size = r at hr
  rcases Nat.lt_or_ge (r + k) size with hlt | hge
  · rw [Nat.mod_eq_of_lt hlt, show r + k + size - r = k + size by omega, Nat.add_mod_right,
      Nat.mod_eq_of_lt hk]
  · have hwrap : (r + k) % size = r + k - size := by
      rw [Nat.mod_eq_sub_mod hge, Nat.mod_eq_of_lt (by omega)]
    rw [hwrap, show r + k - size + size - r = k by omega, Nat.mod_eq_of_lt hk]

/-- A write behind what the ring holds, where there is room for it. -/
theorem Cyclic.write {p : Mem} {size h : Nat} {bs cs : List UInt8} (hb : Cyclic p size h bs)
    (hroom : bs.length + cs.length ≤ size) (hpos : 0 < size) :
    Cyclic (wrapWrite p size ((h + bs.length) % size) cs) size h (bs ++ cs) := by
  intro k hk
  rw [List.length_append] at hk
  have hm : (h + bs.length) % size < size := Nat.mod_lt _ hpos
  have ha : (h + k) % size < size := Nat.mod_lt _ hpos
  rw [wrapWrite_apply hm ha (by omega)]
  rcases Nat.lt_or_ge k bs.length with hlt | hge
  · -- a place held before lies further behind the end than `cs` reaches
    have heq : (h + k) % size = (h + bs.length + (size - bs.length + k)) % size := by
      rw [show h + bs.length + (size - bs.length + k) = h + k + size by omega, Nat.add_mod_right]
    rw [heq, dist_mod (by omega), List.getD_eq_getElem?_getD, List.getElem?_eq_none (by omega),
      ← heq, List.getElem_append_left hlt]
    exact hb k hlt
  · have heq : h + k = h + bs.length + (k - bs.length) := by omega
    rw [heq, dist_mod (by omega), List.getElem_append_right hge, List.getD_eq_getElem?_getD,
      List.getElem?_eq_getElem (by omega)]
    rfl

/-- What lies before the end of the ring reads in one piece. -/
theorem Cyclic.read {p : Mem} {size h n : Nat} {bs : List UInt8} (hb : Cyclic p size h bs)
    (hn : n ≤ bs.length) (hend : h % size + n ≤ size) : slice p (h % size) n = bs.take n := by
  apply List.ext_getElem
  · simp [hn]
  · intro k h1 h2
    have hk : k < n := by simpa using h1
    have hplace : h % size + k = (h + k) % size := by
      have hmod := Nat.mod_eq_of_lt (show h % size + k < size by omega)
      rw [← hmod, Nat.mod_add_mod]
    simp only [slice, List.getElem_map, List.getElem_range, List.getElem_take]
    rw [hplace]
    exact hb k (by omega)

/-! ### Places of a ring in order -/

/-- `n` addresses one behind the other. -/
def piece (off n : Nat) : List Nat := (List.range n).map (off + ·)

/-- The places of the counts from `m` to `m + n`. -/
def places (size m n : Nat) : List Nat := (List.range n).map fun k => (m + k) % size

@[simp] theorem length_piece (off n : Nat) : (piece off n).length = n := by simp [piece]

@[simp] theorem length_places (size m n : Nat) : (places size m n).length = n := by simp [places]

theorem map_piece (p : Mem) (off n : Nat) : (piece off n).map p = slice p off n := by
  unfold piece slice
  rw [List.map_map]
  rfl

theorem places_mod (size m n : Nat) : places size (m % size) n = places size m n := by
  unfold places
  exact List.map_congr_left fun k _ => Nat.mod_add_mod m size k

theorem places_add (size m a b : Nat) :
    places size m (a + b) = places size m a ++ places size (m + a) b := by
  unfold places
  rw [List.range_add, List.map_append, List.map_map]
  simp only [Function.comp_def, Nat.add_assoc]

/-- Up to the end of the ring the places are the addresses. -/
theorem places_of_le {size m n : Nat} (h : m + n ≤ size) : places size m n = piece m n :=
  List.map_congr_left fun k hk =>
    Nat.mod_eq_of_lt (by have := List.mem_range.mp hk; omega)

/-- Past the end they go on at the start. -/
theorem places_wrap {size m n : Nat} (hm : m ≤ size) (hs : size ≤ m + n) (hn : n ≤ size) :
    places size m n = piece m (size - m) ++ piece 0 (m + n - size) := by
  have hsplit := places_add size m (size - m) (m + n - size)
  rw [show size - m + (m + n - size) = n by omega, show m + (size - m) = size by omega] at hsplit
  rw [hsplit, places_of_le (show m + (size - m) ≤ size by omega), ← places_mod, Nat.mod_self,
    places_of_le (show 0 + (m + n - size) ≤ size by omega)]

theorem lt_of_mem_places {size m n a : Nat} (hs : 0 < size) (h : a ∈ places size m n) :
    a < size := by
  obtain ⟨k, _, rfl⟩ := List.mem_map.mp h
  exact Nat.mod_lt _ hs

/-- The bytes of a ring, read at their places. -/
theorem cyclic_iff {p : Mem} {size h : Nat} {bs : List UInt8} :
    Cyclic p size h bs ↔ (places size h bs.length).map p = bs := by
  unfold places
  rw [List.map_map]
  constructor
  · intro hb
    apply List.ext_getElem
    · simp
    · intro k h1 h2
      simp only [List.getElem_map, List.getElem_range]
      exact hb k h2
  · intro hb k hk
    have hget := List.getElem_of_eq hb (show k < _ by simpa using hk)
    simpa using hget

theorem Cyclic.drop {p : Mem} {size h : Nat} {bs : List UInt8} (hb : Cyclic p size h bs) (n : Nat)
    (hn : n ≤ bs.length) : Cyclic p size (h + n) (bs.drop n) := by
  intro k hk
  rw [List.length_drop] at hk
  rw [List.getElem_drop, Nat.add_assoc]
  exact hb (n + k) (by omega)

end NatFramework.Lib
