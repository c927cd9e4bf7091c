import Mathlib.Data.List.Basic
import NatFramework.Lib.Run
import NatFramework.Signal.CService

/-!
# The ring of a connection as a byte FIFO

`CBuffer` with all its accesses: `cycleWrite` and `cycleRead`, and the two
vectors of `getLeftVec` and `getDataVec` for scattered ones. The counters are
reduced modulo a size that need not divide `2 ^ 32`.

* `data_left_places`: the two vectors are the ring in order, from the unread
  bytes on, while the counters tell their places.
* `traffic_fifo`: no run in which no write and no read splits what lies about
  the wrap of the counters loses a byte.
-/
namespace NatFramework.Signal

open Lib

/-- An address and a length, twice. -/
structure IoVec where
  v0 : Nat × Nat
  v1 : Nat × Nat
deriving DecidableEq, Repr

def IoVec.total (v : IoVec) : Nat := v.v0.2 + v.v1.2

def IoVec.addrs (v : IoVec) : List Nat := piece v.v0.1 v.v0.2 ++ piece v.v1.1 v.v1.2

/-- What is read through the vectors. -/
def IoVec.gather (v : IoVec) (p : Mem) : List UInt8 :=
  slice p v.v0.1 v.v0.2 ++ slice p v.v1.1 v.v1.2

/-- What is written through them: the first is filled before the second. -/
def IoVec.scatter (v : IoVec) (bs : List UInt8) (p : Mem) : Mem :=
  blit (blit p v.v0.1 (bs.take v.v0.2)) v.v1.1 (bs.drop v.v0.2)

namespace CBuffer

/-- mirrors server_utils/CBuffer.h:56 -/
def commitWrite (n : Nat) (b : CBuffer) : CBuffer := { b with tail := (b.tail + n) % 2 ^ 32 }

/-- mirrors server_utils/CBuffer.cpp:55-65 -/
def getLeftVec (b : CBuffer) : IoVec :=
  let m := b.tail % b.size
  if b.len < m then
    { v0 := (m, b.size - m), v1 := (0, (2 ^ 32 - b.tail + (m + b.head)) % 2 ^ 32) }
  else
    { v0 := (m, b.left), v1 := (0, 0) }

/-- mirrors server_utils/CBuffer.cpp:67-76 -/
def getDataVec (b : CBuffer) : IoVec :=
  let m := b.head % b.size
  if b.len > b.size - m then
    { v0 := (m, b.size - m), v1 := (0, (2 ^ 32 - b.size + (b.len + m)) % 2 ^ 32) }
  else
    { v0 := (m, b.len), v1 := (0, 0) }

/-- The counters are 32 bits wide, and no more is unread than the ring takes. -/
structure Within (b : CBuffer) : Prop where
  pos : 0 < b.size
  head : b.head < 2 ^ 32
  tail : b.tail < 2 ^ 32
  fits : b.len ≤ b.size

namespace Within

variable {b : CBuffer} (h : b.Within)
include h

theorem left_eq : b.left = b.size - b.len := by
  have hsize := b.size_lt
  have hfits := h.fits
  unfold left
  omega

theorem dataVec_addrs : b.getDataVec.addrs = places b.size (b.head % b.size) b.len := by
  have hm : b.head % b.size < b.size := Nat.mod_lt _ h.pos
  have hsize := b.size_lt
  have hfits := h.fits
  unfold getDataVec IoVec.addrs
  dsimp only
  split
  · rename_i hwrap
    dsimp only
    rw [places_wrap (by omega) (by omega) hfits]
    congr 2
    omega
  · rename_i hone
    rw [places_of_le (show b.head % b.size + b.len ≤ b.size by omega)]
    exact List.append_nil _

theorem leftVec_addrs :
    b.getLeftVec.addrs = places b.size (b.tail % b.size) (b.size - b.len) := by
  have hm : b.tail % b.size < b.size := Nat.mod_lt _ h.pos
  have hle : b.tail % b.size ≤ b.tail := Nat.mod_le _ _
  have hsize := b.size_lt
  have hfits := h.fits
  have hhead := h.head
  have htail := h.tail
  unfold getLeftVec IoVec.addrs
  dsimp only
  split
  · rename_i hwrap
    have hrest : (2 ^ 32 - b.tail + (b.tail % b.size + b.head)) % 2 ^ 32
        = b.tail % b.size - b.len := by
      unfold len at hwrap ⊢
      omega
    dsimp only
    rw [hrest, places_wrap (by omega) (by omega) (by omega)]
    congr 2
    omega
  · rename_i hone
    rw [h.left_eq, places_of_le (show b.tail % b.size + (b.size - b.len) ≤ b.size by omega)]
    exact List.append_nil _

theorem len_commitRead {n : Nat} (hn : n ≤ b.len) : (b.commitRead n).len = b.len - n := by
  have hsize := b.size_lt
  have hfits := h.fits
  have hhead := h.head
  have htail := h.tail
  unfold len at hn hfits ⊢
  simp only [CBuffer.commitRead]
  omega

theorem commitRead {n : Nat} (hn : n ≤ b.len) : (b.commitRead n).Within where
  pos := h.pos
  head := Nat.mod_lt _ (Nat.two_pow_pos 32)
  tail := h.tail
  fits := by
    rw [h.len_commitRead hn]
    exact Nat.le_trans (Nat.sub_le _ _) h.fits

theorem len_commitWrite {n : Nat} (hn : n ≤ b.size - b.len) :
    (b.commitWrite n).len = b.len + n := by
  have hsize := b.size_lt
  have hfits := h.fits
  have hhead := h.head
  have htail := h.tail
  unfold len at hn hfits ⊢
  simp only [CBuffer.commitWrite]
  omega

theorem commitWrite {n : Nat} (hn : n ≤ b.size - b.len) : (b.commitWrite n).Within where
  pos := h.pos
  head := h.head
  tail := Nat.mod_lt _ (Nat.two_pow_pos 32)
  fits := by
    have hfits := h.fits
    rw [h.len_commitWrite hn]
    exact Nat.add_le_of_le_sub' hfits hn

theorem total_dataVec : b.getDataVec.total = b.len := by
  have hlen := congrArg List.length h.dataVec_addrs
  simpa [IoVec.addrs, IoVec.total] using hlen

theorem total_leftVec : b.getLeftVec.total = b.size - b.len := by
  have hlen := congrArg List.length h.leftVec_addrs
  simpa [IoVec.addrs, IoVec.total] using hlen

end Within

/-- `cycleRead` hands out the first of the two vectors. -/
theorem cycleRead_eq (b : CBuffer) : b.cycleRead = b.getDataVec.v0 := by
  unfold cycleRead getDataVec
  dsimp only
  split
  · rw [Nat.min_eq_right (by omega)]
  · rw [Nat.min_eq_left (by omega)]

/-- A write through the vectors is the write of `cycleWrite`. -/
theorem Within.scatter_eq {b : CBuffer} (h : b.Within) {bs : List UInt8}
    (hbs : bs.length ≤ b.getLeftVec.total) :
    b.getLeftVec.scatter bs b.p = wrapWrite b.p b.size (b.tail % b.size) bs := by
  have hm : b.tail % b.size < b.size := Nat.mod_lt _ h.pos
  have hleft := h.left_eq
  rw [h.total_leftVec] at hbs
  unfold getLeftVec IoVec.scatter wrapWrite
  dsimp only
  split
  · rcases Nat.le_total (b.size - b.tail % b.size) bs.length with hle | hle
    · rw [Nat.min_eq_left hle]
    · rw [Nat.min_eq_right hle, List.take_of_length_le hle, List.drop_of_length_le hle,
        List.take_length, List.drop_length]
  · dsimp only
    rw [Nat.min_eq_right (by omega), List.take_of_length_le (by omega),
      List.drop_of_length_le (by omega), List.take_length, List.drop_length]

/-- The targets of the two `memcpy` of `cycleWrite`.
mirrors server_utils/CBuffer.cpp:34-37 -/
def writeVec (b : CBuffer) (n : Nat) : IoVec :=
  let m := b.tail % b.size
  let ml := min (b.size - m) n
  { v0 := (m, ml), v1 := (0, n - ml) }

theorem cycleWrite_eq {b : CBuffer} {bs : List UInt8} (h : bs.length < b.left) :
    b.cycleWrite bs =
      (commitWrite bs.length { b with p := (b.writeVec bs.length).scatter bs b.p }, true) := by
  unfold cycleWrite
  rw [if_pos h]
  rfl

/-- Where the ring has room, the targets are the first of its free places. -/
theorem Within.writeVec_addrs {b : CBuffer} (h : b.Within) {n : Nat} (hn : n ≤ b.size - b.len) :
    (b.writeVec n).addrs = places b.size (b.tail % b.size) n := by
  have hm : b.tail % b.size < b.size := Nat.mod_lt _ h.pos
  unfold writeVec IoVec.addrs
  dsimp only
  rcases Nat.le_total (b.size - b.tail % b.size) n with hle | hle
  · rw [Nat.min_eq_left hle, places_wrap (by omega) (by omega) (by omega)]
    congr 2
    omega
  · rw [Nat.min_eq_right hle, Nat.sub_self, places_of_le (show b.tail % b.size + n ≤ b.size by omega)]
    exact List.append_nil _

end CBuffer

/-! ## Traffic -/

/-- A ring with the bytes it has taken in and given out. -/
structure Traffic where
  buf : CBuffer
  accepted : List UInt8 := []
  got : List UInt8 := []

inductive Access where
  /-- `cycleWrite` -/
  | write (bs : List UInt8)
  /-- `cycleRead`, then `commitRead` -/
  | read (n : Nat)
  /-- `getLeftVec`, a `readv` that gives these bytes, then `commitWrite` -/
  | scatter (bs : List UInt8)
  /-- `getDataVec`, a `writev` that takes so many bytes, then `commitRead` -/
  | gather (n : Nat)

namespace Traffic

def unread (s : Traffic) : List UInt8 := s.accepted.drop s.got.length

def allowed (s : Traffic) : Access → Prop
  | .write bs => bs.length < 2 ^ 32
  | .read n => n ≤ s.buf.cycleRead.2
  | .scatter bs => bs.length ≤ s.buf.getLeftVec.total
  | .gather n => n ≤ s.buf.getDataVec.total

def next (s : Traffic) : Access → Traffic
  | .write bs =>
    let r := s.buf.cycleWrite bs
    { s with buf := r.1, accepted := if r.2 then s.accepted ++ bs else s.accepted }
  | .read n =>
    { s with buf := s.buf.commitRead n, got := s.got ++ slice s.buf.p s.buf.cycleRead.1 n }
  | .scatter bs =>
    { s with
        buf := CBuffer.commitWrite bs.length { s.buf with p := s.buf.getLeftVec.scatter bs s.buf.p }
        accepted := s.accepted ++ bs }
  | .gather n =>
    { s with
        buf := s.buf.commitRead n
        got := s.got ++ (s.buf.getDataVec.gather s.buf.p).take n }

/-- From the ring as the constructor leaves it. -/
def sys : Sys Traffic Access where
  start s := s.buf.head = 0 ∧ s.buf.tail = 0 ∧ 0 < s.buf.size ∧ s.accepted = [] ∧ s.got = []
  ok := allowed
  next := next

/-- The ring is a FIFO of bytes, and its views say where they lie. -/
structure Fifo (s : Traffic) : Prop where
  in_order : s.got ++ s.unread = s.accepted
  accepts : ∀ bs, (s.buf.cycleWrite bs).2 = true ↔ bs.length < s.buf.size - s.unread.length
  refused : ∀ bs, (s.buf.cycleWrite bs).2 = false → (s.buf.cycleWrite bs).1 = s.buf
  data : s.buf.getDataVec.gather s.buf.p = s.unread
  ring : s.buf.getDataVec.addrs ++ s.buf.getLeftVec.addrs =
    places s.buf.size (s.buf.head % s.buf.size) s.buf.size
  inside : ∀ a ∈ s.buf.getDataVec.addrs ++ s.buf.getLeftVec.addrs, a < s.buf.size
  reads : piece s.buf.cycleRead.1 s.buf.cycleRead.2 <+: s.buf.getDataVec.addrs
  writes : ∀ n, n < s.buf.size - s.unread.length →
    (s.buf.writeVec n).addrs <+: s.buf.getLeftVec.addrs

/-- The access splits nothing about the wrap of the counters: a write stays
before it or fills the ring, and what lies across it is read whole. -/
def Unsplit (s : Traffic) (a : Access) : Prop :=
  s.buf.size ∣ 2 ^ 32 ∨
    match a with
    | .write bs => bs.length < s.buf.left → s.buf.tail + bs.length < 2 ^ 32
    | .scatter bs => s.buf.tail + bs.length < 2 ^ 32 ∨ bs.length = s.buf.left
    | .read n => s.buf.head ≤ s.buf.tail ∨ n = 0 ∨ n = s.buf.len
    | .gather n => s.buf.head ≤ s.buf.tail ∨ n = 0 ∨ n = s.buf.len

end Traffic

namespace CBuffer

/-- The ring holds `bs` from `head_` on, and `tail_` tells where they end unless
it is full. -/
structure Rings (b : CBuffer) (bs : List UInt8) : Prop extends b.Within where
  len_eq : b.len = bs.length
  bytes : Cyclic b.p b.size b.head bs
  wrap : b.size ∣ 2 ^ 32 ∨ b.head ≤ b.tail ∨ b.len = b.size

variable {b : CBuffer} {bs cs : List UInt8}

/-- Where the free places begin. -/
theorem Within.tail_place (h : b.Within) (hw : b.size ∣ 2 ^ 32 ∨ b.head ≤ b.tail) :
    b.tail % b.size = (b.head + b.len) % b.size := by
  have hhead := h.head
  have htail := h.tail
  rcases hw with hdvd | hle
  · have hmod : b.tail = (b.head + b.len) % 2 ^ 32 := by
      unfold len
      omega
    rw [hmod, Nat.mod_mod_of_dvd _ hdvd]
  · have hsum : b.head + b.len = b.tail := by
      unfold len
      omega
    rw [hsum]

/-- The two vectors are the ring in order. -/
theorem Rings.data_left_places (h : b.Rings bs) : b.getDataVec.addrs ++ b.getLeftVec.addrs =
    places b.size (b.head % b.size) b.size := by
  have hfits := h.fits
  have hsplit := places_add b.size (b.head % b.size) b.len (b.size - b.len)
  rw [Nat.add_sub_cancel' hfits] at hsplit
  rw [h.dataVec_addrs, h.leftVec_addrs, hsplit]
  congr 1
  rcases Nat.eq_or_lt_of_le hfits with hfull | hroom
  · rw [hfull, Nat.sub_self]
    rfl
  · have hw := h.wrap.imp_right fun hw => hw.resolve_right (by omega)
    rw [h.tail_place hw, places_mod, ← places_mod, ← Nat.mod_add_mod, places_mod]

theorem Rings.gather (h : b.Rings bs) : b.getDataVec.gather b.p = bs := by
  have hgather : b.getDataVec.gather b.p = b.getDataVec.addrs.map b.p := by
    unfold IoVec.gather IoVec.addrs
    rw [List.map_append, map_piece, map_piece]
  rw [hgather, h.dataVec_addrs, places_mod, h.len_eq]
  exact cyclic_iff.mp h.bytes

theorem slice_take {p : Mem} {off m n : Nat} (h : n ≤ m) :
    (slice p off m).take n = slice p off n := by
  rw [show m = n + (m - n) by omega, slice_add, List.take_append_of_le_length (by simp)]
  exact List.take_of_length_le (by simp)

theorem Rings.slice_cycleRead (h : b.Rings bs) {n : Nat} (hn : n ≤ b.cycleRead.2) :
    slice b.p b.cycleRead.1 n = bs.take n := by
  rw [cycleRead_eq] at hn ⊢
  rw [← h.gather, IoVec.gather, List.take_append_of_le_length (by simpa using hn), slice_take hn]

theorem wrapWrite_nil (p : Mem) (size m : Nat) : wrapWrite p size m [] = p := by simp [wrapWrite]

/-- Bytes written behind those it holds. -/
theorem Rings.put (h : b.Rings bs) (hroom : cs.length ≤ b.size - b.len)
    (hu : b.size ∣ 2 ^ 32 ∨ b.tail + cs.length < 2 ^ 32 ∨ cs.length = b.size - b.len) :
    (commitWrite cs.length { b with p := wrapWrite b.p b.size (b.tail % b.size) cs }).Rings
      (bs ++ cs) := by
  have hfits := h.fits
  have hlen := h.len_commitWrite hroom
  have hw := h.toWithin.commitWrite hroom
  refine ⟨⟨hw.pos, hw.head, hw.tail, hw.fits⟩, ?_, ?_, ?_⟩
  · rw [List.length_append, ← h.len_eq]
    exact hlen
  · simp only [commitWrite]
    rcases Nat.eq_zero_or_pos cs.length with hnil | hsome
    · rw [List.eq_nil_of_length_eq_zero hnil, wrapWrite_nil, List.append_nil]
      exact h.bytes
    · have hw := h.wrap.imp_right fun hw => hw.resolve_right (by omega)
      have hlen := h.len_eq
      rw [h.tail_place hw, hlen]
      exact h.bytes.write (by omega) h.pos
  · simp only [commitWrite]
    rcases h.wrap with hdvd | hle | hfull
    · exact .inl hdvd
    · rcases hu with hdvd | hlt | hfill
      · exact .inl hdvd
      · exact .inr (.inl (by rw [Nat.mod_eq_of_lt hlt]; omega))
      · exact .inr (.inr (hlen.trans (by omega)))
    · exact .inr (.inr (hlen.trans (by omega)))

/-- The first of them given out. -/
theorem Rings.take (h : b.Rings bs) {n : Nat} (hn : n ≤ b.len)
    (hu : b.size ∣ 2 ^ 32 ∨ b.head ≤ b.tail ∨ n = 0 ∨ n = b.len) :
    (b.commitRead n).Rings (bs.drop n) := by
  have hhead := h.head
  have htail := h.tail
  have hlen := h.len_commitRead hn
  have hbefore : b.head ≤ b.tail ∨ n = b.len → (b.head + n) % 2 ^ 32 ≤ b.tail := by
    unfold len at hn ⊢
    omega
  refine ⟨h.toWithin.commitRead hn, ?_, ?_, ?_⟩
  · rw [List.length_drop, ← h.len_eq]
    exact hlen
  · simp only [CBuffer.commitRead]
    have hdrop := h.bytes.drop n (h.len_eq ▸ hn)
    rcases hu with hdvd | hle | hzero | hall
    · rw [cyclic_iff, ← places_mod, Nat.mod_mod_of_dvd _ hdvd, places_mod, ← cyclic_iff]
      exact hdrop
    · have hsum : b.head + n < 2 ^ 32 := by
        unfold len at hn
        omega
      rw [Nat.mod_eq_of_lt hsum]
      exact hdrop
    · rw [hzero, Nat.add_zero, Nat.mod_eq_of_lt hhead]
      exact h.bytes
    · have hlast := h.len_eq
      rw [List.drop_of_length_le (by omega)]
      exact fun k hk => absurd hk (Nat.not_lt_zero k)
  · simp only [CBuffer.commitRead]
    rcases hu with hdvd | hle | hzero | hall
    · exact .inl hdvd
    · exact .inr (.inl (hbefore (.inl hle)))
    · rcases h.wrap with hdvd | hle | hfull
      · exact .inl hdvd
      · exact .inr (.inl (hbefore (.inl hle)))
      · exact .inr (.inr (hlen.trans (by omega)))
    · exact .inr (.inl (hbefore (.inr hall)))

end CBuffer

namespace Traffic

structure Inv (s : Traffic) : Prop where
  in_order : s.got ++ s.unread = s.accepted
  rings : s.buf.Rings s.unread

variable {s : Traffic}

theorem Inv.fifo (h : s.Inv) : s.Fifo where
  in_order := h.in_order
  accepts bs := by
    have hleft := h.rings.left_eq
    have hlen := h.rings.len_eq
    unfold CBuffer.cycleWrite
    split
    · exact iff_of_true rfl (by omega)
    · exact iff_of_false Bool.false_ne_true (by omega)
  refused bs hr := by
    unfold CBuffer.cycleWrite at hr ⊢
    split at hr
    · cases hr
    · rename_i hroom
      rw [if_neg hroom]
  data := h.rings.gather
  ring := h.rings.data_left_places
  inside a ha := by
    rw [h.rings.data_left_places] at ha
    exact lt_of_mem_places h.rings.pos ha
  reads := by
    rw [CBuffer.cycleRead_eq]
    exact List.prefix_append _ _
  writes n hn := by
    rw [← h.rings.len_eq] at hn
    rw [h.rings.writeVec_addrs (Nat.le_of_lt hn), h.rings.leftVec_addrs,
      show s.buf.size - s.buf.len = n + (s.buf.size - s.buf.len - n) by omega, places_add]
    exact List.prefix_append _ _

/-! ## What an access keeps -/

theorem Inv.put (h : s.Inv) {cs : List UInt8} {b : CBuffer} (hb : b.Rings (s.unread ++ cs)) :
    Inv { s with buf := b, accepted := s.accepted ++ cs } := by
  have hgot : s.got.length ≤ s.accepted.length := by
    rw [← h.in_order, List.length_append]
    exact Nat.le_add_right _ _
  have hunread : unread { s with buf := b, accepted := s.accepted ++ cs } = s.unread ++ cs :=
    List.drop_append_of_le_length hgot
  refine ⟨?_, ?_⟩
  · rw [hunread, ← List.append_assoc, h.in_order]
  · rw [hunread]
    exact hb

theorem Inv.take (h : s.Inv) {n : Nat} {b : CBuffer} (hn : n ≤ s.buf.len)
    (hb : b.Rings (s.unread.drop n)) : Inv { s with buf := b, got := s.got ++ s.unread.take n } := by
  have hlen := h.rings.len_eq
  have hunread : unread { s with buf := b, got := s.got ++ s.unread.take n } = s.unread.drop n := by
    unfold unread
    dsimp only
    rw [List.length_append, ← List.drop_drop, List.length_take, Nat.min_eq_left]
    · exact Nat.le_trans hn (Nat.le_of_eq hlen)
  refine ⟨?_, ?_⟩
  · rw [hunread, List.append_assoc, List.take_append_drop, h.in_order]
  · rw [hunread]
    exact hb

/-- One access keeps the ring. -/
theorem Inv.next (h : s.Inv) (a : Access) (ha : s.allowed a) (hu : s.Unsplit a) :
    (s.next a).Inv := by
  have hleft := h.rings.left_eq
  cases a with
  | write bs =>
    rcases Nat.lt_or_ge bs.length s.buf.left with hroom | hroom
    · simp only [Traffic.next, CBuffer.cycleWrite_eq hroom]
      exact h.put (h.rings.put (by omega) (hu.imp_right fun hlt => .inl (hlt hroom)))
    · simp only [Traffic.next, CBuffer.cycleWrite_of_le hroom]
      exact h
  | scatter bs =>
    have hroom : bs.length ≤ s.buf.size - s.buf.len := by
      rw [← h.rings.total_leftVec]
      exact ha
    simp only [Traffic.next, h.rings.scatter_eq ha]
    exact h.put (h.rings.put hroom
      (hu.imp_right fun hlt => hlt.imp_right fun heq => heq.trans hleft))
  | read n =>
    have hn : n ≤ s.buf.len := Nat.le_trans ha (Nat.min_le_left _ _)
    simp only [Traffic.next, h.rings.slice_cycleRead ha]
    exact h.take hn (h.rings.take hn hu)
  | gather n =>
    have hn : n ≤ s.buf.len := by
      rw [← h.rings.total_dataVec]
      exact ha
    simp only [Traffic.next, h.rings.gather]
    exact h.take hn (h.rings.take hn hu)

theorem Inv.start (h : sys.start s) : s.Inv := by
  obtain ⟨hhead, htail, hpos, hacc, hgot⟩ := h
  have hlen : s.buf.len = 0 := by
    unfold CBuffer.len
    rw [hhead, htail]
    omega
  have hunread : s.unread = [] := by
    unfold unread
    rw [hacc, List.drop_nil]
  refine ⟨?_, ?_⟩
  · rw [hunread, hacc, hgot]
    rfl
  · rw [hunread]
    exact
      { pos := hpos
        head := by omega
        tail := by omega
        fits := by omega
        len_eq := hlen
        bytes := fun k hk => absurd hk (Nat.not_lt_zero k)
        wrap := .inr (.inl (by omega)) }

end Traffic

/-- A ring whose accesses split nothing about the wrap of the counters is a
FIFO in every state it reaches. -/
theorem traffic_fifo (s : Traffic) (as : List Access) (hs : Traffic.sys.start s)
    (ha : Traffic.sys.Admits s as)
    (hu : AtEach (fun pre a => (Traffic.sys.exec s pre).Unsplit a) as) :
    (Traffic.sys.exec s as).Fifo :=
  (Traffic.sys.invariant_atEach (fun _ a h hok hstep => Traffic.Inv.next h a hok hstep) s as
    (Traffic.Inv.start hs) ha hu).fifo

instance (s : Traffic) : ∀ a, Decidable (s.Unsplit a)
  | .write bs => inferInstanceAs (Decidable (s.buf.size ∣ 2 ^ 32 ∨
      (bs.length < s.buf.left → s.buf.tail + bs.length < 2 ^ 32)))
  | .scatter bs => inferInstanceAs (Decidable (s.buf.size ∣ 2 ^ 32 ∨
      (s.buf.tail + bs.length < 2 ^ 32 ∨ bs.length = s.buf.left)))
  | .read n => inferInstanceAs (Decidable (s.buf.size ∣ 2 ^ 32 ∨
      (s.buf.head ≤ s.buf.tail ∨ n = 0 ∨ n = s.buf.len)))
  | .gather n => inferInstanceAs (Decidable (s.buf.size ∣ 2 ^ 32 ∨
      (s.buf.head ≤ s.buf.tail ∨ n = 0 ∨ n = s.buf.len)))

instance (s : Traffic) : ∀ a, Decidable (Traffic.sys.ok s a)
  | .write bs => inferInstanceAs (Decidable (bs.length < 2 ^ 32))
  | .read n => inferInstanceAs (Decidable (n ≤ s.buf.cycleRead.2))
  | .scatter bs => inferInstanceAs (Decidable (bs.length ≤ s.buf.getLeftVec.total))
  | .gather n => inferInstanceAs (Decidable (n ≤ s.buf.getDataVec.total))

def threeBytes : Traffic := { buf := { p := fun _ => 0, size := 3, size_lt := by decide } }

/-- Both vectors go round the end of the ring. -/
def roundTheEnd : List Access := [.write [1, 2], .read 1, .scatter [3, 4], .gather 2, .read 1]

theorem traffic_fifo_roundTheEnd :
    (Traffic.sys.exec threeBytes roundTheEnd).Fifo ∧
      (Traffic.sys.exec threeBytes roundTheEnd).got = [1, 2, 3, 4] :=
  ⟨traffic_fifo threeBytes roundTheEnd ⟨rfl, rfl, by decide, rfl, rfl⟩ (by decide)
    (atEach_iff_getElem.mpr (by decide)), by decide⟩

/-! ## At the wrap of the counters -/

/-- `n` bytes one at a time. -/
def oneByOne (n : Nat) : List Access := (List.replicate n [.write [0], .read 1]).flatten

theorem oneByOne_succ (n : Nat) : oneByOne (n + 1) = oneByOne n ++ [.write [0], .read 1] := by
  unfold oneByOne
  rw [List.replicate_succ', List.flatten_append, List.flatten_singleton]

/-- All is read, and both counters stand at `n`. -/
structure Idle (s : Traffic) (n : Nat) : Prop extends s.Inv where
  size : s.buf.size = 3
  head : s.buf.head = n
  tail : s.buf.tail = n

theorem Idle.len_eq {s : Traffic} {n : Nat} (h : Idle s n) : s.buf.len = 0 := by
  have hhead := h.head
  have htail := h.tail
  have hlt := h.rings.tail
  unfold CBuffer.len
  omega

theorem Idle.accepted_eq {s : Traffic} {n : Nat} (h : Idle s n) : s.accepted = s.got := by
  have hunread := h.rings.len_eq
  rw [h.len_eq] at hunread
  rw [← h.in_order, List.eq_nil_of_length_eq_zero hunread.symm, List.append_nil]

theorem Idle.round {s : Traffic} {n : Nat} (h : Idle s n) (hn : n + 1 < 2 ^ 32) :
    Traffic.sys.Admits s [.write [0], .read 1] ∧
      Idle (Traffic.sys.exec s [.write [0], .read 1]) (n + 1) := by
  have hhead := h.head
  have htail := h.tail
  have hsize := h.size
  have hlen := h.len_eq
  have hleft : s.buf.left = 3 := by
    rw [h.rings.left_eq]
    omega
  have hroom : ([0] : List UInt8).length < s.buf.left := by
    rw [hleft]
    decide
  have hw : s.Unsplit (.write [0]) := .inr fun _ => by
    simp only [List.length_singleton]
    omega
  have hwrite := h.toInv.next (.write [0]) (by simp [Traffic.allowed]) hw
  have hbuf : (s.next (.write [0])).buf = CBuffer.commitWrite 1
      { s.buf with p := (s.buf.writeVec 1).scatter [0] s.buf.p } := by
    simp only [Traffic.next, CBuffer.cycleWrite_eq hroom]
    rfl
  have hhead' : (s.next (.write [0])).buf.head = n := by rw [hbuf]; exact hhead
  have htail' : (s.next (.write [0])).buf.tail = n + 1 := by
    rw [hbuf]
    simp only [CBuffer.commitWrite, htail]
    omega
  have hsize' : (s.next (.write [0])).buf.size = 3 := by rw [hbuf]; exact hsize
  have hread : (s.next (.write [0])).allowed (.read 1) := by
    have hmod := Nat.mod_lt n (show 0 < 3 by decide)
    simp only [Traffic.allowed, CBuffer.cycleRead, CBuffer.len, hhead', htail', hsize']
    omega
  refine ⟨⟨by simp [Traffic.sys, Traffic.allowed], hread, trivial⟩, ?_⟩
  have hnext := hwrite.next (.read 1) hread (.inr (.inl (by omega)))
  have hstep : (Traffic.sys.exec s [.write [0], .read 1]).buf.head =
      ((s.next (.write [0])).buf.head + 1) % 2 ^ 32 := rfl
  refine { toInv := hnext, size := hsize', head := ?_, tail := htail' }
  rw [hstep, hhead']
  omega

theorem idle_oneByOne (n : Nat) (hn : n < 2 ^ 32) :
    Traffic.sys.Admits threeBytes (oneByOne n) ∧
      Idle (Traffic.sys.exec threeBytes (oneByOne n)) n := by
  induction n with
  | zero =>
    exact ⟨trivial,
      { toInv := Traffic.Inv.start ⟨rfl, rfl, by decide, rfl, rfl⟩
        size := rfl
        head := rfl
        tail := rfl }⟩
  | succ n ih =>
    obtain ⟨hadm, hidle⟩ := ih (by omega)
    obtain ⟨hround, hnext⟩ := hidle.round hn
    rw [oneByOne_succ, Sys.exec_append, Sys.admits_append]
    exact ⟨⟨hadm, hround⟩, hnext⟩

/-- Two bytes across the wrap, read one by one. -/
def acrossTheWrap : List Access := [.write [1, 2], .read 1, .read 1]

/-- The second is read at the place of the first. -/
theorem Idle.across {s : Traffic} (h : Idle s (2 ^ 32 - 1)) :
    Traffic.sys.Admits s acrossTheWrap ∧
      (Traffic.sys.exec s acrossTheWrap).accepted = s.accepted ++ [1, 2] ∧
      (Traffic.sys.exec s acrossTheWrap).got = s.got ++ [1] ++ [1] := by
  have hhead := h.head
  have htail := h.tail
  have hsize := h.size
  have hroom : ([1, 2] : List UInt8).length < s.buf.left := by
    rw [h.rings.left_eq, h.len_eq, hsize]
    decide
  have hplace : s.buf.tail % s.buf.size = 0 := by
    rw [htail, hsize]
    omega
  have hbuf : (s.next (.write [1, 2])).buf = CBuffer.commitWrite 2
      { s.buf with p := wrapWrite s.buf.p s.buf.size 0 [1, 2] } := by
    simp only [Traffic.next, CBuffer.cycleWrite, if_pos hroom, hplace]
    rfl
  have hacc : (s.next (.write [1, 2])).accepted = s.accepted ++ [1, 2] := by
    simp only [Traffic.next, CBuffer.cycleWrite_eq hroom, if_true]
  have hgot : (s.next (.write [1, 2])).got = s.got := rfl
  generalize hw : s.next (.write [1, 2]) = t at hbuf hacc hgot
  have hhead1 : t.buf.head = 2 ^ 32 - 1 := by rw [hbuf]; exact hhead
  have htail1 : t.buf.tail = 1 := by
    rw [hbuf]
    simp only [CBuffer.commitWrite]
    omega
  have hsize1 : t.buf.size = 3 := by rw [hbuf]; exact hsize
  have hbyte : slice t.buf.p 0 1 = [1] := by
    rw [hbuf]
    simp only [CBuffer.commitWrite, hsize]
    rfl
  have hread1 : t.buf.cycleRead.1 = 0 := by
    simp only [CBuffer.cycleRead, hhead1, hsize1]
    omega
  have hhead2 : (t.next (.read 1)).buf.head = 0 := by
    simp only [Traffic.next, CBuffer.commitRead, hhead1]
    omega
  have hread2 : (t.next (.read 1)).buf.cycleRead.1 = 0 := by
    simp only [CBuffer.cycleRead, hhead2, Nat.zero_mod]
  refine ⟨⟨by simp [Traffic.sys, Traffic.allowed], ?_, ?_, trivial⟩, ?_, ?_⟩
  · change 1 ≤ (s.next (.write [1, 2])).buf.cycleRead.2
    rw [hw]
    simp only [CBuffer.cycleRead, CBuffer.len, hhead1, htail1, hsize1]
    omega
  · change 1 ≤ ((s.next (.write [1, 2])).next (.read 1)).buf.cycleRead.2
    rw [hw]
    have htail2 : (t.next (.read 1)).buf.tail = 1 := htail1
    have hsize2 : (t.next (.read 1)).buf.size = 3 := hsize1
    simp only [CBuffer.cycleRead, CBuffer.len, hhead2, htail2, hsize2]
    omega
  · change (s.next (.write [1, 2])).accepted = s.accepted ++ [1, 2]
    rw [hw, hacc]
  · change (((s.next (.write [1, 2])).next (.read 1)).next (.read 1)).got = s.got ++ [1] ++ [1]
    rw [hw]
    change t.got ++ slice t.buf.p t.buf.cycleRead.1 1 ++
      slice t.buf.p (t.next (.read 1)).buf.cycleRead.1 1 = s.got ++ [1] ++ [1]
    rw [hread1, hread2, hbyte, hgot]

/-- What a run has read need not be what the ring accepted. -/
theorem got_not_accepted :
    Traffic.sys.start threeBytes ∧
      Traffic.sys.Admits threeBytes (oneByOne (2 ^ 32 - 1) ++ acrossTheWrap) ∧
      ¬(Traffic.sys.exec threeBytes (oneByOne (2 ^ 32 - 1) ++ acrossTheWrap)).got <+:
        (Traffic.sys.exec threeBytes (oneByOne (2 ^ 32 - 1) ++ acrossTheWrap)).accepted ∧
      ¬(Traffic.sys.exec threeBytes (oneByOne (2 ^ 32 - 1) ++ acrossTheWrap)).Fifo := by
  obtain ⟨hadm, hidle⟩ := idle_oneByOne (2 ^ 32 - 1) (by omega)
  obtain ⟨hlast, hacc, hgot⟩ := hidle.across
  have hsame := hidle.accepted_eq
  rw [Sys.exec_append, Sys.admits_append]
  generalize Traffic.sys.exec threeBytes (oneByOne (2 ^ 32 - 1)) = s at hlast hacc hgot hsame
  have hnot : ¬(Traffic.sys.exec s acrossTheWrap).got <+:
      (Traffic.sys.exec s acrossTheWrap).accepted := by
    rw [hacc, hgot, hsame, List.append_assoc, List.prefix_append_right_inj]
    decide
  exact ⟨⟨rfl, rfl, by decide, rfl, rfl⟩, ⟨hadm, hlast⟩, hnot,
    fun h => hnot ⟨_, h.in_order⟩⟩

end NatFramework.Signal
