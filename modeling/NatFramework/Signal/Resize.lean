import NatFramework.Lib.RingReads
import NatFramework.Signal.ByteFifo

/-!
# A ring that is given another size

`CBuffer::resize` moves the block and leaves both counters, which tell a place
only by their remainder by the size.

* `Delivers`: what `cycleRead` and `commitRead` hand out, however much is
  taken each time.
* `Survives`: the sizes and counters with which a ring keeps what is unread and
  takes further writes behind it.
* `resize_iff`: in no other reachable state does it.
-/
namespace NatFramework.Signal

open Lib

namespace CBuffer

/-- The block as `realloc` moves it, where `fresh` is what lies behind its bytes. -/
def moved (fresh : Mem) (size : Nat) (hsize : size < 2 ^ 32) (b : CBuffer) : CBuffer :=
  { b with
    p := fun a => if a < min b.size size then b.p a else fresh a
    size := size
    size_lt := hsize }

/-- Where `realloc` gives NULL nothing changes. No value for a size of 0: the
block is freed, and `p_` still points to it.
mirrors server_utils/CBuffer.h:31-40 -/
def resize (block : Option Mem) (size : Nat) (hsize : size < 2 ^ 32) (b : CBuffer) :
    Option CBuffer :=
  if size = 0 then none
  else
    match block with
    | none => some b
    | some fresh => some (b.moved fresh size hsize)

/-- One write after the other. -/
def writeAll (css : List (List UInt8)) (b : CBuffer) : CBuffer :=
  css.foldl (fun b cs => (b.cycleWrite cs).1) b

/-- What is read up to the last byte, where each read takes what `cycleRead`
hands out or the first part of it. -/
inductive Reads : CBuffer → List UInt8 → Prop
  | empty {b : CBuffer} (h : b.len = 0) : Reads b []
  | read {b : CBuffer} {bs : List UInt8} (n : Nat) (pos : 0 < n) (le : n ≤ b.cycleRead.2)
      (rest : Reads (b.commitRead n) bs) : Reads b (slice b.p b.cycleRead.1 n ++ bs)

/-- All ways of reading give `bs`. -/
def Delivers (b : CBuffer) (bs : List UInt8) : Prop := ∀ bs', b.Reads bs' ↔ bs' = bs

/-- `b'` delivers what `b` does, and then what is written to it. -/
def Carries (b b' : CBuffer) : Prop :=
  ∃ bs, b.Delivers bs ∧ b'.Delivers bs ∧
    ∀ css : List (List UInt8), css.flatten.length < b'.left →
      (b'.writeAll css).Delivers (bs ++ css.flatten)

/-- What is asked of `resize`, where `realloc` finds memory. -/
def Kept (b : CBuffer) (fresh : Mem) (size : Nat) (hsize : size < 2 ^ 32) : Prop :=
  ∃ b', b.resize (some fresh) size hsize = some b' ∧
    (b.len ≤ size → b.Carries b') ∧ (size < b.len → b' = b)

/-- The unread bytes have the same places by both sizes, no reduction of a
counter moves them, and none moves what can be written behind them. -/
structure Survives (b : CBuffer) (size : Nat) : Prop where
  pos : 0 < size
  room : b.len ≤ size
  straight : Straight (2 ^ 32) b.size b.head b.len ∧ Straight (2 ^ 32) size b.head b.len
  placed : b.len = 0 ∨ size = b.size ∨
    b.head % b.size = b.head % size ∧ b.head % b.size + b.len ≤ min b.size size
  further : size ∣ 2 ^ 32 ∨ size ≤ b.len + 1 ∨ b.head + size ≤ 2 ^ 32 + 1

/-- They differ in their bytes at most. -/
structure SameCounters (b' b : CBuffer) : Prop where
  size : b'.size = b.size
  head : b'.head = b.head
  tail : b'.tail = b.tail

/-! ## Reading -/

variable {b : CBuffer} {bs : List UInt8}

/-- Reading goes through places of the ring. -/
theorem Reads.visits (hr : b.Reads bs) (h : b.Within) :
    ∃ as, Visits (2 ^ 32) b.size b.head b.len as ∧ bs = as.map b.p := by
  induction hr with
  | empty hlen => exact ⟨[], hlen ▸ .done, rfl⟩
  | @read b bs n hpos hle _ ih =>
    have hm : b.head % b.size < b.size := Nat.mod_lt _ h.pos
    simp only [cycleRead] at hle
    obtain ⟨as, hv, rfl⟩ := ih (h.commitRead (by omega))
    rw [h.len_commitRead (by omega)] at hv
    refine ⟨_, .read n hpos (by omega) (by omega) hv, ?_⟩
    rw [List.map_append, map_piece]
    rfl

theorem reads_of_visits {S hd n : Nat} {as : List Nat} (hv : Visits (2 ^ 32) S hd n as)
    (h : b.Within) (hsize : b.size = S) (hhead : b.head = hd) (hlen : b.len = n) :
    b.Reads (as.map b.p) := by
  induction hv generalizing b with
  | done => exact .empty hlen
  | read m hpos hle hfits _ ih =>
    subst hsize hhead hlen
    have hrest := ih (h.commitRead hle) rfl rfl (h.len_commitRead hle)
    rw [List.map_append, map_piece]
    exact .read m hpos (Nat.le_min.mpr ⟨hle, by omega⟩) hrest

theorem Within.reads_iff (h : b.Within) :
    b.Reads bs ↔ ∃ as, Visits (2 ^ 32) b.size b.head b.len as ∧ bs = as.map b.p := by
  refine ⟨fun hr => hr.visits h, ?_⟩
  rintro ⟨as, hv, rfl⟩
  exact reads_of_visits hv h rfl rfl rfl

/-- Where no reduction of the counter moves the unread bytes, they are delivered
in the order of the ring. -/
theorem Within.delivers (h : b.Within) (hs : Straight (2 ^ 32) b.size b.head b.len) :
    b.Delivers ((places b.size b.head b.len).map b.p) := by
  intro bs'
  rw [h.reads_iff]
  constructor
  · rintro ⟨as, hv, rfl⟩
    rw [visits_places hs hv]
  · rintro rfl
    have hv := visits_ones (n := b.len) h.pos h.head
    exact ⟨_, hv, by rw [visits_places hs hv]⟩

/-- Else some bytes there are not. -/
theorem Within.straight_of_delivers (h : b.Within)
    (hd : ∀ q : Mem, ∃ bs, Delivers { b with p := q } bs) :
    Straight (2 ^ 32) b.size b.head b.len := by
  by_contra hs
  obtain ⟨as, cs, has, hcs, hne⟩ := exists_visits_ne h.pos h.head h.fits hs
  refine hne (eq_of_map_eq fun q => ?_)
  obtain ⟨bs, hbs⟩ := hd q
  have hq : Within { b with p := q } := ⟨h.pos, h.head, h.tail, h.fits⟩
  have hone := (hbs _).mp (reads_of_visits has hq rfl rfl rfl)
  have htwo := (hbs _).mp (reads_of_visits hcs hq rfl rfl rfl)
  exact hone.trans htwo.symm

/-! ## Writing behind what is unread -/

/-- The unread bytes are `bs`, and no reduction of a counter moves them. -/
structure Sits (b : CBuffer) (bs : List UInt8) : Prop extends b.Within where
  len_eq : b.len = bs.length
  bytes : Cyclic b.p b.size b.head bs
  straight : Straight (2 ^ 32) b.size b.head b.len

variable {cs : List UInt8} {css : List (List UInt8)}

theorem Sits.delivers (h : b.Sits bs) : b.Delivers bs := by
  have hd := h.toWithin.delivers h.straight
  rwa [h.len_eq, cyclic_iff.mp h.bytes] at hd

/-- Where the free places begin. -/
theorem Sits.tail_place (h : b.Sits bs)
    (hs : b.size ∣ 2 ^ 32 ∨ b.head + b.len < 2 ^ 32) :
    b.tail % b.size = (b.head + bs.length) % b.size := by
  have hhead := h.head
  have htail := h.tail
  have hmod : b.tail = (b.head + b.len) % 2 ^ 32 := by
    unfold len
    omega
  rw [← h.len_eq, hmod]
  rcases hs with hdvd | hlt
  · exact Nat.mod_mod_of_dvd _ hdvd
  · rw [Nat.mod_eq_of_lt hlt]

theorem Sits.write (h : b.Sits bs) (cs : List UInt8) (hroom : cs.length < b.left)
    (hs : Straight (2 ^ 32) b.size b.head (b.len + cs.length)) :
    (b.cycleWrite cs).1.Sits (bs ++ cs) := by
  have hleft := h.left_eq
  have hlen := h.len_commitWrite (n := cs.length) (by omega)
  have hw := h.commitWrite (n := cs.length) (by omega)
  unfold cycleWrite
  rw [if_pos hroom]
  refine ⟨⟨hw.pos, hw.head, hw.tail, hw.fits⟩, ?_, ?_, ?_⟩
  · rw [List.length_append, ← h.len_eq]
    exact hlen
  · rcases Nat.eq_zero_or_pos cs.length with hnil | hsome
    · rw [List.eq_nil_of_length_eq_zero hnil, wrapWrite_nil, List.append_nil]
      exact h.bytes
    · dsimp only
      have hlen := h.len_eq
      rw [h.tail_place (hs.imp_right fun hsum => by omega)]
      exact h.bytes.write (by omega) h.pos
  · exact hlen ▸ hs

@[simp] theorem head_cycleWrite : (b.cycleWrite cs).1.head = b.head := by
  unfold cycleWrite
  split <;> rfl

/-- Further writes, as long as there is room for all of them. -/
theorem Sits.writeAll (h : b.Sits bs) (hroom : css.flatten.length < b.left)
    (hs : Straight (2 ^ 32) b.size b.head (b.len + css.flatten.length)) :
    (b.writeAll css).Sits (bs ++ css.flatten) := by
  induction css generalizing b bs with
  | nil =>
    rw [List.flatten_nil, List.append_nil]
    exact h
  | cons cs css ih =>
    rw [List.flatten_cons, List.length_append] at hroom hs
    have hput := h.write cs (by omega) (hs.mono (by omega))
    have hlen : (b.cycleWrite cs).1.len = b.len + cs.length := by
      rw [hput.len_eq, List.length_append, h.len_eq]
    have hleft := h.left_eq
    have hleft' := hput.left_eq
    rw [size_cycleWrite, hlen] at hleft'
    have hrest : css.flatten.length < (b.cycleWrite cs).1.left := by omega
    rw [List.flatten_cons, ← List.append_assoc]
    refine ih hput hrest ?_
    rwa [size_cycleWrite, head_cycleWrite, hlen, Nat.add_assoc]

/-! ## What `resize` keeps -/

variable {fresh : Mem} {size : Nat} {hsize : size < 2 ^ 32}

theorem resize_some (hpos : 0 < size) :
    b.resize (some fresh) size hsize = some (b.moved fresh size hsize) := by
  unfold resize
  rw [if_neg (Nat.ne_of_gt hpos)]

theorem Kept.pos (hk : b.Kept fresh size hsize) : 0 < size := by
  obtain ⟨b', hb', -⟩ := hk
  refine Nat.pos_of_ne_zero fun hzero => ?_
  rw [resize, if_pos hzero] at hb'
  cases hb'

/-- A size that does not take what is unread is set nevertheless. -/
theorem Kept.room (hk : b.Kept fresh size hsize) (hfits : b.len ≤ b.size) : b.len ≤ size := by
  have hpos := hk.pos
  obtain ⟨b', hb', -, hsmall⟩ := hk
  refine Nat.le_of_not_lt fun hlt => ?_
  rw [resize_some hpos] at hb'
  cases hb'
  have heq : size = b.size := congrArg CBuffer.size (hsmall hlt)
  omega

theorem Kept.carries (hk : b.Kept fresh size hsize) (hfits : b.len ≤ b.size) :
    b.Carries (b.moved fresh size hsize) := by
  have hroom := hk.room hfits
  have hpos := hk.pos
  obtain ⟨b', hb', hlarge, -⟩ := hk
  rw [resize_some hpos] at hb'
  cases hb'
  exact hlarge hroom

/-- Such a ring is kept. -/
theorem Survives.kept (hk : b.Survives size) (h : b.Within) (fresh : Mem)
    (hsize : size < 2 ^ 32) : b.Kept fresh size hsize := by
  have hroom := hk.room
  obtain ⟨hold, hnew⟩ := hk.straight
  have hplaces := (places_eq_iff (h := b.head) h.pos hk.pos h.fits hroom).mpr hk.placed
  refine ⟨_, resize_some hk.pos, fun _ => ?_, fun hlt => absurd hroom (Nat.not_le_of_lt hlt)⟩
  have hkeep : ∀ a ∈ places b.size b.head b.len, (b.moved fresh size hsize).p a = b.p a := by
    intro a ha
    have hin := lt_of_mem_places h.pos ha
    have hin' := lt_of_mem_places hk.pos (hplaces ▸ ha)
    exact if_pos (Nat.lt_min.mpr ⟨hin, hin'⟩)
  have hsits : (b.moved fresh size hsize).Sits ((places b.size b.head b.len).map b.p) :=
    { pos := hk.pos
      head := h.head
      tail := h.tail
      fits := hroom
      len_eq := by
        rw [List.length_map, length_places]
        rfl
      bytes := by
        rw [cyclic_iff, List.length_map, length_places]
        exact (congrArg _ hplaces.symm).trans (List.map_congr_left hkeep)
      straight := hnew }
  refine ⟨_, h.delivers hold, hsits.delivers, fun css hcss => (hsits.writeAll hcss ?_).delivers⟩
  have hleft := hsits.left_eq
  have hspace : css.flatten.length < size - b.len := Nat.lt_of_lt_of_eq hcss hleft
  change Straight (2 ^ 32) size b.head (b.len + css.flatten.length)
  rcases hk.further with hdvd | hfull | hsum
  · exact .inl hdvd
  · exact hnew.mono (by omega)
  · exact .inr (by omega)

theorem Survives.congr {b' : CBuffer} (hk : b.Survives size)
    (hsame : b'.SameCounters b) : b'.Survives size := by
  have hlen : b'.len = b.len := by rw [len, len, hsame.head, hsame.tail]
  refine ⟨hk.pos, ?_, ?_, ?_, ?_⟩
  · exact hlen ▸ hk.room
  · rw [hlen, hsame.size, hsame.head]
    exact hk.straight
  · rw [hlen, hsame.size, hsame.head]
    exact hk.placed
  · rw [hlen, hsame.head]
    exact hk.further

theorem Delivers.unique {as : List UInt8} (has : b.Delivers as) (hbs : b.Delivers bs) : as = bs :=
  (hbs as).mp ((has as).mpr rfl)

/-- The ring of another size over the same memory. -/
theorem moved_self (q : Mem) (size : Nat) (hsize : size < 2 ^ 32) :
    moved q size hsize { b with p := q } =
      { b with p := q, size := size, size_lt := hsize } := by
  simp [moved]

theorem exists_scatter_same (v : IoVec) (p : Mem) (n : Nat) :
    ∃ cs : List UInt8, cs.length = n ∧ v.scatter cs p = p := by
  refine ⟨slice p v.v0.1 (min v.v0.2 n) ++ slice p v.v1.1 (n - min v.v0.2 n), ?_, ?_⟩
  · rw [List.length_append, length_slice, length_slice, Nat.add_sub_cancel' (Nat.min_le_right _ _)]
  · unfold IoVec.scatter
    rcases Nat.le_total v.v0.2 n with hle | hle
    · rw [Nat.min_eq_left hle, List.take_left' (length_slice _ _ _),
        List.drop_left' (length_slice _ _ _), blit_slice, blit_slice]
    · rw [Nat.min_eq_right hle, Nat.sub_self, slice_zero, List.append_nil,
        List.take_of_length_le (by rwa [length_slice]),
        List.drop_of_length_le (by rwa [length_slice]), blit_slice, blit_nil]

/-- A write of what lies there moves the counter only. -/
theorem exists_cycleWrite_same (b : CBuffer) {n : Nat} (hn : n < b.left) :
    ∃ cs : List UInt8, cs.length = n ∧ b.cycleWrite cs = (b.commitWrite n, true) := by
  obtain ⟨cs, rfl, hsame⟩ := exists_scatter_same (b.writeVec n) b.p n
  exact ⟨cs, rfl, by rw [cycleWrite_eq hn, hsame]⟩

/-- Where what is written is delivered too, the counter moves none of it. -/
theorem Within.straight_of_writes {n : Nat} (h : b.Within) (hn : n < b.left)
    (hd : ∀ q : Mem, ∃ bs, ∀ css : List (List UInt8), css.flatten.length < b.left →
      (writeAll css { b with p := q }).Delivers (bs ++ css.flatten)) :
    Straight (2 ^ 32) b.size b.head (b.len + n) := by
  have hroom : n ≤ b.size - b.len := h.left_eq ▸ Nat.le_of_lt hn
  rw [← h.len_commitWrite hroom]
  refine (h.commitWrite hroom).straight_of_delivers fun q => ?_
  obtain ⟨bs, hbs⟩ := hd q
  obtain ⟨cs, rfl, hsame⟩ := exists_cycleWrite_same { b with p := q } hn
  refine ⟨bs ++ [cs].flatten, ?_⟩
  have hone := hbs [cs] (by rwa [List.flatten_singleton])
  rwa [writeAll, List.foldl_cons, List.foldl_nil, hsame] at hone

/-- No other ring is, with all the bytes it can hold. -/
theorem Within.survives (h : b.Within) (hsize : size < 2 ^ 32)
    (hall : ∀ q : Mem, Kept { b with p := q } q size hsize) : b.Survives size := by
  have hpos := (hall b.p).pos
  have hroom := (hall b.p).room h.fits
  have hcarry : ∀ q : Mem,
      Carries { b with p := q } { b with p := q, size := size, size_lt := hsize } :=
    fun q => moved_self q size hsize ▸ (hall q).carries h.fits
  have hw : ∀ q : Mem, Within { b with p := q } := fun q => ⟨h.pos, h.head, h.tail, h.fits⟩
  have hw' : ∀ q : Mem, Within { b with p := q, size := size, size_lt := hsize } :=
    fun q => ⟨hpos, h.head, h.tail, hroom⟩
  have hold : Straight (2 ^ 32) b.size b.head b.len := h.straight_of_delivers fun q => by
    obtain ⟨bs, hbs, -⟩ := hcarry q
    exact ⟨bs, hbs⟩
  have hnew : Straight (2 ^ 32) size b.head b.len := (hw' b.p).straight_of_delivers fun q => by
    obtain ⟨bs, -, hbs, -⟩ := hcarry q
    exact ⟨bs, hbs⟩
  refine ⟨hpos, hroom, ⟨hold, hnew⟩, ?_, ?_⟩
  · refine (places_eq_iff h.pos hpos h.fits hroom).mp (eq_of_map_eq fun q => ?_)
    obtain ⟨bs, hbs, hbs', -⟩ := hcarry q
    exact (((hw q).delivers hold).unique hbs).trans (hbs'.unique ((hw' q).delivers hnew))
  · -- all the room but one byte is written
    rcases Nat.lt_or_ge (b.len + 1) size with hspace | hfull
    · have hleft : left { b with size := size, size_lt := hsize } = size - b.len :=
        (hw' b.p).left_eq
      have hs := (hw' b.p).straight_of_writes (n := size - b.len - 1) (by omega) fun q => by
        obtain ⟨bs, -, -, hmore⟩ := hcarry q
        exact ⟨bs, hmore⟩
      refine hs.imp_right fun hsum => .inr ?_
      change b.head + (b.len + (size - b.len - 1)) ≤ 2 ^ 32 at hsum
      omega
    · exact .inr (.inl hfull)

end CBuffer

/-! ## The rings that traffic reaches -/

namespace Traffic

variable {s t : Traffic}

/-- One access keeps the bounds, whatever the counters. -/
theorem within_next (h : s.buf.Within) {a : Access} (ha : s.allowed a) :
    (s.next a).buf.Within := by
  have hleft := h.left_eq
  cases a with
  | write bs =>
    rcases Nat.lt_or_ge bs.length s.buf.left with hroom | hroom
    · have hw := h.commitWrite (n := bs.length) (by omega)
      simp only [Traffic.next, CBuffer.cycleWrite_eq hroom]
      exact ⟨hw.pos, hw.head, hw.tail, hw.fits⟩
    · simp only [Traffic.next, CBuffer.cycleWrite_of_le hroom]
      exact h
  | scatter bs =>
    have hroom : bs.length ≤ s.buf.size - s.buf.len := by
      rw [← h.total_leftVec]
      exact ha
    have hw := h.commitWrite hroom
    exact ⟨hw.pos, hw.head, hw.tail, hw.fits⟩
  | read n => exact h.commitRead (Nat.le_trans ha (Nat.min_le_left _ _))
  | gather n =>
    have hle : n ≤ s.buf.len := by
      rw [← h.total_dataVec]
      exact ha
    exact h.commitRead hle

theorem within_reachable (hs : sys.Reachable s) : s.buf.Within := by
  refine sys.invariant (fun s hstart => ?_) (fun s a h ha => within_next h ha) hs
  exact (Inv.start hstart).rings.toWithin

/-- An access that moves the counters as `a` does and writes what lies there. -/
theorem exists_next_with (p : Mem) {a : Access} (ha : s.allowed a)
    (ht : t.buf = { s.buf with p := p }) :
    ∃ a', t.allowed a' ∧ (t.next a').buf = { (s.next a).buf with p := p } := by
  obtain ⟨buf, accepted, got⟩ := t
  change buf = { s.buf with p := p } at ht
  subst ht
  cases a with
  | write bs =>
    rcases Nat.lt_or_ge bs.length s.buf.left with hroom | hroom
    · obtain ⟨cs, hcs, hsame⟩ := CBuffer.exists_cycleWrite_same { s.buf with p := p } hroom
      refine ⟨.write cs, Nat.lt_of_le_of_lt (Nat.le_of_eq hcs) ha, ?_⟩
      simp only [Traffic.next, hsame, CBuffer.cycleWrite_eq hroom]
      rfl
    · refine ⟨.write bs, ha, ?_⟩
      have hroom' : CBuffer.left { s.buf with p := p } ≤ bs.length := hroom
      simp only [Traffic.next, CBuffer.cycleWrite_of_le hroom, CBuffer.cycleWrite_of_le hroom']
  | scatter bs =>
    obtain ⟨cs, hcs, hsame⟩ := CBuffer.exists_scatter_same s.buf.getLeftVec p bs.length
    refine ⟨.scatter cs, Nat.le_trans (Nat.le_of_eq hcs) ha, ?_⟩
    change CBuffer.commitWrite cs.length { s.buf with p := s.buf.getLeftVec.scatter cs p } = _
    rw [hsame, hcs]
    rfl
  | read n => exact ⟨.read n, ha, rfl⟩
  | gather n => exact ⟨.gather n, ha, rfl⟩

/-- The bytes of a reachable ring can be any. -/
theorem reachable_with (p : Mem) (hs : sys.Reachable s) :
    ∃ t, sys.Reachable t ∧ t.buf = { s.buf with p := p } := by
  refine sys.invariant (I := fun s => ∃ t, sys.Reachable t ∧ t.buf = { s.buf with p := p })
    (fun s hstart => ?_) (fun s a h ha => ?_) hs
  · have hs : sys.start { s with buf := { s.buf with p := p } } := hstart
    exact ⟨_, ⟨_, [], hs, trivial, rfl⟩, rfl⟩
  · obtain ⟨t, ht, hbuf⟩ := h
    obtain ⟨a', ha', hnext⟩ := exists_next_with p ha hbuf
    exact ⟨t.next a', ht.next ha', hnext⟩

end Traffic

/-- In every reachable state, rings with these counters keep what is unread and
take further writes behind it exactly when the new size and the counters are so. -/
theorem resize_iff (s : Traffic) (hs : Traffic.sys.Reachable s) (size : Nat)
    (hsize : size < 2 ^ 32) :
    (∀ (t : Traffic) (fresh : Mem), Traffic.sys.Reachable t → t.buf.SameCounters s.buf →
      t.buf.Kept fresh size hsize) ↔ s.buf.Survives size := by
  constructor
  · intro hall
    refine (Traffic.within_reachable hs).survives hsize fun q => ?_
    obtain ⟨t, ht, hbuf⟩ := Traffic.reachable_with q hs
    have hkept := hall t q ht (by rw [hbuf]; exact ⟨rfl, rfl, rfl⟩)
    rwa [hbuf] at hkept
  · intro hk t fresh ht hsame
    exact (hk.congr hsame).kept (Traffic.within_reachable ht) fresh hsize

def fourBytes : Traffic := { buf := { p := fun _ => 0, size := 4, size_lt := by decide } }

theorem reachable_fourBytes (as : List Access) (ha : Traffic.sys.Admits fourBytes as) :
    Traffic.sys.Reachable (Traffic.sys.exec fourBytes as) :=
  ⟨fourBytes, as, ⟨rfl, rfl, by decide, rfl, rfl⟩, ha, rfl⟩

/-- What is unread lies before the end of both blocks. -/
theorem resize_iff_unwrapped :
    (Traffic.sys.exec fourBytes [.write [1, 2, 3], .read 1]).buf.Kept (fun _ => 7) 8 (by decide) :=
  (resize_iff (Traffic.sys.exec fourBytes [.write [1, 2, 3], .read 1])
    (reachable_fourBytes _ (by decide)) 8 (by decide)).mpr
    { pos := by decide
      room := by decide
      straight := by decide
      placed := .inr (.inr (by decide))
      further := .inl (by decide) }
    _ _ (reachable_fourBytes _ (by decide)) ⟨rfl, rfl, rfl⟩

/-- The second byte lies at the start of the block, where the new size does not
look for it. -/
theorem not_kept_wrapped :
    Traffic.sys.Reachable (Traffic.sys.exec fourBytes [.write [1, 2, 3], .read 3, .write [4, 5]]) ∧
      (Traffic.sys.exec fourBytes [.write [1, 2, 3], .read 3, .write [4, 5]]).buf.len = 2 ∧
      ¬(Traffic.sys.exec fourBytes [.write [1, 2, 3], .read 3, .write [4, 5]]).buf.Kept
        (fun _ => 0) 8 (by decide) := by
  refine ⟨reachable_fourBytes _ (by decide), by decide, ?_⟩
  generalize hb : (Traffic.sys.exec fourBytes [.write [1, 2, 3], .read 3, .write [4, 5]]).buf = b
  rintro ⟨b', hb', hlarge, -⟩
  subst hb
  rw [CBuffer.resize_some (by decide)] at hb'
  cases hb'
  obtain ⟨bs, hbefore, hafter, -⟩ := hlarge (by decide)
  have hfour : [4, 5] = bs := (hbefore _).mp
    (.read 1 (by decide) (by decide) (.read 1 (by decide) (by decide) (.empty (by decide))))
  have hlost : [4, 0] = bs := (hafter _).mp
    (.read 2 (by decide) (by decide) (.empty (by decide)))
  rw [← hfour] at hlost
  exact absurd hlost (by decide)

end NatFramework.Signal
