import NatFramework.Lib.Bytes

/-!
# Buffered sockets

`server_utils/CBuffer` and `CService`: a ring of bytes with two `uint32`
counters that only grow, and a connection that queues what it sends there and
cuts what it receives into packages, a head of fixed size first.

* A call of `read` or `write` is a step of its own, which takes the number of
  bytes the socket gives or takes; `read_cb` and `write_cb` are rows of such
  steps. `out` is what the socket has taken.
* `CBuffer.Holds`: the bytes in the ring. It takes counters that have not
  wrapped, or a size that divides `2 ^ 32`.
* `Queued`, `Reading`: what a connection has been given to send, and where it
  stands in a stream of packages; `sendData`, `writeTurn` and `readTurn` keep them.
-/
namespace NatFramework.Signal

open Lib

/-! ## CBuffer -/

/-- mirrors server_utils/CBuffer.h:21-79 -/
structure CBuffer where
  p : Mem
  size : Nat
  head : Nat := 0
  tail : Nat := 0
  size_lt : size < 2 ^ 32

namespace CBuffer

/-- `tail_ - head_`.
mirrors server_utils/CBuffer.h:42 -/
def len (b : CBuffer) : Nat := (2 ^ 32 - b.head + b.tail) % 2 ^ 32

/-- `size_ - len()`.
mirrors server_utils/CBuffer.h:44 -/
def left (b : CBuffer) : Nat := (2 ^ 32 - b.len + b.size) % 2 ^ 32

/-- The room left has to be more than what is written.
mirrors server_utils/CBuffer.cpp:31-43 -/
def cycleWrite (bs : List UInt8) (b : CBuffer) : CBuffer × Bool :=
  if bs.length < b.left then
    ({ b with
        p := wrapWrite b.p b.size (b.tail % b.size) bs
        tail := (b.tail + bs.length) % 2 ^ 32 }, true)
  else (b, false)

/-- Where the unread bytes start, and how many lie in one piece.
mirrors server_utils/CBuffer.cpp:49-53 -/
def cycleRead (b : CBuffer) : Nat × Nat :=
  (b.head % b.size, min b.len (b.size - b.head % b.size))

/-- mirrors server_utils/CBuffer.h:54 -/
def commitRead (n : Nat) (b : CBuffer) : CBuffer := { b with head := (b.head + n) % 2 ^ 32 }

/-- A count whose place in the ring its low 32 bits tell. -/
def Counts (size n : Nat) : Prop := size ∣ 2 ^ 32 ∨ n < 2 ^ 32

theorem Counts.mod {size n : Nat} (h : Counts size n) : n % 2 ^ 32 % size = n % size := by
  rcases h with hdvd | hlt
  · exact Nat.mod_mod_of_dvd n hdvd
  · rw [Nat.mod_eq_of_lt hlt]

theorem Counts.mono {size m n : Nat} (h : Counts size n) (hle : m ≤ n) : Counts size m :=
  h.imp id fun hlt => Nat.lt_of_le_of_lt hle hlt

/-- The ring holds `bs`, of which the first byte is byte `h` of all there were. -/
structure Holds (b : CBuffer) (h : Nat) (bs : List UInt8) : Prop where
  head : b.head = h % 2 ^ 32
  tail : b.tail = (h + bs.length) % 2 ^ 32
  fits : bs.length ≤ b.size
  counts : Counts b.size (h + bs.length)
  bytes : Cyclic b.p b.size h bs

variable {b : CBuffer} {h : Nat} {bs cs : List UInt8}

theorem Holds.len_eq (hb : b.Holds h bs) : b.len = bs.length := by
  have hfits := hb.fits
  have hsize := b.size_lt
  unfold len
  rw [hb.head, hb.tail]
  omega

theorem Holds.left_eq (hb : b.Holds h bs) : b.left = b.size - bs.length := by
  have hfits := hb.fits
  have hsize := b.size_lt
  unfold left
  rw [hb.len_eq]
  omega

/-- A write with room to spare appends its bytes. -/
theorem Holds.cycleWrite (hb : b.Holds h bs) (hroom : cs.length < b.left)
    (hcount : Counts b.size (h + bs.length + cs.length)) :
    (b.cycleWrite cs).2 = true ∧ (b.cycleWrite cs).1.Holds h (bs ++ cs) := by
  have hleft := hb.left_eq
  have hfits := hb.fits
  unfold CBuffer.cycleWrite
  rw [if_pos hroom]
  refine ⟨rfl, hb.head, ?_, ?_, ?_, ?_⟩
  · simp only [List.length_append]
    rw [hb.tail, Nat.mod_add_mod, Nat.add_assoc]
  · simp only [List.length_append]
    omega
  · simpa only [List.length_append, Nat.add_assoc] using hcount
  · simp only
    rw [hb.tail, (hcount.mono (Nat.le_add_right _ _)).mod]
    exact hb.bytes.write (by omega) (by omega)

theorem cycleWrite_of_le (hroom : b.left ≤ cs.length) : b.cycleWrite cs = (b, false) := by
  unfold cycleWrite
  rw [if_neg (Nat.not_lt.mpr hroom)]

@[simp] theorem size_cycleWrite : (b.cycleWrite cs).1.size = b.size := by
  unfold cycleWrite
  split <;> rfl

/-- The piece handed out is the first of the bytes held. -/
theorem Holds.read (hb : b.Holds h bs) {n : Nat} (hn : n ≤ b.cycleRead.2) :
    n ≤ bs.length ∧ slice b.p b.cycleRead.1 n = bs.take n := by
  simp only [cycleRead, hb.len_eq] at hn
  have hplace : b.head % b.size = h % b.size := by
    rw [hb.head, (hb.counts.mono (Nat.le_add_right _ _)).mod]
  rw [hplace] at hn
  have hle : n ≤ bs.length := by omega
  refine ⟨hle, ?_⟩
  simp only [cycleRead, hplace]
  rcases Nat.eq_zero_or_pos n with rfl | hpos
  · simp
  · exact hb.bytes.read hle (by omega)

theorem Holds.commitRead (hb : b.Holds h bs) {n : Nat} (hn : n ≤ bs.length) :
    (b.commitRead n).Holds (h + n) (bs.drop n) where
  head := by
    simp only [CBuffer.commitRead]
    rw [hb.head, Nat.mod_add_mod]
  tail := by
    rw [List.length_drop, show h + n + (bs.length - n) = h + bs.length by omega]
    exact hb.tail
  fits := by
    rw [List.length_drop]
    exact Nat.le_trans (Nat.sub_le _ _) hb.fits
  counts := by
    rw [List.length_drop, show h + n + (bs.length - n) = h + bs.length by omega]
    exact hb.counts
  bytes := hb.bytes.drop n hn

end CBuffer

/-! ## CService -/

/-- mirrors server_utils/CService.h:23-88 -/
structure CService where
  headSize : Nat := 0
  pkgSize : Nat := 0
  /-- `state_ == READ_BODY` -/
  readBody : Bool := false
  /-- `read_buf_.size_` -/
  readSize : Nat
  /-- `read_buf_` up to `tail_` -/
  readBuf : List UInt8 := []
  writeBuf : CBuffer
  /-- the bytes the socket has taken -/
  out : List UInt8 := []

/-- What a call of `read` leads to. -/
inductive ReadOut where
  | more
  /-- `processPkg` is called -/
  | pkg (p : List UInt8)
  /-- the head is refused -/
  | bad
  deriving DecidableEq, Repr

namespace CService

/-- mirrors server_utils/CService.cpp:41-48 -/
def sendData (bs : List UInt8) (s : CService) : CService × Bool :=
  if bs.length ≠ 0 then
    let r := s.writeBuf.cycleWrite bs
    ({ s with writeBuf := r.1 }, r.2)
  else (s, false)

/-- mirrors server_utils/CService.cpp:50-57 -/
def setHeadSize (size : Nat) (s : CService) : CService :=
  if size ≤ s.readSize then { s with headSize := size } else s

/-- One `write` of at most `n + 1` bytes.
mirrors server_utils/CService.cpp:117-139 -/
def writeTurn (n : Nat) (s : CService) : CService :=
  if s.writeBuf.len = 0 then s
  else
    let r := s.writeBuf.cycleRead
    let ret := min (n + 1) r.2
    { s with out := s.out ++ slice s.writeBuf.p r.1 ret, writeBuf := s.writeBuf.commitRead ret }

/-- What `read_cb` asks for. -/
def want (s : CService) : Nat := (if s.readBody then s.pkgSize else s.headSize) - s.readBuf.length

/-- One `read` that gives `bytes`; `processHead` answers the size of the
package, or refuses.
mirrors server_utils/CService.cpp:69-112 -/
def readTurn (processHead : List UInt8 → Option Nat) (bytes : List UInt8) (s : CService) :
    CService × ReadOut :=
  let len := if s.readBody then s.pkgSize else s.headSize
  let s := { s with readBuf := s.readBuf ++ bytes }
  if s.readBuf.length = len then
    match if s.readBody then some s.pkgSize else processHead s.readBuf with
    | none => (s, .bad)
    | some n =>
      let s := { s with pkgSize := n, readBody := true }
      if s.readBuf.length ≥ n then ({ s with readBody := false, readBuf := [] }, .pkg s.readBuf)
      else (s, .more)
  else (s, .more)

/-! ### Sending -/

/-- All of `bytes` was queued, and what the socket has not taken is in the ring. -/
def Queued (s : CService) (bytes : List UInt8) : Prop :=
  ∃ bs, s.writeBuf.Holds s.out.length bs ∧ s.out ++ bs = bytes

variable {s : CService} {bytes piece : List UInt8}

theorem Queued.out_prefix (h : s.Queued bytes) : s.out <+: bytes := by
  obtain ⟨bs, -, rfl⟩ := h
  exact List.prefix_append _ _

theorem Queued.length (h : s.Queued bytes) : s.out.length + s.writeBuf.len = bytes.length := by
  obtain ⟨bs, hb, rfl⟩ := h
  rw [hb.len_eq, List.length_append]

theorem Queued.left (h : s.Queued bytes) : s.writeBuf.left = s.writeBuf.size - s.writeBuf.len := by
  obtain ⟨bs, hb, rfl⟩ := h
  rw [hb.left_eq, hb.len_eq]

theorem Queued.eq_of_len (h : s.Queued bytes) (h0 : s.writeBuf.len = 0) : s.out = bytes := by
  have hlen := h.length
  exact h.out_prefix.eq_of_length (by omega)

/-- A piece that leaves room is queued behind the others. -/
theorem Queued.sendData (h : s.Queued bytes) (hne : piece ≠ []) (hroom : piece.length < s.writeBuf.left)
    (hcount : CBuffer.Counts s.writeBuf.size (bytes.length + piece.length)) :
    (s.sendData piece).2 = true ∧ (s.sendData piece).1.Queued (bytes ++ piece) := by
  obtain ⟨bs, hb, rfl⟩ := h
  rw [List.length_append] at hcount
  obtain ⟨hok, hb'⟩ := hb.cycleWrite hroom hcount
  have hlen : piece.length ≠ 0 := by simpa using hne
  unfold CService.sendData
  rw [if_pos hlen]
  dsimp only
  exact ⟨hok, bs ++ piece, hb', (List.append_assoc _ _ _).symm⟩

theorem sendData_of_le (hroom : s.writeBuf.left ≤ piece.length) : s.sendData piece = (s, false) := by
  unfold CService.sendData
  rw [CBuffer.cycleWrite_of_le hroom]
  split <;> rfl

theorem sendData_nil : s.sendData [] = (s, false) := rfl

/-- A socket takes bytes in the order in which they were queued. -/
theorem Queued.writeTurn (h : s.Queued bytes) (n : Nat) : (s.writeTurn n).Queued bytes := by
  unfold CService.writeTurn
  split
  · exact h
  · obtain ⟨bs, hb, rfl⟩ := h
    obtain ⟨hle, hread⟩ := hb.read (Nat.min_le_right (n + 1) _)
    refine ⟨bs.drop (min (n + 1) s.writeBuf.cycleRead.2), ?_, ?_⟩
    · simp only [List.length_append, length_slice]
      exact hb.commitRead hle
    · simp only [hread, List.append_assoc, List.take_append_drop]

/-! ### What a step leaves alone -/

/-- The reading sides of two states agree. -/
structure SameReading (t s : CService) : Prop where
  headSize : t.headSize = s.headSize
  pkgSize : t.pkgSize = s.pkgSize
  readBody : t.readBody = s.readBody
  readSize : t.readSize = s.readSize
  readBuf : t.readBuf = s.readBuf

theorem SameReading.refl (s : CService) : SameReading s s := ⟨rfl, rfl, rfl, rfl, rfl⟩

theorem SameReading.trans {r s t : CService} (h : SameReading r s) (h' : SameReading s t) :
    SameReading r t :=
  ⟨h.headSize.trans h'.headSize, h.pkgSize.trans h'.pkgSize, h.readBody.trans h'.readBody,
    h.readSize.trans h'.readSize, h.readBuf.trans h'.readBuf⟩

/-- Sending does not touch the reading side, nor the size of the buffer. -/
theorem sameReading_sendData (piece : List UInt8) (s : CService) :
    SameReading (s.sendData piece).1 s := by
  unfold CService.sendData
  split <;> exact ⟨rfl, rfl, rfl, rfl, rfl⟩

theorem sameReading_writeTurn (n : Nat) (s : CService) : SameReading (s.writeTurn n) s := by
  unfold CService.writeTurn
  split <;> exact ⟨rfl, rfl, rfl, rfl, rfl⟩

@[simp] theorem size_sendData (piece : List UInt8) (s : CService) :
    (s.sendData piece).1.writeBuf.size = s.writeBuf.size := by
  unfold CService.sendData
  split
  · exact CBuffer.size_cycleWrite
  · rfl

@[simp] theorem out_sendData (piece : List UInt8) (s : CService) :
    (s.sendData piece).1.out = s.out := by
  unfold CService.sendData
  split <;> rfl

@[simp] theorem size_writeTurn (n : Nat) (s : CService) :
    (s.writeTurn n).writeBuf.size = s.writeBuf.size := by
  unfold CService.writeTurn
  split <;> rfl

/-! ### Receiving -/

/-- A package: its head tells its size, and it is at least the head. -/
def WellFormed (processHead : List UInt8 → Option Nat) (headSize : Nat) (p : List UInt8) : Prop :=
  ∃ n, processHead (p.take headSize) = some n ∧ p.length = max headSize n

/-- After `got` bytes of a stream of packages `done` have been processed and
`rest` have not; the buffer has the start of `rest`. -/
structure Reading (processHead : List UInt8 → Option Nat) (s : CService) (got : Nat)
    (done rest : List (List UInt8)) : Prop where
  got : got = done.flatten.length + s.readBuf.length
  buf : s.readBuf <+: rest.flatten
  head : s.readBody = false → s.readBuf.length < s.headSize ∨ s.readBuf = []
  body : s.readBody = true → s.headSize ≤ s.readBuf.length ∧ s.readBuf.length < s.pkgSize ∧
    ∃ p ps, rest = p :: ps ∧ processHead (p.take s.headSize) = some s.pkgSize

variable {processHead : List UInt8 → Option Nat} {got : Nat} {done rest : List (List UInt8)}

/-- The reading side is all that counts. -/
theorem Reading.congr (h : Reading processHead s got done rest) {t : CService}
    (ht : SameReading t s) : Reading processHead t got done rest := by
  refine ⟨?_, ?_, ?_, ?_⟩
  · rw [ht.readBuf]
    exact h.got
  · rw [ht.readBuf]
    exact h.buf
  · rw [ht.readBody, ht.readBuf, ht.headSize]
    exact h.head
  · rw [ht.readBody, ht.readBuf, ht.headSize, ht.pkgSize]
    exact h.body

/-- More packages in the stream. -/
theorem Reading.append (h : Reading processHead s got done rest) (more : List (List UInt8)) :
    Reading processHead s got done (rest ++ more) := by
  refine ⟨h.got, ?_, h.head, fun hb => ?_⟩
  · rw [List.flatten_append]
    exact h.buf.trans (List.prefix_append _ _)
  · obtain ⟨hle, hlt, p, ps, rfl, hp⟩ := h.body hb
    exact ⟨hle, hlt, p, ps ++ more, rfl, hp⟩

/-- One `read` of the next bytes of the stream processes at most the next
package, whole, and refuses nothing. -/
theorem Reading.readTurn (h : Reading processHead s got done rest)
    (hwf : ∀ p ∈ rest, WellFormed processHead s.headSize p) (hne : bytes ≠ [])
    (hwant : bytes.length ≤ s.want) (hnext : s.readBuf ++ bytes <+: rest.flatten) :
    match s.readTurn processHead bytes with
    | (t, .more) => Reading processHead t (got + bytes.length) done rest
    | (t, .pkg p) => ∃ ps, rest = p :: ps ∧
        Reading processHead t (got + bytes.length) (done ++ [p]) ps
    | (_, .bad) => False := by
  have hpos : 0 < bytes.length := List.length_pos_of_ne_nil hne
  have hgot := h.got
  obtain ⟨p, ps, rfl⟩ : ∃ p ps, rest = p :: ps := by
    cases rest with
    | nil =>
      have hnil := List.prefix_nil.mp hnext
      simp [hne] at hnil
    | cons p ps => exact ⟨p, ps, rfl⟩
  obtain ⟨n, hn, hlen⟩ := hwf p List.mem_cons_self
  rw [List.flatten_cons] at hnext
  have hbuf' : (s.readBuf ++ bytes).length = s.readBuf.length + bytes.length := List.length_append
  -- as long as the buffer is no longer than the package, it is its start
  have hstart : (s.readBuf ++ bytes).length ≤ p.length → s.readBuf ++ bytes <+: p :=
    fun hle => List.prefix_of_prefix_length_le hnext (List.prefix_append p ps.flatten) hle
  have hmore : (s.readBuf ++ bytes) <+: (p :: ps).flatten := by rwa [List.flatten_cons]
  unfold want at hwant
  unfold CService.readTurn
  cases hbody : s.readBody with
  | false =>
    simp only [hbody, Bool.false_eq_true, if_false] at hwant ⊢
    have hhead : s.readBuf.length < s.headSize := by omega
    have hpre := hstart (by omega)
    by_cases hfull : (s.readBuf ++ bytes).length = s.headSize
    · have htake : s.readBuf ++ bytes = p.take s.headSize := by
        rw [← hfull]
        exact List.prefix_iff_eq_take.mp hpre
      rw [if_pos hfull]
      simp only [htake, hn]
      rw [← htake]
      by_cases hsmall : (s.readBuf ++ bytes).length ≥ n
      · rw [if_pos hsmall]
        have hp : s.readBuf ++ bytes = p := hpre.eq_of_length (by omega)
        refine ⟨ps, by rw [hp], ?_, List.nil_prefix, fun _ => Or.inr rfl, fun hb => (by cases hb)⟩
        rw [hp] at hbuf'
        simp only [List.flatten_append, List.flatten_cons, List.flatten_nil, List.append_nil,
          List.length_append, hp, List.length_nil]
        omega
      · rw [if_neg hsmall]
        refine ⟨by simp only; omega, hmore, fun hb => (by cases hb), fun _ => ?_⟩
        simp only
        exact ⟨by omega, by omega, p, ps, rfl, hn⟩
    · rw [if_neg hfull]
      exact ⟨by simp only; omega, hmore, fun _ => Or.inl (by simp only; omega), fun hb => (by cases hb)⟩
  | true =>
    obtain ⟨hle, hlt, p', ps', heq, hp'⟩ := h.body hbody
    obtain ⟨rfl, rfl⟩ := List.cons.inj heq
    rw [hp'] at hn
    obtain rfl := Option.some.inj hn
    simp only [hbody, if_true] at hwant ⊢
    have hpre := hstart (by omega)
    by_cases hfull : (s.readBuf ++ bytes).length = s.pkgSize
    · rw [if_pos hfull, if_pos (by omega)]
      have hp : s.readBuf ++ bytes = p := hpre.eq_of_length (by omega)
      refine ⟨ps, by rw [hp], ?_, List.nil_prefix, fun _ => Or.inr rfl, fun hb => (by cases hb)⟩
      rw [hp] at hbuf'
      simp only [List.flatten_append, List.flatten_cons, List.flatten_nil, List.append_nil,
        List.length_append, hp, List.length_nil]
      omega
    · rw [if_neg hfull]
      refine ⟨by simp only; omega, hmore, fun hb => (by cases hb), fun _ => ?_⟩
      simp only
      exact ⟨by omega, by omega, p, ps, rfl, hp'⟩

/-- A stream that has been read to its end has been processed to its end. -/
theorem Reading.complete (h : Reading processHead s got done rest)
    (hwf : ∀ p ∈ rest, WellFormed processHead s.headSize p) (hne : ∀ p ∈ rest, p ≠ [])
    (hend : s.readBuf = rest.flatten) : rest = [] := by
  cases rest with
  | nil => rfl
  | cons p ps =>
    exfalso
    obtain ⟨n, hn, hlen⟩ := hwf p List.mem_cons_self
    have hpos : 0 < p.length := List.length_pos_of_ne_nil (hne p List.mem_cons_self)
    have hbuf : s.readBuf.length = p.length + ps.flatten.length := by
      rw [hend, List.flatten_cons, List.length_append]
    cases hbody : s.readBody with
    | false =>
      rcases h.head hbody with hlt | hnil
      · omega
      · rw [hnil, List.length_nil] at hbuf
        omega
    | true =>
      obtain ⟨hle, hlt, p', ps', heq, hp'⟩ := h.body hbody
      obtain ⟨rfl, rfl⟩ := List.cons.inj heq
      rw [hp'] at hn
      obtain rfl := Option.some.inj hn
      omega

/-- `readTurn` does not touch the sending side, nor the sizes. -/
theorem readTurn_sending (processHead : List UInt8 → Option Nat) (bytes : List UInt8)
    (s : CService) :
    (s.readTurn processHead bytes).1.writeBuf = s.writeBuf ∧
      (s.readTurn processHead bytes).1.out = s.out ∧
      (s.readTurn processHead bytes).1.headSize = s.headSize ∧
      (s.readTurn processHead bytes).1.readSize = s.readSize := by
  unfold CService.readTurn
  simp only
  repeat' split
  all_goals exact ⟨rfl, rfl, rfl, rfl⟩

end CService

end NatFramework.Signal
