import NatFramework.Logger.CFastLog

/-!
# The logger's ring buffer is a queue

Two shapes of the buffer: `Flat`, the records lie between `read_pos_` and
`write_pos_`; `Wrapped`, they go on from the mark at `m` at the start of the buffer.
`write` loads `read_pos_` more than once; when it stands before `write_pos_` at the
first load, the consumer may go back to 0 before the second, and the subtraction
wraps (`Overruns`, when the record has no room).

* `LogOk`: the shape, and what either side knows at its next step; `LogOk.writeStep`
  and `LogOk.readStep` keep it.
* `log_queue`: every run that does not meet the turn with a record that has no room.
* `turned_overruns`: one that does, and writes behind the end of the buffer.
-/
namespace NatFramework.Logger

open Lib

theorem length_bytes (r : LogRecord) : r.bytes.length = r.data.length + 1 := rfl

theorem sub32_of_le {a b : Nat} (h : b ≤ a) (ha : a < 2 ^ 32) : sub32 a b = a - b := by
  unfold sub32
  omega

theorem add32_of_lt {a b : Nat} (h : a + b < 2 ^ 32) : add32 a b = a + b := Nat.mod_eq_of_lt h

/-! ## The shapes of the buffer -/

abbrev Records (buf : Mem) (a : Nat) (live : List (Nat × LogRecord)) (b : Nat) : Prop :=
  Tiles LogRecord.bytes buf a live b

/-- No mark is needed: the records end where the producer is. -/
structure Flat (l : CFastLog) (live : List (Nat × LogRecord)) : Prop where
  records : Records l.buf l.readPos live l.writePos
  write_le : l.writePos ≤ l.bufSize
  write_lt : l.readPos = 0 → l.writePos < l.bufSize

/-- The records reach the mark at `m` and go on from 0 to the producer. -/
structure Wrapped (l : CFastLog) (live : List (Nat × LogRecord)) (m : Nat)
    (first second : List (Nat × LogRecord)) : Prop where
  live_eq : live = first ++ second
  first : Records l.buf l.readPos first m
  second : Records l.buf 0 second l.writePos
  write_pos : 0 < l.writePos
  write_lt : l.writePos < l.readPos
  mark_le : m ≤ l.bufSize
  mark : l.buf m = logFromHead

def Shaped (l : CFastLog) (live : List (Nat × LogRecord)) : Prop :=
  Flat l live ∨ ∃ m first second, Wrapped l live m first second

variable {l : CFastLog} {live : List (Nat × LogRecord)} {m : Nat}
  {first second : List (Nat × LogRecord)} {r : LogRecord}

theorem Flat.read_le (h : Flat l live) : l.readPos ≤ l.writePos := h.records.le

theorem Wrapped.read_le (h : Wrapped l live m first second) : l.readPos ≤ m := h.first.le

/-- The position of the consumer tells the shape. -/
theorem Shaped.flat (h : Shaped l live) (hle : l.readPos ≤ l.writePos) : Flat l live := by
  rcases h with hflat | ⟨m, first, second, hwrap⟩
  · exact hflat
  · have := hwrap.write_lt
    omega

theorem Shaped.wrapped (h : Shaped l live) (hlt : l.writePos < l.readPos) :
    ∃ m first second, Wrapped l live m first second := by
  rcases h with hflat | hwrap
  · have := hflat.read_le
    omega
  · exact hwrap

/-- A record that lies where the consumer is. -/
theorem head_tag {buf : Mem} {a : Nat} (h : slice buf a r.bytes.length = r.bytes) :
    buf a = r.tag ∧ slice buf (a + 1) r.data.length = r.data := by
  rw [length_bytes, Nat.add_comm, slice_add, LogRecord.bytes] at h
  have hone : slice buf a 1 = [buf a] := by simp [slice]
  rw [hone, List.cons_append, List.nil_append, List.cons.injEq] at h
  exact h

/-- What the consumer meets: a record, or the mark and no record before it. -/
theorem Shaped.head (h : Shaped l live) (htags : ∀ x ∈ live, x.2.tag ≠ logFromHead)
    (hne : l.readPos ≠ l.writePos) :
    (l.buf l.readPos = logFromHead ∧ ∃ second, Wrapped l live l.readPos [] second) ∨
      l.buf l.readPos ≠ logFromHead ∧ ∃ r rest, live = (l.readPos, r) :: rest ∧
        slice l.buf l.readPos r.bytes.length = r.bytes := by
  rcases h with hflat | ⟨m, first, second, hwrap⟩
  · obtain ⟨r, rest, hlive, hbytes, -⟩ := hflat.records.exists_cons hne
    refine .inr ⟨?_, r, rest, hlive, hbytes⟩
    rw [(head_tag hbytes).1]
    exact htags _ (hlive ▸ List.mem_cons_self)
  · by_cases hm : l.readPos = m
    · have hnil : first = [] := by
        have hfirst := hwrap.first
        rw [hm] at hfirst
        exact hfirst.eq_nil fun r => List.cons_ne_nil _ _
      subst hm
      subst hnil
      exact .inl ⟨hwrap.mark, second, hwrap⟩
    · obtain ⟨r, rest, hfirst, hbytes, -⟩ := hwrap.first.exists_cons hm
      have hlive : live = (l.readPos, r) :: (rest ++ second) := by
        rw [hwrap.live_eq, hfirst, List.cons_append]
      refine .inr ⟨?_, r, _, hlive, hbytes⟩
      rw [(head_tag hbytes).1]
      exact htags _ (hlive ▸ List.mem_cons_self)

/-! ## The consumer's changes -/

/-- Back to 0 from the mark. -/
theorem Wrapped.jump (h : Wrapped l live l.readPos [] second) : Flat { l with readPos := 0 } live := by
  have hlt := h.write_lt
  have hle := h.mark_le
  refine ⟨?_, ?_, ?_⟩
  · rw [h.live_eq]
    exact h.second
  · dsimp only
    omega
  · dsimp only
    omega

/-- The record at the consumer is committed. -/
theorem Flat.commit {rest : List (Nat × LogRecord)} (h : Flat l ((l.readPos, r) :: rest)) :
    Flat { l with readPos := l.readPos + r.bytes.length } rest := by
  refine ⟨h.records.2.2, h.write_le, fun h0 => ?_⟩
  dsimp only at h0
  rw [length_bytes] at h0
  omega

theorem Wrapped.commit {rest : List (Nat × LogRecord)}
    (h : Wrapped l ((l.readPos, r) :: rest) m first second) :
    ∃ first', Wrapped { l with readPos := l.readPos + r.bytes.length } rest m first' second := by
  have hlt := h.write_lt
  cases first with
  | nil =>
    -- the first record is at 0, where the consumer is not
    have hlive : (l.readPos, r) :: rest = second := h.live_eq
    have hplace := h.second
    rw [← hlive] at hplace
    have : l.readPos = 0 := hplace.1
    omega
  | cons x first =>
    have hlive := h.live_eq
    rw [List.cons_append, List.cons.injEq] at hlive
    obtain ⟨rfl, hrest⟩ := hlive
    refine ⟨first, hrest, h.first.2.2, h.second, h.write_pos, ?_, h.mark_le, h.mark⟩
    dsimp only
    omega

/-- How far a committed record reaches. -/
theorem Shaped.commit {rest : List (Nat × LogRecord)} (h : Shaped l ((l.readPos, r) :: rest)) :
    l.readPos + r.bytes.length ≤ l.bufSize ∧
      Shaped { l with readPos := l.readPos + r.bytes.length } rest := by
  rcases h with hflat | ⟨m, first, second, hwrap⟩
  · have hle := hflat.write_le
    have hreach := hflat.commit.read_le
    dsimp only at hreach
    exact ⟨by omega, .inl hflat.commit⟩
  · obtain ⟨first', hwrap'⟩ := hwrap.commit
    have hle := hwrap.mark_le
    have hreach := hwrap'.read_le
    dsimp only at hreach
    exact ⟨by omega, .inr ⟨m, first', second, hwrap'⟩⟩

/-! ## Where the producer may write -/

/-- The place `start` for a record: behind the others up to the byte that is kept,
before the consumer, or at the start of the buffer, the mark being set. -/
inductive Slot (l : CFastLog) (live : List (Nat × LogRecord)) (r : LogRecord) : Nat → Prop
  | behind : Flat l live → l.writePos + r.bytes.length ≤ l.bufSize →
    (l.readPos = 0 → l.writePos + r.bytes.length < l.bufSize) → Slot l live r l.writePos
  | before {m : Nat} {first second : List (Nat × LogRecord)} : Wrapped l live m first second →
    l.writePos + r.bytes.length < l.readPos → Slot l live r l.writePos
  | start : Flat l live → l.buf l.writePos = logFromHead → r.bytes.length < l.readPos →
    Slot l live r 0

/-- The records that are alive lie elsewhere. -/
theorem Flat.place_le (h : Flat l live) {x : Nat × LogRecord} (hx : x ∈ live) :
    l.readPos ≤ x.1 ∧ x.1 + x.2.bytes.length ≤ l.writePos := h.records.place_le hx

theorem Wrapped.place_le (h : Wrapped l live m first second) {x : Nat × LogRecord} (hx : x ∈ live) :
    l.readPos ≤ x.1 ∨ x.1 + x.2.bytes.length ≤ l.writePos := by
  rw [h.live_eq] at hx
  rcases List.mem_append.mp hx with hx | hx
  · exact .inl (h.first.place_le hx).1
  · exact .inr (h.second.place_le hx).2

namespace Slot

variable {start : Nat}

theorem le (h : Slot l live r start) : start + r.bytes.length ≤ l.bufSize := by
  cases h with
  | behind hflat hle _ => exact hle
  | before hwrap hlt =>
    have := hwrap.read_le
    have := hwrap.mark_le
    omega
  | start hflat _ hlt =>
    have := hflat.read_le
    have := hflat.write_le
    omega

theorem outside (h : Slot l live r start) {x : Nat × LogRecord} (hx : x ∈ live) {a : Nat}
    (ha : start ≤ a ∧ a < start + r.bytes.length) :
    ¬(x.1 ≤ a ∧ a < x.1 + x.2.bytes.length) := by
  cases h with
  | behind hflat _ _ =>
    have := hflat.place_le hx
    omega
  | before hwrap hlt =>
    have := hwrap.place_le hx
    omega
  | start hflat _ hlt =>
    have := hflat.place_le hx
    omega

/-- The consumer does not read there. -/
theorem read_ne (h : Slot l live r start) (hne : l.readPos ≠ l.writePos) :
    l.readPos < start ∨ start + r.bytes.length ≤ l.readPos := by
  cases h with
  | behind hflat _ _ =>
    have := hflat.read_le
    omega
  | before hwrap hlt => omega
  | start hflat _ hlt => omega

end Slot

/-- A write that meets no record. -/
theorem Flat.blit (h : Flat l live) {o : Nat} {bs : List UInt8}
    (ho : o + bs.length ≤ l.readPos ∨ l.writePos ≤ o) :
    Flat { l with buf := blit l.buf o bs } live :=
  ⟨h.records.congr fun _ _ _ => blit_outside (by omega), h.write_le, h.write_lt⟩

theorem Wrapped.blit (h : Wrapped l live m first second) {o : Nat} {bs : List UInt8}
    (ho : l.writePos ≤ o ∧ o + bs.length < l.readPos) :
    Wrapped { l with buf := blit l.buf o bs } live m first second := by
  have hle := h.read_le
  refine ⟨h.live_eq, h.first.congr fun _ _ _ => blit_outside (by omega),
    h.second.congr fun _ _ _ => blit_outside (by omega), h.write_pos, h.write_lt, h.mark_le, ?_⟩
  dsimp only
  rw [blit_outside (by omega)]
  exact h.mark

/-- The record is written to its place. -/
theorem Slot.blit {start : Nat} (h : Slot l live r start) :
    Slot { l with buf := blit l.buf start r.bytes } live r start := by
  cases h with
  | behind hflat hle hlt => exact .behind (hflat.blit (.inr (Nat.le_refl _))) hle hlt
  | before hwrap hlt => exact .before (hwrap.blit ⟨Nat.le_refl _, hlt⟩) hlt
  | start hflat hmark hlt =>
    have hread := hflat.read_le
    refine .start (hflat.blit (.inl (by omega))) ?_ hlt
    dsimp only
    rw [blit_outside (by omega)]
    exact hmark

theorem Slot.shaped {start : Nat} (h : Slot l live r start) : Shaped l live := by
  cases h with
  | behind hflat _ _ => exact .inl hflat
  | before hwrap _ => exact .inr ⟨_, _, _, hwrap⟩
  | start hflat _ _ => exact .inl hflat

/-- And becomes one of the records. -/
theorem Slot.publish {start : Nat} (h : Slot l live r start)
    (hbytes : slice l.buf start r.bytes.length = r.bytes) :
    Shaped { l with writePos := start + r.bytes.length } (live ++ [(start, r)]) ∧
      (l.readPos ≠ l.writePos → l.readPos ≠ start + r.bytes.length) := by
  have hpos : 0 < r.bytes.length := by
    rw [length_bytes]
    omega
  cases h with
  | behind hflat hle hlt =>
    have := hflat.read_le
    exact ⟨.inl ⟨hflat.records.concat hbytes, hle, hlt⟩, fun _ => by omega⟩
  | before hwrap hlt =>
    refine ⟨.inr ⟨_, _, _, ?_, hwrap.first, hwrap.second.concat hbytes, ?_, hlt, hwrap.mark_le,
      hwrap.mark⟩, fun _ => by omega⟩
    · rw [hwrap.live_eq, List.append_assoc]
    · dsimp only
      omega
  | start hflat hmark hlt =>
    have hsecond : Records l.buf 0 [(0, r)] (0 + r.bytes.length) := ⟨rfl, hbytes, rfl⟩
    refine ⟨.inr ⟨l.writePos, live, [(0, r)], rfl, hflat.records, hsecond, ?_, ?_, hflat.write_le,
      hmark⟩, fun _ => by omega⟩
    · dsimp only
      omega
    · dsimp only
      omega

/-- The consumer's moves leave the place as it is. -/
theorem Slot.jump {start : Nat} (h : Slot l live r start)
    (hwrap : Wrapped l live l.readPos [] second) : Slot { l with readPos := 0 } live r start := by
  have hlt := hwrap.write_lt
  have hle := hwrap.mark_le
  cases h with
  | behind hflat _ _ =>
    have := hflat.read_le
    omega
  | before _ hroom => exact .behind hwrap.jump (by dsimp only; omega) (by dsimp only; omega)
  | start hflat _ _ =>
    have := hflat.read_le
    omega

theorem Slot.commit {start : Nat} {r' : LogRecord} {rest : List (Nat × LogRecord)}
    (h : Slot l ((l.readPos, r') :: rest) r start) :
    Slot { l with readPos := l.readPos + r'.bytes.length } rest r start := by
  cases h with
  | behind hflat hle _ =>
    refine .behind hflat.commit hle fun h0 => ?_
    dsimp only at h0
    rw [length_bytes] at h0
    omega
  | before hwrap hroom =>
    obtain ⟨first', hwrap'⟩ := hwrap.commit
    exact .before hwrap' (by dsimp only; omega)
  | start hflat hmark hlt => exact .start hflat.commit hmark (by dsimp only; omega)

/-! ## The invariant -/

variable {fmt : UInt8 → Mem → Nat → Nat}

/-- A record that may be written. -/
def Ready (fmt : UInt8 → Mem → Nat → Nat) (r : LogRecord) : Prop :=
  r.data.length < 2 ^ 32 ∧ Formats fmt r

/-- What the producer knows. -/
def WriterOk (fmt : UInt8 → Mem → Nat → Nat) (l : CFastLog) (live : List (Nat × LogRecord)) :
    Writer → Prop
  | .idle => True
  | .enter r => Ready fmt r
  | .compare r wpos | .ahead r wpos => Ready fmt r ∧ wpos = l.writePos
  | .behind r wpos | .wrap r wpos => Ready fmt r ∧ wpos = l.writePos ∧ Flat l live
  | .wrapLeft r wpos => Ready fmt r ∧ wpos = l.writePos ∧ Flat l live ∧ l.readPos ≠ 0
  | .mark r wpos =>
    Ready fmt r ∧ wpos = l.writePos ∧ Flat l live ∧ r.bytes.length < l.readPos
  | .place r wpos => Ready fmt r ∧ Slot l live r wpos
  | .publish r start =>
    Ready fmt r ∧ Slot l live r start ∧ slice l.buf start r.bytes.length = r.bytes

/-- What the consumer knows. -/
def ReaderOk (l : CFastLog) (live : List (Nat × LogRecord)) : Reader → Prop
  | .idle => True
  | .other rpos => rpos = l.readPos
  | .check => l.readPos ≠ l.writePos
  | .jump => l.readPos ≠ l.writePos ∧ l.buf l.readPos = logFromHead
  | .locate => l.readPos ≠ l.writePos ∧ l.buf l.readPos ≠ logFromHead
  | .format p => p = l.readPos ∧ l.readPos ≠ l.writePos ∧ l.buf l.readPos ≠ logFromHead
  | .commit n => ∃ r rest, live = (l.readPos, r) :: rest ∧ n = r.bytes.length
  | .store rpos => ∃ r rest, live = (l.readPos, r) :: rest ∧ rpos = l.readPos + r.bytes.length

/-- The records that the consumer has not formatted. -/
def unseen (reader : Reader) (live : List (Nat × LogRecord)) : List LogRecord :=
  match reader with
  | .commit _ | .store _ => live.tail.map Prod.snd
  | _ => live.map Prod.snd

structure LogOk (fmt : UInt8 → Mem → Nat → Nat) (s : LogRun) : Prop where
  size_lt : s.log.bufSize < 2 ^ 32
  shaped : Shaped s.log s.live
  formats : ∀ x ∈ s.live, Formats fmt x.2
  writer : WriterOk fmt s.log s.live s.writer
  reader : ReaderOk s.log s.live s.reader
  accepted : s.accepted = s.seen ++ unseen s.reader s.live

/-- The consumer knows it still when the producer has moved. -/
theorem ReaderOk.mono {l' : CFastLog} {reader : Reader} {new : List (Nat × LogRecord)}
    (h : ReaderOk l live reader) (hread : l'.readPos = l.readPos)
    (hne : l.readPos ≠ l.writePos → l.readPos ≠ l'.writePos ∧ l'.buf l.readPos = l.buf l.readPos) :
    ReaderOk l' (live ++ new) reader := by
  cases reader with
  | idle => trivial
  | other rpos => exact h.trans hread.symm
  | check =>
    have hnew := hne h
    simp only [ReaderOk, hread]
    exact hnew.1
  | jump =>
    have hnew := hne h.1
    simp only [ReaderOk, hread, hnew.2]
    exact ⟨hnew.1, h.2⟩
  | locate =>
    have hnew := hne h.1
    simp only [ReaderOk, hread, hnew.2]
    exact ⟨hnew.1, h.2⟩
  | format p =>
    have hnew := hne h.2.1
    simp only [ReaderOk, hread, hnew.2]
    exact ⟨h.1, hnew.1, h.2.2⟩
  | commit n =>
    obtain ⟨r, rest, rfl, hn⟩ := h
    exact ⟨r, rest ++ new, by rw [hread, List.cons_append], hn⟩
  | store rpos =>
    obtain ⟨r, rest, rfl, hpos⟩ := h
    exact ⟨r, rest ++ new, by rw [hread, List.cons_append], by rw [hread]; exact hpos⟩

theorem unseen_append {reader : Reader} (h : ReaderOk l live reader) (new : List (Nat × LogRecord)) :
    unseen reader (live ++ new) = unseen reader live ++ new.map Prod.snd := by
  cases reader with
  | commit n =>
    obtain ⟨r, rest, rfl, -⟩ := h
    exact List.map_append
  | store rpos =>
    obtain ⟨r, rest, rfl, -⟩ := h
    exact List.map_append
  | _ => exact List.map_append

namespace LogOk

variable {s : LogRun}

theorem start {buf : Mem} {bufsize : Nat} (hsize : 2 ≤ bufsize) (hlt : bufsize < 2 ^ 32) :
    LogOk fmt { log := .init buf bufsize } := by
  have hbuf : (CFastLog.init buf bufsize).bufSize = bufsize - 1 := sub32_of_le (by omega) hlt
  refine ⟨by rw [hbuf]; omega, .inl ⟨rfl, ?_, fun _ => ?_⟩, fun _ hx => (nomatch hx), trivial, trivial,
    rfl⟩
  · exact Nat.zero_le _
  · change 0 < (CFastLog.init buf bufsize).bufSize
    rw [hbuf]
    omega

theorem write (h : LogOk fmt s) {r : LogRecord} (hr : Ready fmt r) :
    LogOk fmt { s with writer := .enter r } :=
  ⟨h.size_lt, h.shaped, h.formats, hr, h.reader, h.accepted⟩

/-- A step of the producer that only reads. -/
theorem move (h : LogOk fmt s) {w : Writer} (hw : WriterOk fmt s.log s.live w) :
    LogOk fmt { s with writer := w } :=
  ⟨h.size_lt, h.shaped, h.formats, hw, h.reader, h.accepted⟩

/-- The room of the first branch. -/
theorem slot_of_spare (hsize : l.bufSize < 2 ^ 32) (h : Flat l live)
    (hroom : r.data.length < l.spare l.writePos) : Slot l live r l.writePos := by
  have hle := h.write_le
  have hlt := h.write_lt
  unfold CFastLog.spare at hroom
  rw [sub32_of_le hle hsize] at hroom
  by_cases h0 : l.readPos = 0
  · have := hlt h0
    rw [if_neg (not_not.mpr h0), sub32_of_le (by omega) (by omega)] at hroom
    exact .behind h (by rw [length_bytes]; omega) (by rw [length_bytes]; omega)
  · rw [if_pos h0] at hroom
    exact .behind h (by rw [length_bytes]; omega) (fun hz => absurd hz h0)

end LogOk

/-- The consumer has gone back to 0 since the producer found it ahead, and the
record has no room behind the producer. -/
def Overruns (s : LogRun) : Prop :=
  match s.writer with
  | .ahead r wpos => s.log.readPos ≤ wpos ∧ s.log.spare wpos ≤ r.data.length
  | _ => False

instance : DecidablePred Overruns := fun s => by
  unfold Overruns
  split <;> infer_instance

namespace LogOk

variable {s : LogRun}

/-- The producer writes into the buffer. -/
theorem fill (h : LogOk fmt s) {o : Nat} {bs : List UInt8} {w : Writer}
    (hshaped : Shaped { s.log with buf := blit s.log.buf o bs } s.live)
    (hw : WriterOk fmt { s.log with buf := blit s.log.buf o bs } s.live w)
    (hread : s.log.readPos ≠ s.log.writePos → s.log.readPos < o ∨ o + bs.length ≤ s.log.readPos) :
    LogOk fmt { s with log := { s.log with buf := blit s.log.buf o bs }, writer := w } := by
  refine ⟨h.size_lt, hshaped, h.formats, hw, ?_, h.accepted⟩
  have hreader : ReaderOk { s.log with buf := blit s.log.buf o bs } (s.live ++ []) s.reader :=
    h.reader.mono rfl fun hne => ⟨hne, blit_outside (hread hne)⟩
  rwa [List.append_nil] at hreader

theorem writeStep (h : LogOk fmt s) (hno : ¬Overruns s) : LogOk fmt s.writeStep := by
  have hok := h.writer
  have hsize := h.size_lt
  unfold LogRun.writeStep
  cases hw : s.writer with
  | idle => exact h
  | enter r =>
    rw [hw] at hok
    exact h.move ⟨hok, rfl⟩
  | compare r wpos =>
    rw [hw] at hok
    obtain ⟨hr, rfl⟩ := hok
    refine h.move ?_
    split
    · rename_i hle
      exact ⟨hr, rfl, h.shaped.flat hle⟩
    · exact ⟨hr, rfl⟩
  | behind r wpos =>
    rw [hw] at hok
    obtain ⟨hr, rfl, hflat⟩ := hok
    refine h.move ?_
    split
    · exact ⟨hr, rfl, hflat⟩
    · rename_i hroom
      exact ⟨hr, slot_of_spare hsize hflat (Nat.not_le.mp hroom)⟩
  | wrap r wpos =>
    rw [hw] at hok
    obtain ⟨hr, rfl, hflat⟩ := hok
    refine h.move ?_
    split
    · rename_i hne
      exact ⟨hr, rfl, hflat, hne⟩
    · trivial
  | wrapLeft r wpos =>
    rw [hw] at hok
    obtain ⟨hr, rfl, hflat, hne⟩ := hok
    have hread := hflat.read_le
    have hwrite := hflat.write_le
    refine h.move ?_
    rw [sub32_of_le (by omega) (by omega)]
    split
    · trivial
    · rename_i hroom
      exact ⟨hr, rfl, hflat, by rw [length_bytes]; omega⟩
  | ahead r wpos =>
    rw [hw] at hok
    obtain ⟨hr, rfl⟩ := hok
    refine h.move ?_
    generalize hleft : sub32 (sub32 s.log.readPos s.log.writePos) 1 = left
    split
    · trivial
    · rename_i hroom
      refine ⟨hr, ?_⟩
      rcases Nat.lt_or_ge s.log.writePos s.log.readPos with hlt | hge
      · obtain ⟨m, first, second, hwrap⟩ := h.shaped.wrapped hlt
        have hread := hwrap.read_le
        have hmark := hwrap.mark_le
        rw [sub32_of_le (Nat.le_of_lt hlt) (by omega), sub32_of_le (by omega) (by omega)] at hleft
        exact .before hwrap (by rw [length_bytes]; omega)
      · -- the consumer has turned, and the record has room all the same
        refine slot_of_spare hsize (h.shaped.flat hge) (Nat.not_le.mp fun hspare => ?_)
        unfold Overruns at hno
        rw [hw] at hno
        exact hno ⟨hge, hspare⟩
  | mark r wpos =>
    rw [hw] at hok
    obtain ⟨hr, rfl, hflat, hroom⟩ := hok
    have hread := hflat.read_le
    have hflat' : Flat { s.log with buf := blit s.log.buf s.log.writePos [logFromHead] } s.live :=
      hflat.blit (.inr (Nat.le_refl _))
    refine h.fill (.inl hflat') ⟨hr, .start hflat' ?_ hroom⟩ fun hne => .inl (by omega)
    have hmark := @blit_inside s.log.buf s.log.writePos 0 [logFromHead] (by decide)
    rw [Nat.add_zero, List.getElem_cons_zero] at hmark
    exact hmark
  | place r wpos =>
    rw [hw] at hok
    obtain ⟨hr, hslot⟩ := hok
    exact h.fill hslot.blit.shaped ⟨hr, hslot.blit, slice_blit_same _ _ _⟩ hslot.read_ne
  | publish r start =>
    rw [hw] at hok
    obtain ⟨hr, hslot, hbytes⟩ := hok
    have hle := hslot.le
    have hend : add32 (start + 1) r.data.length = start + r.bytes.length := by
      rw [length_bytes] at hle ⊢
      rw [add32_of_lt (by omega)]
      omega
    obtain ⟨hshaped, hne⟩ := hslot.publish hbytes
    dsimp only
    rw [hend]
    refine ⟨hsize, hshaped, ?_, trivial, h.reader.mono rfl fun hx => ⟨hne hx, rfl⟩, ?_⟩
    · intro x hx
      rcases List.mem_append.mp hx with hx | hx
      · exact h.formats x hx
      · rw [List.mem_singleton.mp hx]
        exact hr.2
    · dsimp only
      rw [unseen_append h.reader, h.accepted, List.append_assoc]
      rfl

end LogOk

/-- The producer knows it still when the consumer has gone back to 0. -/
theorem WriterOk.jump {w : Writer} (h : WriterOk fmt l live w)
    (hwrap : Wrapped l live l.readPos [] second) : WriterOk fmt { l with readPos := 0 } live w := by
  have hlt := hwrap.write_lt
  have hflat : ¬Flat l live := fun hf => by
    have := hf.read_le
    omega
  cases w with
  | idle => trivial
  | enter r => exact h
  | compare r wpos => exact h
  | ahead r wpos => exact h
  | behind r wpos => exact absurd h.2.2 hflat
  | wrap r wpos => exact absurd h.2.2 hflat
  | wrapLeft r wpos => exact absurd h.2.2.1 hflat
  | mark r wpos => exact absurd h.2.2.1 hflat
  | place r wpos => exact ⟨h.1, h.2.jump hwrap⟩
  | publish r start => exact ⟨h.1, h.2.1.jump hwrap, h.2.2⟩

/-- And when it has committed a record. -/
theorem WriterOk.commit {w : Writer} {rest : List (Nat × LogRecord)}
    (h : WriterOk fmt l ((l.readPos, r) :: rest) w) :
    WriterOk fmt { l with readPos := l.readPos + r.bytes.length } rest w := by
  have hpos := length_bytes r
  cases w with
  | idle => trivial
  | enter r => exact h
  | compare r wpos => exact h
  | ahead r wpos => exact h
  | behind r wpos => exact ⟨h.1, h.2.1, h.2.2.commit⟩
  | wrap r wpos => exact ⟨h.1, h.2.1, h.2.2.commit⟩
  | wrapLeft r wpos => exact ⟨h.1, h.2.1, h.2.2.1.commit, by dsimp only; omega⟩
  | mark r wpos =>
    have hroom := h.2.2.2
    exact ⟨h.1, h.2.1, h.2.2.1.commit, by dsimp only; omega⟩
  | place r wpos => exact ⟨h.1, h.2.commit⟩
  | publish r start => exact ⟨h.1, h.2.1.commit, h.2.2⟩

namespace LogOk

variable {s : LogRun}

theorem tags (h : LogOk fmt s) : ∀ x ∈ s.live, x.2.tag ≠ logFromHead :=
  fun x hx => (h.formats x hx).1

/-- A step of the consumer that only reads. -/
theorem look (h : LogOk fmt s) {reader : Reader} (hr : ReaderOk s.log s.live reader)
    (hsame : unseen reader s.live = unseen s.reader s.live) : LogOk fmt { s with reader := reader } :=
  ⟨h.size_lt, h.shaped, h.formats, h.writer, hr, by rw [hsame]; exact h.accepted⟩

theorem readStep (h : LogOk fmt s) : LogOk fmt (s.readStep fmt) := by
  have hok := h.reader
  have hacc := h.accepted
  unfold LogRun.readStep
  cases hr : s.reader with
  | idle => exact h.look rfl (by rw [hr]; rfl)
  | other rpos =>
    rw [hr] at hok
    refine h.look ?_ (by rw [hr]; split <;> rfl)
    split
    · rename_i hne
      have hrpos : rpos = s.log.readPos := hok
      rw [hrpos] at hne
      exact hne
    · trivial
  | check =>
    rw [hr] at hok
    refine h.look ?_ (by rw [hr]; split <;> rfl)
    split
    · rename_i hmark
      exact ⟨hok, hmark⟩
    · rename_i hmark
      exact ⟨hok, hmark⟩
  | jump =>
    rw [hr] at hok hacc
    obtain ⟨hne, hmark⟩ := hok
    rcases h.shaped.head h.tags hne with ⟨-, second, hwrap⟩ | ⟨hnone, -⟩
    · have hpos := hwrap.write_pos
      refine ⟨h.size_lt, .inl hwrap.jump, h.formats, h.writer.jump hwrap, ?_, hacc⟩
      have hne' : (0 : Nat) ≠ s.log.writePos := by omega
      refine ⟨hne', ?_⟩
      rcases Shaped.head (.inl hwrap.jump) h.tags hne' with ⟨-, second', hwrap'⟩ | ⟨hnone, -⟩
      · exact absurd hwrap'.write_lt (Nat.not_lt_zero _)
      · exact hnone
    · exact absurd hmark hnone
  | locate =>
    rw [hr] at hok
    exact h.look ⟨rfl, hok⟩ (by rw [hr]; rfl)
  | format p =>
    rw [hr] at hok hacc
    obtain ⟨rfl, hne, hnone⟩ := hok
    rcases h.shaped.head h.tags hne with ⟨hmark, -⟩ | ⟨-, r, rest, hlive, hbytes⟩
    · exact absurd hmark hnone
    · obtain ⟨htag, hdata⟩ := head_tag hbytes
      have hfmt : fmt r.tag s.log.buf (s.log.readPos + 1) = r.data.length :=
        (h.formats (s.log.readPos, r) (hlive ▸ List.mem_cons_self)).2 _ _ hdata
      dsimp only
      rw [htag, hfmt, hdata]
      refine ⟨h.size_lt, h.shaped, h.formats, h.writer, ⟨r, rest, hlive, rfl⟩, ?_⟩
      dsimp only
      rw [hacc, List.append_assoc]
      simp only [unseen, hlive, List.map_cons, List.tail_cons, List.singleton_append]
  | commit n =>
    rw [hr] at hok
    obtain ⟨r, rest, hlive, rfl⟩ := hok
    have hle := (Shaped.commit (hlive ▸ h.shaped)).1
    have hsize := h.size_lt
    refine h.look ⟨r, rest, hlive, add32_of_lt (by omega)⟩ (by rw [hr]; rfl)
  | store rpos =>
    rw [hr] at hok hacc
    obtain ⟨r, rest, hlive, rfl⟩ := hok
    dsimp only
    rw [hlive, List.tail_cons]
    refine ⟨h.size_lt, (Shaped.commit (hlive ▸ h.shaped)).2, ?_, WriterOk.commit (hlive ▸ h.writer),
      trivial, ?_⟩
    · intro x hx
      exact h.formats x (hlive ▸ List.mem_cons_of_mem _ hx)
    · dsimp only
      rw [hacc]
      simp only [unseen, hlive, List.tail_cons]

end LogOk

/-! ## The queue -/

/-- The next step of the producer writes inside the buffer, and into no record that
has been accepted and not committed. -/
def WritesFree (bufsize : Nat) (s : LogRun) : Prop :=
  ∀ a ∈ s.writes, a < bufsize ∧ ∀ x ∈ s.live, ¬(x.1 ≤ a ∧ a < x.1 + x.2.bytes.length)

/-- When `read` finds nothing, every accepted record has been seen. -/
def SeenAll (s : LogRun) : Prop := s.reader = .other s.log.writePos → s.seen = s.accepted

/-- Along the run the writes are free, and the consumer sees the accepted records in
their order, and all of them when it finds nothing. -/
structure LogQueue (fmt : UInt8 → Mem → Nat → Nat) (buf : Mem) (bufsize : Nat) (es : List LogEvent) :
    Prop where
  writes : AtEach (fun pre _ => WritesFree bufsize
    ((logSys fmt buf bufsize).exec { log := .init buf bufsize } pre)) es
  seen : ((logSys fmt buf bufsize).exec { log := .init buf bufsize } es).seen <+:
    ((logSys fmt buf bufsize).exec { log := .init buf bufsize } es).accepted
  all : AtEach (fun pre _ => SeenAll
    ((logSys fmt buf bufsize).exec { log := .init buf bufsize } pre)) es

theorem LogOk.writesFree {s : LogRun} (h : LogOk fmt s) {bufsize : Nat}
    (hsize : s.log.bufSize < bufsize) : WritesFree bufsize s := by
  have hok := h.writer
  unfold WritesFree LogRun.writes
  split
  · rename_i r wpos hw
    rw [hw] at hok
    obtain ⟨-, rfl, hflat, -⟩ := hok
    have hle := hflat.write_le
    intro a ha
    rw [List.mem_singleton.mp ha]
    refine ⟨by omega, fun x hx => ?_⟩
    have := hflat.place_le hx
    omega
  · rename_i r wpos hw
    rw [hw] at hok
    obtain ⟨-, hslot⟩ := hok
    have hle := hslot.le
    intro a ha
    obtain ⟨k, hk, rfl⟩ := List.mem_map.mp ha
    have hk := List.mem_range.mp hk
    exact ⟨by omega, fun x hx => hslot.outside hx ⟨by omega, by omega⟩⟩
  · exact fun a ha => nomatch ha

theorem LogOk.seenAll {s : LogRun} (h : LogOk fmt s) : SeenAll s := by
  intro hr
  have hok := h.reader
  have hacc := h.accepted
  rw [hr] at hok hacc
  have heq : s.log.writePos = s.log.readPos := hok
  have hflat := h.shaped.flat (Nat.le_of_eq heq.symm)
  have hrecords := hflat.records
  rw [heq] at hrecords
  have hnil : s.live = [] := hrecords.eq_nil fun r => List.cons_ne_nil _ _
  rw [hacc, hnil]
  exact (List.append_nil _).symm

theorem logOk_step {buf : Mem} {bufsize : Nat} (s : LogRun) (e : LogEvent)
    (h : LogOk fmt s ∧ s.log.bufSize < bufsize) (ha : (logSys fmt buf bufsize).ok s e)
    (hno : e = .writer → ¬Overruns s) :
    LogOk fmt ((logSys fmt buf bufsize).next s e) ∧
      ((logSys fmt buf bufsize).next s e).log.bufSize < bufsize := by
  obtain ⟨hok, hsize⟩ := h
  cases e with
  | write r => exact ⟨hok.write ha.2, hsize⟩
  | writer =>
    refine ⟨hok.writeStep (hno rfl), ?_⟩
    have hsame : s.writeStep.log.bufSize = s.log.bufSize := by
      unfold LogRun.writeStep
      split <;> rfl
    exact hsame ▸ hsize
  | reader =>
    refine ⟨hok.readStep, ?_⟩
    have hsame : (s.readStep fmt).log.bufSize = s.log.bufSize := by
      unfold LogRun.readStep
      split <;> rfl
    exact hsame ▸ hsize

/-- A buffer of at least two bytes is a queue, unless the consumer goes back to 0
between the loads of a write that has no room behind the producer. -/
theorem log_queue (fmt : UInt8 → Mem → Nat → Nat) (buf : Mem) (bufsize : Nat) (es : List LogEvent)
    (hsize : 2 ≤ bufsize) (hlt : bufsize < 2 ^ 32)
    (ha : (logSys fmt buf bufsize).Admits { log := .init buf bufsize } es)
    (hno : AtEach (fun pre e => e = .writer →
      ¬Overruns ((logSys fmt buf bufsize).exec { log := .init buf bufsize } pre)) es) :
    LogQueue fmt buf bufsize es := by
  have hinit : (CFastLog.init buf bufsize).bufSize = bufsize - 1 := sub32_of_le (by omega) hlt
  have hstart : LogOk fmt { log := .init buf bufsize } ∧
      (CFastLog.init buf bufsize).bufSize < bufsize := ⟨.start hsize hlt, by rw [hinit]; omega⟩
  have hrun : ∀ pre post, es = pre ++ post →
      LogOk fmt ((logSys fmt buf bufsize).exec { log := .init buf bufsize } pre) ∧
        ((logSys fmt buf bufsize).exec { log := .init buf bufsize } pre).log.bufSize < bufsize := by
    rintro pre post rfl
    exact (logSys fmt buf bufsize).invariant_atEach logOk_step _ pre hstart
      (((logSys fmt buf bufsize).admits_append _ pre post).mp ha).1 hno.of_append
  refine ⟨?_, ?_, ?_⟩
  · intro pre e post heq
    obtain ⟨hok, hbuf⟩ := hrun pre (e :: post) heq
    exact hok.writesFree hbuf
  · have hok := (hrun es [] (List.append_nil es).symm).1
    rw [hok.accepted]
    exact List.prefix_append _ _
  · intro pre e post heq
    exact (hrun pre (e :: post) heq).1.seenAll

/-! ### Two runs of a buffer of 6 bytes -/

/-- A formatter that takes as many bytes as its tag says. -/
def tagLength : UInt8 → Mem → Nat → Nat := fun tag _ _ => tag.toNat

/-- A record of `n` bytes. -/
def sized (n : Nat) : LogRecord := { tag := UInt8.ofNat n, data := List.replicate n 7 }

/-- A call of `write`, and steps of either side. -/
def callOf (n producer consumer : Nat) : List LogEvent :=
  .write (sized n) :: (List.replicate producer .writer ++ List.replicate consumer .reader)

/-- The consumer is at the mark when the producer compares, and goes back to 0. -/
def turning (n : Nat) : List LogEvent := callOf 2 5 7 ++ callOf 1 5 7 ++ callOf 1 8 0 ++ callOf n 2 4

abbrev sixBytes : Sys LogRun LogEvent := logSys tagLength (fun _ => 0) 6

abbrev sixEmpty : LogRun := { log := .init (fun _ => 0) 6 }

theorem admits_callOf {s : LogRun} {n : Nat} (hn : n < 20) (hs : s.writer = .idle) (p c : Nat) :
    sixBytes.Admits s (callOf n p c) := by
  have hlen : (sized n).data.length = n := List.length_replicate
  have htag : (sized n).tag.toNat = n := by
    change (UInt8.ofNat n).toNat = n
    rw [UInt8.toNat_ofNat']
    omega
  refine ⟨⟨hs, by omega, ?_, fun m a _ => htag.trans hlen.symm⟩, sixBytes.admits_of_forall ?_ _⟩
  · intro h
    rw [h] at htag
    have : (20 : Nat) = n := htag
    omega
  · intro e he t
    rcases List.mem_append.mp he with he | he
    · rw [List.eq_of_mem_replicate he]
      trivial
    · rw [List.eq_of_mem_replicate he]
      trivial

theorem admits_turning {n : Nat} (hn : n < 20) {es : List LogEvent}
    (hes : ∀ e ∈ es, e = .writer ∨ e = .reader) : sixBytes.Admits sixEmpty (turning n ++ es) := by
  unfold turning
  simp only [Sys.admits_append]
  refine ⟨⟨⟨⟨?_, ?_⟩, ?_⟩, ?_⟩, ?_⟩
  · exact admits_callOf (by decide) rfl 5 7
  · exact admits_callOf (by decide) (by decide +kernel) 5 7
  · exact admits_callOf (by decide) (by decide +kernel) 8 0
  · exact admits_callOf hn (by decide +kernel) 2 4
  · refine sixBytes.admits_of_forall ?_ _
    intro e he t
    rcases hes e he with rfl | rfl <;> trivial

/-- The record of one byte has room behind the producer all the same. -/
theorem log_queue_turning :
    LogQueue tagLength (fun _ => 0) 6 (turning 1 ++ [.writer, .writer, .writer] ++
      List.replicate 11 .reader) ∧
    (sixBytes.exec sixEmpty (turning 1 ++ [.writer, .writer, .writer] ++
      List.replicate 11 .reader)).seen = [sized 2, sized 1, sized 1, sized 1] := by
  refine ⟨log_queue tagLength (fun _ => 0) 6 _ (by decide) (by decide) ?_ ?_, by decide +kernel⟩
  · rw [List.append_assoc]
    refine admits_turning (by decide) fun e he => ?_
    revert e he
    decide
  · rw [atEach_iff_getElem]
    decide +kernel

/-- The record of ten bytes is written behind the end. -/
theorem turned_overruns :
    ¬∀ fmt buf bufsize es, bufsize < 2 ^ 32 →
      (logSys fmt buf bufsize).Admits { log := .init buf bufsize } es →
      LogQueue fmt buf bufsize es := by
  intro h
  have hqueue := h tagLength (fun _ => 0) 6 (turning 10 ++ [.writer, .writer]) (by decide)
    (admits_turning (by decide) (by decide))
  have hfree := hqueue.writes (turning 10 ++ [.writer]) .writer [] (by simp)
  have hmem : 12 ∈ (sixBytes.exec sixEmpty (turning 10 ++ [.writer])).writes := by decide +kernel
  exact absurd (hfree 12 hmem).1 (by decide)

end NatFramework.Logger
