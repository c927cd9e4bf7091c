import Mathlib.Data.List.Forall2
import NatFramework.Lib.Bytes

/-!
# Pages of frames

`io/ioprotocol.h` and `CIOBase`: a group of files under one prefix, each a page
with a head and frames behind it. A frame is its head and the data bytes; the
next frame starts where the data ends.

* `Page` has the fields of `tPageHead` and the bytes of the file as memory; the
  frames are read out of these bytes.
* `Laid m off fs tail`: the frames `fs` stand one behind the other from `off`
  to `tail`. `Page.Holds`: they do so from the end of the head to the tail.
* `PageGroup`: files numbered without a gap, as `createNextPage` makes them.
-/
namespace NatFramework.Io

open Lib

/-! ## Heads -/

/-- `PAGE_HEAD_VER_1` -/
def pageHeadVer1 : Nat := 1

/-- `FRAME_HEAD_MAGIC` -/
def frameHeadMagic : Nat := 0x20180423

/-- `PAGE_STATUS_WRITTING`, `PAGE_STATUS_FINISH` -/
def pageStatusWritting : Nat := 0
def pageStatusFinish : Nat := 1

/-- `sizeof(tPageHead)`, the offset of its `buf`. -/
def sizeofPageHead : Nat := 45

/-- `sizeof(tFrameHead)`, the offset of its `buf`. -/
def sizeofFrameHead : Nat := 20

/-- A mapped file. `fileSize` is its `st_size`.
mirrors io/ioprotocol.h:28-39 -/
structure Page where
  fileSize : Nat
  status : Nat := 0
  version : Nat := 0
  size : Nat := 0
  tail : Nat := 0
  startNano : Int := 0
  stopNano : Int := 0
  lastNano : Int := 0
  reserved : Nat := 0
  mem : Mem := fun _ => 0

/-- What a reader gets of a frame: the data and, in the head before it, the time. -/
structure Frame where
  nano : Nat
  data : List UInt8
  deriving DecidableEq, Repr

namespace Frame

/-- The bytes a frame takes. -/
def extent (f : Frame) : Nat := sizeofFrameHead + f.data.length

end Frame

/-- The fields of `tFrameHead` at `off`.
mirrors io/ioprotocol.h:41-49 -/
def frameMagic (m : Mem) (off : Nat) : Nat := ofLe (slice m off 4)
def frameLen (m : Mem) (off : Nat) : Nat := ofLe (slice m (off + 4) 4)
def frameNano (m : Mem) (off : Nat) : Nat := ofLe (slice m (off + 8) 8)

def frameAt (m : Mem) (off : Nat) : Frame where
  nano := frameNano m off
  data := slice m (off + sizeofFrameHead) (frameLen m off)

/-- `uint64_t` to `long`. -/
def toLong (n : Nat) : Int := if n < 2 ^ 63 then n else n - (2 ^ 64 : Nat)

theorem toLong_of_lt {n : Nat} (h : n < 2 ^ 63) : toLong n = n := if_pos h

/-! ## Frames in memory -/

/-- The frame `f` stands at `off`. -/
structure Stands (m : Mem) (off : Nat) (f : Frame) : Prop where
  magic : frameMagic m off = frameHeadMagic
  len : frameLen m off = f.data.length
  nano : frameNano m off = f.nano
  data : slice m (off + sizeofFrameHead) f.data.length = f.data

/-- The frames stand one behind the other from `off` to `tail`. -/
def Laid (m : Mem) : Nat → List Frame → Nat → Prop
  | off, [], tail => off = tail
  | off, f :: fs, tail => Stands m off f ∧ Laid m (off + f.extent) fs tail

theorem Stands.frameAt {m : Mem} {off : Nat} {f : Frame} (h : Stands m off f) :
    Io.frameAt m off = f := by
  rw [Io.frameAt, h.nano, h.len, h.data]

theorem Frame.extent_pos (f : Frame) : sizeofFrameHead ≤ f.extent := Nat.le_add_right _ _

variable {m : Mem} {off mid tail : Nat} {f : Frame} {fs gs : List Frame}

theorem Laid.le (h : Laid m off fs tail) : off ≤ tail := by
  induction fs generalizing off with
  | nil => exact Nat.le_of_eq h
  | cons f fs ih => exact Nat.le_trans (Nat.le_add_right off f.extent) (ih h.2)

/-- Frames that are there end behind where they start. -/
theorem Laid.lt_iff (h : Laid m off fs tail) : off < tail ↔ fs ≠ [] := by
  cases fs with
  | nil =>
    have heq : off = tail := h
    exact iff_of_false (by omega) fun hn => hn rfl
  | cons f fs =>
    refine iff_of_true ?_ (List.cons_ne_nil _ _)
    have hle := h.2.le
    have hpos := f.extent_pos
    simp only [sizeofFrameHead] at hpos
    omega

theorem laid_append : Laid m off (fs ++ gs) tail ↔ ∃ mid, Laid m off fs mid ∧ Laid m mid gs tail := by
  induction fs generalizing off with
  | nil => simp [Laid]
  | cons f fs ih =>
    simp only [List.cons_append, Laid, ih]
    exact ⟨fun ⟨h, mid, h1, h2⟩ => ⟨mid, ⟨h, h1⟩, h2⟩, fun ⟨mid, ⟨h, h1⟩, h2⟩ => ⟨h, mid, h1, h2⟩⟩

/-- Where a run of frames ends does not depend on how it is found. -/
theorem Laid.end_unique {tail' : Nat} (h : Laid m off fs tail) (h' : Laid m off fs tail') :
    tail = tail' := by
  induction fs generalizing off with
  | nil => exact h.symm.trans h'
  | cons f fs ih => exact ih h.2 h'.2

/-! ## Pages -/

/-- The time of the last frame, 0 if there is none: then nothing has stored it. -/
def lastTime (fs : List Frame) : Nat := (fs.getLast?.map Frame.nano).getD 0

@[simp] theorem lastTime_nil : lastTime [] = 0 := rfl

namespace Page

/-- Where the mapping ends: `mmap` maps whole pages of memory, of 4096 bytes, and
the rest of the last one reads as zeros. -/
def mapEnd (p : Page) : Nat := (p.fileSize + 4095) / 4096 * 4096

theorem le_mapEnd (p : Page) : p.fileSize ≤ p.mapEnd := by
  unfold mapEnd
  omega

/-- mirrors io/CIOBase.h:65-68 -/
def checkPageHead (p : Page) : Bool := p.version = pageHeadVer1 ∧ p.size = p.fileSize

/-- The page has a valid head and the frames `fs`, the last of which gave the
head its time. -/
structure Holds (fs : List Frame) (p : Page) : Prop where
  head : p.checkPageHead = true
  laid : Laid p.mem sizeofPageHead fs p.tail
  tail_le : p.tail ≤ p.fileSize
  lastNano : p.lastNano = lastTime fs

/-- `Holds` but for the time, which is stored before the tail. -/
structure Bears (fs : List Frame) (p : Page) : Prop where
  head : p.checkPageHead = true
  laid : Laid p.mem sizeofPageHead fs p.tail
  tail_le : p.tail ≤ p.fileSize

theorem Holds.bears {fs : List Frame} {p : Page} (h : p.Holds fs) : p.Bears fs :=
  ⟨h.head, h.laid, h.tail_le⟩

theorem Bears.fileSize_ge {fs : List Frame} {p : Page} (h : p.Bears fs) :
    sizeofPageHead ≤ p.fileSize :=
  Nat.le_trans h.laid.le h.tail_le

theorem Bears.version {fs : List Frame} {p : Page} (h : p.Bears fs) : p.version = pageHeadVer1 := by
  have hhead := h.head
  rw [checkPageHead, decide_eq_true_eq] at hhead
  exact hhead.1

theorem Bears.size {fs : List Frame} {p : Page} (h : p.Bears fs) : p.size = p.fileSize := by
  have hhead := h.head
  rw [checkPageHead, decide_eq_true_eq] at hhead
  exact hhead.2

end Page

/-! ## Groups of pages -/

/-- The files of one prefix: consecutive numbers from `first` on. -/
structure PageGroup where
  first : Nat
  pages : List Page

namespace PageGroup

/-- The file with a number. -/
def file (num : Nat) (g : PageGroup) : Option Page :=
  if num < g.first then none else g.pages[num - g.first]?

/-- mirrors io/CIOBase.cpp:28-42 -/
def getTailNum (g : PageGroup) : Int :=
  if g.pages = [] then -1 else g.first + g.pages.length - 1

/-- mirrors io/CIOBase.cpp:44-58 -/
def getHeadNum (g : PageGroup) : Int := if g.pages = [] then -1 else g.first

theorem file_add (g : PageGroup) (k : Nat) : g.file (g.first + k) = g.pages[k]? := by
  rw [file, if_neg (by omega), Nat.add_sub_cancel_left]

theorem file_of_lt {g : PageGroup} {num : Nat} (h : num < g.first) : g.file num = none := if_pos h

theorem lt_of_file {g : PageGroup} {num : Nat} {p : Page} (h : g.file num = some p) :
    num < g.first + g.pages.length := by
  unfold file at h
  split at h
  · cases h
  · have := (List.getElem?_eq_some_iff.mp h).1
    omega

/-- A group nobody writes to: the pages hold the frames, and only the last one
may go on. -/
structure Static (fss : List (List Frame)) (g : PageGroup) : Prop where
  holds : List.Forall₂ (fun p fs => Page.Holds fs p) g.pages fss
  finished : ∀ k p, g.pages[k]? = some p → k + 1 < g.pages.length → p.status = pageStatusFinish

variable {g : PageGroup} {fss : List (List Frame)}

theorem Static.length (h : g.Static fss) : g.pages.length = fss.length := h.holds.length_eq

/-- A group that may be written to: the pages with a head bear the frames, a last
one may have no head yet, and only the last one may go on. -/
structure Carries (fss : List (List Frame)) (g : PageGroup) : Prop where
  bears : ∀ {k : Nat} {fs}, fss[k]? = some fs → ∃ p : Page, g.pages[k]? = some p ∧ p.Bears fs
  raw : ∀ {k : Nat} {p}, g.pages[k]? = some p → fss.length ≤ k → p.version ≠ pageHeadVer1
  length_le : g.pages.length ≤ fss.length + 1
  finished : ∀ {k : Nat} {p}, g.pages[k]? = some p → k + 1 < g.pages.length →
    p.status = pageStatusFinish

theorem Carries.le_length (h : g.Carries fss) : fss.length ≤ g.pages.length := by
  cases hn : fss.length with
  | zero => exact Nat.zero_le _
  | succ n =>
    have hget : fss[n]? = some fss[n] := List.getElem?_eq_getElem _
    obtain ⟨p, hp, -⟩ := h.bears hget
    exact (List.getElem?_eq_some_iff.mp hp).1

theorem Static.page (h : g.Static fss) {k : Nat} {p : Page} (hp : g.pages[k]? = some p) :
    ∃ fs, fss[k]? = some fs ∧ p.Holds fs := by
  obtain ⟨hk, rfl⟩ := List.getElem?_eq_some_iff.mp hp
  have hk' : k < fss.length := by rw [← h.length]; exact hk
  exact ⟨fss[k], List.getElem?_eq_getElem hk', h.holds.get hk hk'⟩

theorem Static.carries (h : g.Static fss) : g.Carries fss where
  bears := by
    intro k fs hfs
    obtain ⟨hk, -⟩ := List.getElem?_eq_some_iff.mp hfs
    have hk' : k < g.pages.length := by rw [h.length]; exact hk
    have hp : g.pages[k]? = some g.pages[k] := List.getElem?_eq_getElem hk'
    obtain ⟨fs', hfs', hh⟩ := h.page hp
    obtain rfl : fs = fs' := by rw [hfs] at hfs'; simpa using hfs'
    exact ⟨_, hp, hh.bears⟩
  raw := by
    intro k p hp hk
    have hlt := (List.getElem?_eq_some_iff.mp hp).1
    rw [h.length] at hlt
    omega
  length_le := by rw [h.length]; exact Nat.le_succ _
  finished := fun hp hk => h.finished _ _ hp hk

end PageGroup

/-- Page 3, finished, with frames of times 5 and 7, and page 4 without a frame. -/
def twoPages : PageGroup where
  first := 3
  pages := [
    { fileSize := 90, status := 1, version := 1, size := 90, tail := 87, lastNano := 7,
      mem := fun a => [0x23, 4, 0x18, 0x20, 1, 0, 0, 0, 5, 0, 0, 0, 0, 0, 0, 0, 0, 0, 0, 0, 10,
        0x23, 4, 0x18, 0x20, 1, 0, 0, 0, 7, 0, 0, 0, 0, 0, 0, 0, 0, 0, 0, 0, 20].getD (a - 45) 0 },
    { fileSize := 90, version := 1, size := 90, tail := 45 }]

def twoFrames : List (List Frame) := [[⟨5, [10]⟩, ⟨7, [20]⟩], []]

theorem twoPages_static : twoPages.Static twoFrames where
  holds := .cons
    { head := by decide
      laid := ⟨⟨by decide, by decide, by decide, by decide⟩,
        ⟨by decide, by decide, by decide, by decide⟩, rfl⟩
      tail_le := by decide
      lastNano := by decide }
    (.cons { head := by decide, laid := rfl, tail_le := by decide, lastNano := by decide } .nil)
  finished := by
    intro k p hp hk
    have hk' : k + 1 < 2 := hk
    obtain rfl : k = 0 := by omega
    rw [← Option.some.inj hp]
    rfl

end NatFramework.Io
