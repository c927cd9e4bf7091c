import Mathlib.Data.List.Basic
import NatFramework.Io.CIOBase

/-!
# The writer of a group of pages

`io/CRawIOWriter`. The tail behind a new frame is computed in 32 bits; a frame
that does not fit closes the page and goes to the next one, which is created.

* `write` with fuel for its call of itself, `none` when it has not returned;
  the clock is a stream of its readings.
* `Page.Adds`: a page with a frame more. `Placed`, `Fetched`: what `write` and
  `prefetch` are there for.
* `inside_iff`: they do that unless the sum wraps.
-/
namespace NatFramework.Io

open Lib

/-! ## Stores into a page -/

namespace Page

/-- mirrors io/CRawIOWriter.cpp:46-52 -/
def fillHead (nano : Nat) (p : Page) : Page :=
  { p with status := pageStatusWritting, size := p.fileSize, tail := sizeofPageHead,
           startNano := toLong nano, stopNano := -1, reserved := 0, version := pageHeadVer1 }

/-- mirrors io/CRawIOWriter.cpp:109-110 and io/CRawIOWriter.cpp:138-139 -/
def close (nano : Nat) (p : Page) : Page :=
  { p with stopNano := toLong nano, status := pageStatusFinish }

/-- The head of the frame, its time, and the tail behind it.
mirrors io/CRawIOWriter.cpp:103-106 and io/CRawIOWriter.cpp:160-164 -/
def stamp (nano tail : Nat) (p : Page) : Page :=
  { p with mem := blit (blit p.mem p.tail (leBytes 4 frameHeadMagic)) (p.tail + 8) (leBytes 8 nano),
           lastNano := toLong nano, tail := tail }

/-- `p_frame->len` -/
def setLen (len : Nat) (p : Page) : Page := { p with mem := blit p.mem (p.tail + 4) (leBytes 4 len) }

/-- `memcpy` to the data of the frame at the tail. -/
def fill (data : List UInt8) (p : Page) : Page :=
  { p with mem := blit p.mem (p.tail + sizeofFrameHead) data }

end Page

/-! ## The writer -/

/-- `group` are the files of the prefix, `fd` is `fd_ >= 0`.
mirrors io/CRawIOWriter.h:40-46 and io/CIOBase.h:84-92 -/
structure CRawIOWriter where
  group : PageGroup
  fd : Bool := false
  size : Nat := 0
  pageNum : Int := -1
  prefetchTail : Nat := 0
  pageSize : Nat := 128 * 1024 * 1024

namespace CRawIOWriter

/-- The page `buf_` points at. -/
def mapped (w : CRawIOWriter) : Option Page := if w.fd then w.group.file w.pageNum.toNat else none

def unload (w : CRawIOWriter) : CRawIOWriter := { w with fd := false }

/-- A store into the page that is mapped. -/
def store (f : Page → Page) (w : CRawIOWriter) : CRawIOWriter :=
  { w with group := { w.group with pages := w.group.pages.modify (w.pageNum.toNat - w.group.first) f } }

/-- A file that has just been created or been there; `opens` if the file can be
opened, locked and mapped. A file shorter than a head is taken for new.
mirrors io/CRawIOWriter.cpp:167-246 -/
def load (opens : Bool) (num : Int) (w : CRawIOWriter) : CRawIOWriter × Bool :=
  if !opens then ({ w with fd := false }, false)
  else
    match w.group.file num.toNat with
    | none =>
      let group :=
        if w.group.pages = [] then { first := num.toNat, pages := [{ fileSize := w.pageSize }] }
        else { w.group with pages := w.group.pages ++ [{ fileSize := w.pageSize }] }
      ({ w with group := group, fd := true, size := w.pageSize }, true)
    | some p =>
      if p.fileSize < sizeofPageHead then
        let pages := w.group.pages.set (num.toNat - w.group.first) { p with fileSize := w.pageSize }
        ({ w with group := { w.group with pages := pages }, fd := true, size := w.pageSize }, true)
      else if !p.checkPageHead then ({ w with fd := false, size := p.fileSize }, false)
      else ({ w with fd := true, size := p.fileSize }, true)

/-- mirrors io/CRawIOWriter.cpp:38-55 -/
def createNextPage (opens : Bool) (nano : Nat) (w : CRawIOWriter) : CRawIOWriter × Bool :=
  let res := w.load opens (w.pageNum + 1)
  if res.2 then (store (Page.fillHead nano) { res.1 with pageNum := w.pageNum + 1 }, true)
  else (res.1, false)

/-- mirrors io/CRawIOWriter.cpp:61-92 -/
def init (opens : Bool) (nano : Nat) (w : CRawIOWriter) : CRawIOWriter × Bool :=
  let w := { w.unload with pageNum := w.group.getTailNum }
  if 0 ≤ w.pageNum then
    let res := w.load opens w.pageNum
    if !res.2 then (res.1, false)
    else if (res.1.mapped.map Page.status).getD 0 = pageStatusFinish then
      createNextPage opens nano res.1.unload
    else (res.1, true)
  else createNextPage opens nano w

/-- The page is closed and the next one created.
mirrors io/CRawIOWriter.cpp:109-116 and io/CRawIOWriter.cpp:138-145 -/
def rollOver (opens : Bool) (now : Nat → Nat) (w : CRawIOWriter) : CRawIOWriter × Bool :=
  createNextPage opens (now 1) (store (Page.close (now 0)) w).unload

/-- `tail + sizeof(tFrameHead) + len` in 32 bits. -/
def tailBehind (p : Page) (len : Nat) : Nat := (p.tail + sizeofFrameHead + len) % 2 ^ 32

/-- `size_` is 32 bits wide and `sizeof` 64.
mirrors io/CRawIOWriter.cpp:97-123 -/
def write (opens : Bool) (data : List UInt8) :
    Nat → (Nat → Nat) → CRawIOWriter → Option (CRawIOWriter × Bool)
  | 0, _, _ => none
  | n + 1, now, w =>
    match w.mapped with
    | none => none
    | some p =>
      let tail := tailBehind p data.length
      if tail ≤ w.size then
        some (w.store fun p => ((p.fill data).setLen data.length).stamp (now 0 % 2 ^ 64) tail, true)
      else
        let res := w.rollOver opens now
        if !res.2 then some (res.1, false)
        else if data.length ≤ (res.1.size + 2 ^ 64 - sizeofPageHead - sizeofFrameHead) % 2 ^ 64 then
          write opens data n (fun k => now (k + 2)) res.1
        else some (res.1, false)

/-- Where the data of the frame goes, and `none` for `NULL`.
mirrors io/CRawIOWriter.cpp:131-155 -/
def prefetch (opens : Bool) (now : Nat → Nat) (len : Nat) (w : CRawIOWriter) :
    CRawIOWriter × Option Nat :=
  match w.mapped with
  | none => (w, none)
  | some p =>
    let w := { w with prefetchTail := tailBehind p len }
    if w.prefetchTail ≤ w.size then (w.store (Page.setLen len), some (p.tail + sizeofFrameHead))
    else
      let res := w.rollOver opens now
      if !res.2 then (res.1, none)
      else
        match res.1.mapped with
        | none => (res.1, none)
        | some q =>
          let w := { res.1 with prefetchTail := tailBehind q len }
          if w.prefetchTail ≤ w.size then (w.store (Page.setLen len), some (q.tail + sizeofFrameHead))
          else (w, none)

/-- mirrors io/CRawIOWriter.cpp:159-165 -/
def commit (nano : Nat) (w : CRawIOWriter) : CRawIOWriter :=
  w.store (Page.stamp (nano % 2 ^ 64) w.prefetchTail)

/-! ## What a call leaves -/

/-- The last page of the group is mapped, `ps` are the pages before. -/
structure OnLast (w : CRawIOWriter) (ps : List Page) (p : Page) : Prop where
  fd : w.fd = true
  pages : w.group.pages = ps ++ [p]
  pageNum : w.pageNum = (w.group.first + ps.length : Nat)
  size : w.size = p.fileSize

/-- What a writer can come to: a tail behind the head and in the file, sizes of 32
bits, and new pages that have room for their heads. -/
structure Bounds (w : CRawIOWriter) (p : Page) : Prop where
  head_le : sizeofPageHead ≤ p.tail
  tail_le : p.tail ≤ p.fileSize
  fileSize_lt : p.fileSize < 2 ^ 32
  pageSize_ge : sizeofPageHead ≤ w.pageSize
  pageSize_lt : w.pageSize < 2 ^ 32

end CRawIOWriter

namespace Page

/-- `p'` is `p` with the frame `f` behind its frames, inside the page. -/
structure Adds (f : Frame) (p p' : Page) : Prop where
  tail : p'.tail = p.tail + f.extent
  room : p'.tail ≤ p'.fileSize
  fileSize : p'.fileSize = p.fileSize
  stands : Stands p'.mem p.tail f
  kept : ∀ a, a < p.tail ∨ p'.tail ≤ a → p'.mem a = p.mem a

/-- Room for a frame of `len` bytes of data, from `off` to `tail`. -/
structure Offers (len off tail : Nat) (p p' : Page) : Prop where
  unmoved : p'.tail = p.tail
  fileSize : p'.fileSize = p.fileSize
  off_eq : off = p.tail + sizeofFrameHead
  tail_eq : tail = off + len
  room : tail ≤ p.fileSize
  len_eq : frameLen p'.mem p.tail = len
  kept : ∀ a, a < p.tail ∨ off ≤ a → p'.mem a = p.mem a

/-- Only what the head says of the end of writing may differ. -/
structure Like (p p' : Page) : Prop where
  tail : p'.tail = p.tail
  fileSize : p'.fileSize = p.fileSize
  mem : p'.mem = p.mem

end Page

namespace CRawIOWriter

/-- What `write` is there for: the frame lies in the page, or in a new one behind
it; or it is refused, and no tail has moved. -/
def Placed (data : List UInt8) (ps : List Page) (p : Page) (pages : List Page) (ok : Bool) : Prop :=
  if ok then
    (∃ (f : Frame) (p' : Page), f.data = data ∧ p.Adds f p' ∧ pages = ps ++ [p']) ∨
      ∃ (f : Frame) (p₁ q q' : Page), f.data = data ∧ p.Like p₁ ∧ q.tail = sizeofPageHead ∧ q.Adds f q' ∧
        pages = ps ++ [p₁, q']
  else
    (∃ p₁, p.Like p₁ ∧ pages = ps ++ [p₁]) ∨
      ∃ p₁ q : Page, p.Like p₁ ∧ q.tail = sizeofPageHead ∧ pages = ps ++ [p₁, q]

/-- And `prefetch`: room for the frame, up to `prefetch_tail_`. -/
def Fetched (len : Nat) (ps : List Page) (p : Page) (w : CRawIOWriter) : Option Nat → Prop
  | some off =>
    (∃ p', p.Offers len off w.prefetchTail p' ∧ w.group.pages = ps ++ [p']) ∨
      ∃ p₁ q q' : Page, p.Like p₁ ∧ q.tail = sizeofPageHead ∧ q.Offers len off w.prefetchTail q' ∧
        w.group.pages = ps ++ [p₁, q']
  | none =>
    (∃ p₁, p.Like p₁ ∧ w.group.pages = ps ++ [p₁]) ∨
      ∃ p₁ q : Page, p.Like p₁ ∧ q.tail = sizeofPageHead ∧ w.group.pages = ps ++ [p₁, q]

/-- The sum wraps to a tail inside the page. -/
def Wraps (tail len size : Nat) : Prop :=
  2 ^ 32 ≤ tail + sizeofFrameHead + len ∧ (tail + sizeofFrameHead + len) % 2 ^ 32 ≤ size

/-- No wrap, and when the page is full new pages have room for a frame. -/
def CanWrite (opens : Bool) (len : Nat) (p : Page) (w : CRawIOWriter) : Prop :=
  ¬Wraps p.tail len p.fileSize ∧
    (p.fileSize < p.tail + sizeofFrameHead + len → opens = true →
      sizeofPageHead + sizeofFrameHead ≤ w.pageSize)

/-- No wrap, and when the page is full none in the new one. -/
def CanPrefetch (opens : Bool) (len : Nat) (p : Page) (w : CRawIOWriter) : Prop :=
  ¬Wraps p.tail len p.fileSize ∧
    (p.fileSize < p.tail + sizeofFrameHead + len → opens = true →
      ¬Wraps sizeofPageHead len w.pageSize)

variable {w w' : CRawIOWriter} {ps : List Page} {p : Page} {data : List UInt8} {opens : Bool}
  {now : Nat → Nat} {len n : Nat}

@[simp] theorem store_pageNum (f : Page → Page) : (w.store f).pageNum = w.pageNum := rfl
@[simp] theorem store_prefetchTail (f : Page → Page) : (w.store f).prefetchTail = w.prefetchTail := rfl
@[simp] theorem store_pageSize (f : Page → Page) : (w.store f).pageSize = w.pageSize := rfl

theorem file_last {g : PageGroup} (h : g.pages = ps ++ [p]) : g.file (g.first + ps.length) = some p := by
  rw [PageGroup.file_add, h]
  simp

theorem OnLast.mapped (h : OnLast w ps p) : w.mapped = some p := by
  rw [CRawIOWriter.mapped, h.fd, if_pos rfl, h.pageNum, Int.toNat_natCast, file_last h.pages]

theorem modify_last {α : Type} {as : List α} {a : α} (f : α → α) :
    (as ++ [a]).modify as.length f = as ++ [f a] := by
  induction as with
  | nil => rfl
  | cons b as ih => simpa using ih

theorem OnLast.store (h : OnLast w ps p) {f : Page → Page} (hf : (f p).fileSize = p.fileSize) :
    OnLast (w.store f) ps (f p) where
  fd := h.fd
  pages := by
    have hidx : w.pageNum.toNat - w.group.first = ps.length := by
      have := h.pageNum
      omega
    rw [CRawIOWriter.store, hidx, h.pages, modify_last]
  pageNum := h.pageNum
  size := by rw [hf]; exact h.size

/-- A new page. -/
def newPage (size nano : Nat) : Page := Page.fillHead nano { fileSize := size }

/-- The number behind the last page is free. -/
theorem load_new (hnum : w.pageNum + 1 = (w.group.first + w.group.pages.length : Nat)) :
    w.load true (w.pageNum + 1) =
      ({ w with
          group := { w.group with pages := w.group.pages ++ [{ fileSize := w.pageSize }] }
          fd := true
          size := w.pageSize }, true) := by
  have hfile : w.group.file (w.pageNum + 1).toNat = none := by
    rw [hnum, Int.toNat_natCast, PageGroup.file_add]
    exact List.getElem?_eq_none (Nat.le_refl _)
  rw [load, hfile]
  dsimp only
  split
  · contradiction
  · split
    · rename_i hnil
      rw [hnum, hnil]
      rfl
    · rfl

theorem createNextPage_new (nano : Nat)
    (hnum : w.pageNum + 1 = (w.group.first + w.group.pages.length : Nat)) :
    ∃ w', createNextPage true nano w = (w', true) ∧ w'.pageSize = w.pageSize ∧
      w'.group.first = w.group.first ∧ OnLast w' w.group.pages (newPage w.pageSize nano) := by
  have hnew : OnLast
      { w with
        group := { w.group with pages := w.group.pages ++ [{ fileSize := w.pageSize }] }
        fd := true
        size := w.pageSize
        pageNum := w.pageNum + 1 } w.group.pages { fileSize := w.pageSize } :=
    ⟨rfl, rfl, hnum, rfl⟩
  refine ⟨_, ?_, ?_, ?_, hnew.store (f := Page.fillHead nano) rfl⟩
  · rw [createNextPage, load_new hnum]
    rfl
  · rfl
  · rfl

theorem OnLast.rollOver_true (h : OnLast w ps p) (now : Nat → Nat) :
    ∃ w', w.rollOver true now = (w', true) ∧ w'.pageSize = w.pageSize ∧
      w'.group.first = w.group.first ∧
      OnLast w' (ps ++ [p.close (now 0)]) (newPage w.pageSize (now 1)) := by
  have hs := h.store (f := Page.close (now 0)) rfl
  have hnum : (w.store (Page.close (now 0))).unload.pageNum + 1 =
      ((w.store (Page.close (now 0))).unload.group.first +
        (w.store (Page.close (now 0))).unload.group.pages.length : Nat) := by
    have h1 := hs.pageNum
    simp only [unload, hs.pages, List.length_append, List.length_singleton]
    omega
  obtain ⟨w', h1, h2, h3, h4⟩ := createNextPage_new (now 1) hnum
  rw [unload, hs.pages] at h4
  exact ⟨w', h1, h2, h3, h4⟩

theorem OnLast.rollOver_false (h : OnLast w ps p) (now : Nat → Nat) :
    ∃ w', w.rollOver false now = (w', false) ∧ w'.group.pages = ps ++ [p.close (now 0)] := by
  have hs := h.store (f := Page.close (now 0)) rfl
  exact ⟨_, rfl, hs.pages⟩

/-! ## The stores of a frame -/

theorem frameLen_setLen {p : Page} (h : len < 2 ^ 32) : frameLen (p.setLen len).mem p.tail = len := by
  have hs := slice_blit_same p.mem (p.tail + 4) (leBytes 4 len)
  rw [length_leBytes] at hs
  rw [frameLen, Page.setLen, hs, ofLe_leBytes_of_lt h]

theorem setLen_outside {p : Page} {a : Nat} (h : a < p.tail ∨ p.tail + sizeofFrameHead ≤ a) :
    (p.setLen len).mem a = p.mem a := by
  refine blit_outside ?_
  rw [length_leBytes]
  simp only [sizeofFrameHead] at h
  omega

/-- The rest of the head goes to a page that has the length and the data. -/
theorem stamp_adds {p q : Page} {f : Frame} (htail : q.tail = p.tail) (hsize : q.fileSize = p.fileSize)
    (hlen : frameLen q.mem p.tail = f.data.length)
    (hdata : slice q.mem (p.tail + sizeofFrameHead) f.data.length = f.data) (hnano : f.nano < 2 ^ 64)
    (hroom : p.tail + f.extent ≤ p.fileSize)
    (hkept : ∀ a, a < p.tail ∨ p.tail + f.extent ≤ a → q.mem a = p.mem a) :
    p.Adds f (q.stamp f.nano (p.tail + f.extent)) := by
  have hmem : (q.stamp f.nano (p.tail + f.extent)).mem =
      blit (blit q.mem p.tail (leBytes 4 frameHeadMagic)) (p.tail + 8) (leBytes 8 f.nano) := by
    rw [Page.stamp, htail]
  -- the two stores are those of the magic and of the time
  have hread : ∀ {off k}, (off + k ≤ p.tail ∨ p.tail + 4 ≤ off ∧ off + k ≤ p.tail + 8 ∨ p.tail + 16 ≤ off) →
      slice (q.stamp f.nano (p.tail + f.extent)).mem off k = slice q.mem off k := by
    intro off k h
    rw [hmem, slice_blit_disjoint (by rw [length_leBytes]; omega),
      slice_blit_disjoint (by rw [length_leBytes]; omega)]
  refine ⟨rfl, by rw [Page.stamp, hsize]; exact hroom, hsize, ⟨?_, ?_, ?_, ?_⟩, fun a ha => ?_⟩
  · have hs := slice_blit_same q.mem p.tail (leBytes 4 frameHeadMagic)
    rw [length_leBytes] at hs
    rw [frameMagic, hmem, slice_blit_disjoint (by omega), hs, ofLe_leBytes_of_lt (by decide)]
  · rw [frameLen, hread (by omega)]
    exact hlen
  · have hs := slice_blit_same (blit q.mem p.tail (leBytes 4 frameHeadMagic)) (p.tail + 8) (leBytes 8 f.nano)
    rw [length_leBytes] at hs
    rw [frameNano, hmem, hs, ofLe_leBytes_of_lt hnano]
  · rw [hread (by simp only [sizeofFrameHead]; omega)]
    exact hdata
  · have hpos := f.extent_pos
    have ha' : a < p.tail ∨ p.tail + f.extent ≤ a := ha
    simp only [sizeofFrameHead] at hpos
    rw [hmem, blit_outside (by rw [length_leBytes]; omega), blit_outside (by rw [length_leBytes]; omega)]
    exact hkept a ha'

/-- A page with a frame that `write` has put there. -/
def put (data : List UInt8) (nano tail : Nat) (p : Page) : Page :=
  ((p.fill data).setLen data.length).stamp nano tail

theorem put_adds {p : Page} (nano : Nat) (hlen : data.length < 2 ^ 32)
    (hroom : p.tail + sizeofFrameHead + data.length ≤ p.fileSize) :
    p.Adds ⟨nano % 2 ^ 64, data⟩
      (put data (nano % 2 ^ 64) (p.tail + sizeofFrameHead + data.length) p) := by
  have hnano : nano % 2 ^ 64 < 2 ^ 64 := Nat.mod_lt _ (Nat.two_pow_pos 64)
  have hext : p.tail + sizeofFrameHead + data.length = p.tail + (Frame.mk (nano % 2 ^ 64) data).extent :=
    Nat.add_assoc _ _ _
  rw [put, hext]
  refine stamp_adds rfl rfl (frameLen_setLen hlen) ?_ hnano (hext ▸ hroom) fun a ha => ?_
  · have hs : slice ((p.fill data).setLen data.length).mem (p.tail + sizeofFrameHead) data.length =
        slice (p.fill data).mem (p.tail + sizeofFrameHead) data.length :=
      slice_congr fun k _ => setLen_outside (Or.inr (Nat.le_add_right _ k))
    rw [hs]
    exact slice_blit_same p.mem (p.tail + sizeofFrameHead) data
  · rw [← hext] at ha
    rw [setLen_outside (p := p.fill data) (ha.imp_right fun h => Nat.le_trans (Nat.le_add_right _ _) h)]
    refine blit_outside ?_
    omega

theorem setLen_offers {p : Page} (hlen : len < 2 ^ 32) (hroom : p.tail + sizeofFrameHead + len ≤ p.fileSize) :
    p.Offers len (p.tail + sizeofFrameHead) (p.tail + sizeofFrameHead + len) (p.setLen len) :=
  ⟨rfl, rfl, rfl, rfl, hroom, frameLen_setLen hlen, fun _ => setLen_outside⟩

/-! ## Which way a call goes -/

/-- The sum fits as it does without a width, unless it has wrapped. -/
theorem tailBehind_le_iff {p : Page} (hlt : p.fileSize < 2 ^ 32) (hwrap : ¬Wraps p.tail len p.fileSize) :
    tailBehind p len ≤ p.fileSize ↔ p.tail + sizeofFrameHead + len ≤ p.fileSize := by
  unfold Wraps at hwrap
  unfold tailBehind
  omega

theorem tailBehind_of_le {p : Page} (hlt : p.fileSize < 2 ^ 32)
    (hle : p.tail + sizeofFrameHead + len ≤ p.fileSize) :
    tailBehind p len = p.tail + sizeofFrameHead + len :=
  Nat.mod_eq_of_lt (by omega)

theorem tailBehind_of_wraps {p : Page} (hwrap : Wraps p.tail len p.fileSize) :
    tailBehind p len ≤ p.fileSize ∧ tailBehind p len < p.tail + sizeofFrameHead + len := by
  obtain ⟨h1, h2⟩ := hwrap
  exact ⟨h2, Nat.lt_of_lt_of_le (Nat.mod_lt _ (Nat.two_pow_pos 32)) h1⟩

theorem write_here (h : OnLast w ps p) (hle : tailBehind p data.length ≤ p.fileSize) :
    write opens data (n + 1) now w =
      some (w.store (put data (now 0 % 2 ^ 64) (tailBehind p data.length)), true) := by
  rw [write, h.mapped]
  dsimp only
  rw [h.size, if_pos hle]
  rfl

theorem write_closed (now : Nat → Nat) (h : OnLast w ps p) (hgt : ¬tailBehind p data.length ≤ p.fileSize) :
    ∃ w', write false data (n + 1) now w = some (w', false) ∧
      w'.group.pages = ps ++ [p.close (now 0)] := by
  obtain ⟨w', h1, h2⟩ := h.rollOver_false now
  refine ⟨w', ?_, h2⟩
  rw [write, h.mapped]
  dsimp only
  rw [h.size, if_neg hgt, h1]
  rfl

/-- The next page, and what then is done. -/
theorem write_next (now : Nat → Nat) (h : OnLast w ps p) (hgt : ¬tailBehind p data.length ≤ p.fileSize) :
    ∃ w', w'.pageSize = w.pageSize ∧
      OnLast w' (ps ++ [p.close (now 0)]) (newPage w.pageSize (now 1)) ∧
      write true data (n + 1) now w =
        if data.length ≤ (w.pageSize + 2 ^ 64 - sizeofPageHead - sizeofFrameHead) % 2 ^ 64 then
          write true data n (fun k => now (k + 2)) w'
        else some (w', false) := by
  obtain ⟨w', h1, h2, -, h3⟩ := h.rollOver_true now
  refine ⟨w', h2, h3, ?_⟩
  have hsize : w'.size = w.pageSize := h3.size
  rw [write, h.mapped]
  dsimp only
  rw [h.size, if_neg hgt, h1]
  dsimp only
  rw [if_neg (by decide), hsize]

theorem like_close (p : Page) (nano : Nat) : p.Like (p.close nano) := ⟨rfl, rfl, rfl⟩

/-- With pages of under 65 bytes every new page is too small, and the call goes on
to the next one until the sum wraps. -/
theorem write_small {nano : Nat} {ok : Bool} (h : OnLast w ps (newPage w.pageSize nano))
    (hge : sizeofPageHead ≤ w.pageSize) (hlt : w.pageSize < sizeofPageHead + sizeofFrameHead)
    (hlen : data.length < 2 ^ 32) (hw : write true data n now w = some (w', ok)) :
    ok = true ∧ ∃ ps' p', w'.group.pages = ps' ++ [p'] ∧ p'.tail < sizeofPageHead + sizeofFrameHead := by
  induction n generalizing w ps nano now with
  | zero => cases hw
  | succ n ih =>
    by_cases hle : tailBehind (newPage w.pageSize nano) data.length ≤ (newPage w.pageSize nano).fileSize
    · rw [write_here h hle, Option.some.injEq, Prod.mk.injEq] at hw
      obtain ⟨rfl, rfl⟩ := hw
      exact ⟨rfl, _, _, (h.store rfl).pages, Nat.lt_of_le_of_lt hle hlt⟩
    · obtain ⟨w₁, h1, h2, h3⟩ := write_next (n := n) now h hle
      have hroom : data.length ≤ (w.pageSize + 2 ^ 64 - sizeofPageHead - sizeofFrameHead) % 2 ^ 64 := by
        simp only [sizeofPageHead, sizeofFrameHead] at *
        omega
      rw [h3, if_pos hroom] at hw
      rw [← h1] at h2 hge hlt
      exact ih h2 hge hlt hw

theorem last_eq {ps ps' : List Page} {p p' : Page} (h : ps ++ [p] = ps' ++ [p']) : p = p' := by
  have := congrArg List.getLast? h
  simpa using this

/-- A frame that has been placed ends behind its head. -/
theorem le_tail_of_placed {pages ps' : List Page} {p' : Page} (hp : sizeofPageHead ≤ p.tail)
    (h : Placed data ps p pages true) (hlast : pages = ps' ++ [p']) :
    sizeofPageHead + sizeofFrameHead ≤ p'.tail := by
  obtain ⟨f, q, -, hadds, hpages⟩ | ⟨f, p₁, q, q', -, -, hq, hadds, hpages⟩ := h
  · obtain rfl := last_eq (hlast.symm.trans hpages)
    have hext := f.extent_pos
    rw [hadds.tail]
    omega
  · have hpages' : pages = ps ++ [p₁] ++ [q'] := by rw [hpages, List.append_assoc]; rfl
    obtain rfl := last_eq (hlast.symm.trans hpages')
    have hext := f.extent_pos
    rw [hadds.tail, hq]
    omega

/-- And where it may not, no run of it does. -/
theorem canWrite_of_placed {ok : Bool} (h : OnLast w ps p) (hb : Bounds w p) (hlen : data.length < 2 ^ 32)
    (hw : write opens data n now w = some (w', ok)) (hplaced : Placed data ps p w'.group.pages ok) :
    CanWrite opens data.length p w := by
  cases n with
  | zero => cases hw
  | succ n =>
    have hwrap : ¬Wraps p.tail data.length p.fileSize := by
      intro hwrap
      obtain ⟨hle, hlt⟩ := tailBehind_of_wraps hwrap
      rw [write_here h hle, Option.some.injEq, Prod.mk.injEq] at hw
      obtain ⟨rfl, rfl⟩ := hw
      have hpages := (h.store (f := put data (now 0 % 2 ^ 64) (tailBehind p data.length)) rfl).pages
      obtain ⟨f, p', rfl, hadds, hp'⟩ | ⟨f, p₁, q, q', -, -, -, -, hp'⟩ := hplaced
      · have heq : put f.data (now 0 % 2 ^ 64) (tailBehind p f.data.length) p = p' :=
          last_eq (hpages.symm.trans hp')
        have htail := hadds.tail
        rw [← heq, Frame.extent] at htail
        have htail' : tailBehind p f.data.length = p.tail + (sizeofFrameHead + f.data.length) := htail
        omega
      · have hlen' := congrArg List.length (hpages.symm.trans hp')
        simp at hlen'
    refine ⟨hwrap, ?_⟩
    rintro hgt rfl
    by_contra hsmall
    have hle : ¬tailBehind p data.length ≤ p.fileSize := by
      rw [tailBehind_le_iff hb.fileSize_lt hwrap]
      omega
    obtain ⟨w₁, h1, h2, h3⟩ := write_next (n := n) now h hle
    have hroom : data.length ≤ (w.pageSize + 2 ^ 64 - sizeofPageHead - sizeofFrameHead) % 2 ^ 64 := by
      have := hb.pageSize_ge
      simp only [sizeofPageHead, sizeofFrameHead] at *
      omega
    rw [h3, if_pos hroom] at hw
    have hge := hb.pageSize_ge
    rw [← h1] at h2 hge hsmall
    obtain ⟨rfl, ps', p', hpages, hlt⟩ := write_small h2 hge (by omega) hlen hw
    have := le_tail_of_placed hb.head_le hplaced hpages
    omega

/-- What `write` does where it may be called. -/
theorem write_of_canWrite (now : Nat → Nat) (h : OnLast w ps p) (hb : Bounds w p) (hlen : data.length < 2 ^ 32)
    (hc : CanWrite opens data.length p w) :
    ∃ w' ok, write opens data 2 now w = some (w', ok) ∧ Placed data ps p w'.group.pages ok := by
  obtain ⟨hwrap, hroom⟩ := hc
  have hiff := tailBehind_le_iff hb.fileSize_lt hwrap
  by_cases hle : tailBehind p data.length ≤ p.fileSize
  · have hfit := hiff.mp hle
    refine ⟨_, true, write_here h hle, ?_⟩
    rw [tailBehind_of_le hb.fileSize_lt hfit]
    refine Or.inl ⟨_, _, rfl, put_adds (now 0) hlen hfit, ?_⟩
    exact (h.store rfl).pages
  · cases opens with
    | false =>
      obtain ⟨w', h1, h2⟩ := write_closed (n := 1) now h hle
      exact ⟨w', false, h1, Or.inl ⟨_, like_close p _, h2⟩⟩
    | true =>
      have hsize : sizeofPageHead + sizeofFrameHead ≤ w.pageSize := hroom (by omega) rfl
      obtain ⟨w', h1, h2, h3⟩ := write_next (n := 1) now h hle
      have hpages : ps ++ [p.close (now 0)] ++ [newPage w.pageSize (now 1)] =
          ps ++ [p.close (now 0), newPage w.pageSize (now 1)] := List.append_assoc _ _ _
      have hmod : (w.pageSize + 2 ^ 64 - sizeofPageHead - sizeofFrameHead) % 2 ^ 64 =
          w.pageSize - sizeofPageHead - sizeofFrameHead := by
        have := hb.pageSize_lt
        simp only [sizeofPageHead, sizeofFrameHead] at *
        omega
      rw [h3, hmod]
      by_cases hfit : data.length ≤ w.pageSize - sizeofPageHead - sizeofFrameHead
      · have hfit' : (newPage w.pageSize (now 1)).tail + sizeofFrameHead + data.length ≤
            (newPage w.pageSize (now 1)).fileSize := by
          have htail : (newPage w.pageSize (now 1)).tail = sizeofPageHead := rfl
          have hfs : (newPage w.pageSize (now 1)).fileSize = w.pageSize := rfl
          omega
        have hlt' : (newPage w.pageSize (now 1)).fileSize < 2 ^ 32 := hb.pageSize_lt
        have htail := tailBehind_of_le hlt' hfit'
        rw [if_pos hfit]
        refine ⟨_, true, write_here h2 (by rw [htail]; exact hfit'), ?_⟩
        rw [htail]
        refine Or.inr ⟨_, _, _, _, rfl, like_close p (now 0), rfl,
          put_adds (now 2) hlen hfit', ?_⟩
        rw [(h2.store rfl).pages, List.append_assoc]
        rfl
      · rw [if_neg hfit]
        exact ⟨w', false, rfl, Or.inr ⟨_, _, like_close p (now 0), rfl, h2.pages.trans hpages⟩⟩

/-! ## Room ahead -/

theorem prefetch_here (h : OnLast w ps p) (hle : tailBehind p len ≤ p.fileSize) :
    prefetch opens now len w =
      (store (Page.setLen len) { w with prefetchTail := tailBehind p len },
        some (p.tail + sizeofFrameHead)) := by
  rw [prefetch, h.mapped]
  dsimp only
  rw [if_pos (by rw [h.size]; exact hle)]

theorem prefetch_closed (now : Nat → Nat) (h : OnLast w ps p) (hgt : ¬tailBehind p len ≤ p.fileSize) :
    ∃ w', prefetch false now len w = (w', none) ∧ w'.group.pages = ps ++ [p.close (now 0)] := by
  have h' : OnLast { w with prefetchTail := tailBehind p len } ps p :=
    ⟨h.fd, h.pages, h.pageNum, h.size⟩
  obtain ⟨w', h1, h2⟩ := h'.rollOver_false now
  refine ⟨w', ?_, h2⟩
  rw [prefetch, h.mapped]
  dsimp only
  rw [if_neg (by rw [h.size]; exact hgt), h1]
  rfl

theorem prefetch_next (now : Nat → Nat) (h : OnLast w ps p) (hgt : ¬tailBehind p len ≤ p.fileSize) :
    ∃ w', OnLast w' (ps ++ [p.close (now 0)]) (newPage w.pageSize (now 1)) ∧
      w'.prefetchTail = tailBehind (newPage w.pageSize (now 1)) len ∧
      prefetch true now len w =
        if tailBehind (newPage w.pageSize (now 1)) len ≤ w.pageSize then
          (w'.store (Page.setLen len), some (sizeofPageHead + sizeofFrameHead))
        else (w', none) := by
  have h' : OnLast { w with prefetchTail := tailBehind p len } ps p :=
    ⟨h.fd, h.pages, h.pageNum, h.size⟩
  obtain ⟨w', h1, h2, -, h3⟩ := h'.rollOver_true now
  refine ⟨{ w' with prefetchTail := tailBehind (newPage w.pageSize (now 1)) len },
    ⟨h3.fd, h3.pages, h3.pageNum, h3.size⟩, rfl, ?_⟩
  have hsize : w'.size = w.pageSize := h3.size
  rw [prefetch, h.mapped]
  dsimp only
  rw [if_neg (by rw [h.size]; exact hgt), h1]
  dsimp only
  rw [if_neg (by decide), h3.mapped]
  dsimp only
  rw [hsize]
  rfl

theorem pair_ne {ps : List Page} {p q q' : Page} : ps ++ [p] ≠ ps ++ [q, q'] := fun h => by
  have := congrArg List.length h
  simp at this

/-- What `prefetch` offers lies in the page just where it may be called. -/
theorem fetched_iff (h : OnLast w ps p) (hb : Bounds w p) (hlen : len < 2 ^ 32) :
    Fetched len ps p (prefetch opens now len w).1 (prefetch opens now len w).2 ↔
      CanPrefetch opens len p w := by
  by_cases hle : tailBehind p len ≤ p.fileSize
  · have h' : OnLast { w with prefetchTail := tailBehind p len } ps p :=
      ⟨h.fd, h.pages, h.pageNum, h.size⟩
    have hpages := (h'.store (f := Page.setLen len) rfl).pages
    rw [prefetch_here h hle]
    constructor
    · intro hf
      have hsum : tailBehind p len = p.tail + sizeofFrameHead + len := by
        obtain ⟨p', ho, -⟩ | ⟨p₁, q, q', -, -, -, hq⟩ := hf
        · exact ho.tail_eq
        · exact absurd (hpages.symm.trans hq) pair_ne
      refine ⟨fun hwrap => ?_, fun hgt _ => ?_⟩
      · have := (tailBehind_of_wraps hwrap).2
        omega
      · omega
    · rintro ⟨hwrap, -⟩
      have hfit := (tailBehind_le_iff hb.fileSize_lt hwrap).mp hle
      refine Or.inl ⟨p.setLen len, ?_, hpages⟩
      have ho := setLen_offers hlen hfit
      rw [← tailBehind_of_le hb.fileSize_lt hfit] at ho
      exact ho
  · have hgt : p.fileSize < p.tail + sizeofFrameHead + len := by
      unfold tailBehind at hle
      have := Nat.mod_le (p.tail + sizeofFrameHead + len) (2 ^ 32)
      omega
    have hwrap : ¬Wraps p.tail len p.fileSize := fun hw => hle hw.2
    cases opens with
    | false =>
      obtain ⟨w', h1, h2⟩ := prefetch_closed now h hle
      rw [h1]
      exact iff_of_true (Or.inl ⟨_, like_close p (now 0), h2⟩) ⟨hwrap, fun _ hf => by cases hf⟩
    | true =>
      obtain ⟨w', h1, h2, h3⟩ := prefetch_next now h hle
      have hpages : ∀ q : Page, ps ++ [p.close (now 0)] ++ [q] = ps ++ [p.close (now 0), q] :=
        fun q => List.append_assoc _ _ _
      rw [h3]
      by_cases hle' : tailBehind (newPage w.pageSize (now 1)) len ≤ w.pageSize
      · have hstore := (h1.store (f := Page.setLen len) rfl).pages
        rw [if_pos hle']
        constructor
        · intro hf
          refine ⟨hwrap, fun _ _ hwrap' => ?_⟩
          have hsum : tailBehind (newPage w.pageSize (now 1)) len = sizeofPageHead + sizeofFrameHead + len := by
            rw [← h2]
            obtain ⟨p', -, hq⟩ | ⟨p₁, q, q', -, hq, ho, -⟩ := hf
            · exact absurd (hq.symm.trans (hstore.trans (hpages _))) pair_ne
            · exact ho.tail_eq
          have := (tailBehind_of_wraps (p := newPage w.pageSize (now 1)) hwrap').2
          have htail : (newPage w.pageSize (now 1)).tail = sizeofPageHead := rfl
          omega
        · rintro ⟨-, hnext⟩
          have hfit : sizeofPageHead + sizeofFrameHead + len ≤ w.pageSize :=
            (tailBehind_le_iff (p := newPage w.pageSize (now 1)) hb.pageSize_lt (hnext hgt rfl)).mp hle'
          refine Or.inr ⟨p.close (now 0), newPage w.pageSize (now 1), _, like_close p (now 0), rfl, ?_,
            hstore.trans (hpages _)⟩
          have ho := setLen_offers (p := newPage w.pageSize (now 1)) hlen hfit
          have hsum := tailBehind_of_le (p := newPage w.pageSize (now 1)) hb.pageSize_lt hfit
          rw [← hsum, ← h2] at ho
          exact ho
      · rw [if_neg hle']
        refine iff_of_true (Or.inr ⟨_, _, like_close p (now 0), rfl, h1.pages.trans (hpages _)⟩) ⟨hwrap, ?_⟩
        exact fun _ _ hw => hle' hw.2

/-- The data and the rest of the head go to a page that has the length. -/
theorem adds_of_offers {q : Page} {off tail : Nat} (nano : Nat) (ho : p.Offers data.length off tail q) :
    p.Adds ⟨nano % 2 ^ 64, data⟩ ((q.fill data).stamp (nano % 2 ^ 64) tail) := by
  have htail : tail = p.tail + (Frame.mk (nano % 2 ^ 64) data).extent := by
    rw [ho.tail_eq, ho.off_eq, Nat.add_assoc]
    rfl
  have hroom := ho.room
  rw [htail] at hroom ⊢
  have hlen : frameLen (q.fill data).mem p.tail = data.length := by
    rw [frameLen, Page.fill]
    dsimp only
    rw [slice_blit_disjoint (by rw [ho.unmoved]; simp only [sizeofFrameHead]; omega)]
    exact ho.len_eq
  have hdata : slice (q.fill data).mem (p.tail + sizeofFrameHead) data.length = data := by
    rw [← ho.unmoved]
    exact slice_blit_same q.mem (q.tail + sizeofFrameHead) data
  refine stamp_adds ho.unmoved ho.fileSize hlen hdata (Nat.mod_lt _ (Nat.two_pow_pos 64)) hroom
    fun a ha => ?_
  have hext : (Frame.mk (nano % 2 ^ 64) data).extent = sizeofFrameHead + data.length := rfl
  rw [hext] at ha
  have hout : (q.fill data).mem a = q.mem a := blit_outside (by rw [ho.unmoved]; omega)
  rw [hout]
  exact ho.kept a (ha.imp_right fun h => by rw [ho.off_eq]; omega)

/-- What has been prefetched and filled is a frame after `commit`. -/
theorem commit_adds {q : Page} {off : Nat} (nano : Nat) (h : OnLast w ps q)
    (ho : p.Offers data.length off w.prefetchTail q) :
    ∃ p', p.Adds ⟨nano % 2 ^ 64, data⟩ p' ∧
      ((w.store (Page.fill data)).commit nano).group.pages = ps ++ [p'] := by
  have hfill := h.store (f := Page.fill data) rfl
  have hstamp := hfill.store (f := Page.stamp (nano % 2 ^ 64) w.prefetchTail) rfl
  exact ⟨_, adds_of_offers nano ho, hstamp.pages⟩

/-- **Frames stay in their pages**, just where no sum wraps and, for `write`, new
pages are large enough for the head of a frame. -/
theorem inside_iff (h : OnLast w ps p) (hb : Bounds w p) (opens : Bool) (now : Nat → Nat) :
    (∀ data : List UInt8, data.length < 2 ^ 32 →
      ((∃ n w' ok, write opens data n now w = some (w', ok) ∧ Placed data ps p w'.group.pages ok) ↔
        CanWrite opens data.length p w)) ∧
    ∀ len < 2 ^ 32,
      (Fetched len ps p (prefetch opens now len w).1 (prefetch opens now len w).2 ↔
        CanPrefetch opens len p w) := by
  refine ⟨fun data hlen => ⟨?_, fun hc => ?_⟩, fun len hlen => fetched_iff h hb hlen⟩
  · rintro ⟨n, w', ok, hw, hplaced⟩
    exact canWrite_of_placed h hb hlen hw hplaced
  · obtain ⟨w', ok, hw, hplaced⟩ := write_of_canWrite now h hb hlen hc
    exact ⟨2, w', ok, hw, hplaced⟩

/-- A writer of the default page size after `init` where there is no page. -/
def fresh : CRawIOWriter := (init true 0 { group := { first := 0, pages := [] } }).1

theorem fresh_onLast : OnLast fresh [] (newPage (128 * 1024 * 1024) 0) := ⟨rfl, rfl, rfl, rfl⟩

theorem fresh_bounds : Bounds fresh (newPage (128 * 1024 * 1024) 0) := by
  refine ⟨?_, ?_, ?_, ?_, ?_⟩ <;> decide

theorem inside_fresh : (∃ n w' ok, write true [7] n (fun _ => 5) fresh = some (w', ok) ∧
    Placed [7] [] (newPage (128 * 1024 * 1024) 0) w'.group.pages ok) ↔
      CanWrite true 1 (newPage (128 * 1024 * 1024) 0) fresh :=
  (inside_iff fresh_onLast fresh_bounds true fun _ => 5).1 [7] (by decide)

/-- A length of `7 - sizeof(tSASignalData)`, as a packet of a bare head gives it:
the frame is said to be written, and the tail moves by 16 bytes. -/
theorem not_inside :
    (∃ w', write true (List.replicate (2 ^ 32 - 4) 0) 1 (fun _ => 5) fresh = some (w', true) ∧
      w'.mapped.map Page.tail = some 61) ∧
    ¬∃ n w' ok, write true (List.replicate (2 ^ 32 - 4) 0) n (fun _ => 5) fresh = some (w', ok) ∧
      Placed (List.replicate (2 ^ 32 - 4) 0) [] (newPage (128 * 1024 * 1024) 0) w'.group.pages ok := by
  have hlen : (List.replicate (2 ^ 32 - 4) (0 : UInt8)).length = 2 ^ 32 - 4 := List.length_replicate
  generalize List.replicate (2 ^ 32 - 4) (0 : UInt8) = data at hlen ⊢
  have hsum : tailBehind (newPage (128 * 1024 * 1024) 0) data.length = 61 := by
    rw [hlen]
    decide
  constructor
  · have hle : tailBehind (newPage (128 * 1024 * 1024) 0) data.length ≤
        (newPage (128 * 1024 * 1024) 0).fileSize := by
      rw [hsum]
      decide
    have hstore := fresh_onLast.store (f := put data (5 % 2 ^ 64)
      (tailBehind (newPage (128 * 1024 * 1024) 0) data.length)) rfl
    refine ⟨_, write_here fresh_onLast hle, ?_⟩
    rw [hstore.mapped, hsum]
    rfl
  · rintro ⟨n, w', ok, hw, hplaced⟩
    have hlt : data.length < 2 ^ 32 := by
      rw [hlen]
      decide
    refine (canWrite_of_placed fresh_onLast fresh_bounds hlt hw hplaced).1 ?_
    rw [hlen]
    unfold Wraps
    decide

end CRawIOWriter

end NatFramework.Io
