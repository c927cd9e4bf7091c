import Mathlib.Data.List.TakeWhile
import NatFramework.Io.CIOBase

/-!
# The reader of a group of pages

`io/CRawIOReader` over pages that stay as they are. A reader has mapped the page
`page_num_` when `fd_ >= 0`, and its cursor is an offset into it; otherwise the
page has not been there when it was tried last.

* A head read through `buf_` when nothing is mapped, or a frame read behind the
  end of the mapping, is a fault: `none`. The scan of `seekTime` also gives the
  cursors at which it has looked at a frame.
* `Reads g fss r out`: the frames `r` has not read yet are `out`.
* `read_spec`, `getCurFrame_spec`: what the two readers do there.
-/
namespace NatFramework.Io

open Lib

/-- `fd` is `fd_ >= 0`.
mirrors io/CRawIOReader.h:55-57 and io/CIOBase.h:84-92 -/
structure CRawIOReader where
  fd : Bool := false
  cursor : Nat := 0
  pageNum : Nat := 0
  deriving DecidableEq, Repr

namespace CRawIOReader

variable (g : PageGroup)

/-- The page `buf_` points at. -/
def mapped (r : CRawIOReader) : Option Page := if r.fd then g.file r.pageNum else none

def unload (r : CRawIOReader) : CRawIOReader := { r with fd := false }

/-- Every call is `load(page_num_)`.
mirrors io/CRawIOReader.cpp:138-202 -/
def load (r : CRawIOReader) : CRawIOReader × Bool :=
  match g.file r.pageNum with
  | none => ({ r with fd := false }, false)
  | some p =>
    if p.fileSize < sizeofPageHead then ({ r with fd := false }, false)
    else if !p.checkPageHead then ({ r with fd := false }, false)
    else ({ r with fd := true, cursor := sizeofPageHead }, true)

/-- `unload(); load(++page_num_)` -/
def loadNext (r : CRawIOReader) : CRawIOReader × Bool :=
  load g { r.unload with pageNum := r.pageNum + 1 }

variable {g} in
theorem load_true {r : CRawIOReader} (h : (load g r).2 = true) :
    (load g r).1 = { r with fd := true, cursor := sizeofPageHead } ∧
      r.pageNum < g.first + g.pages.length ∧ ∃ p, g.file r.pageNum = some p := by
  unfold load at h ⊢
  split at h
  · cases h
  · rename_i p hp
    split_ifs at h with h1 h2
    rw [if_neg h1, if_neg h2]
    exact ⟨rfl, PageGroup.lt_of_file hp, p, hp⟩

variable {g} in
theorem loadNext_true {r : CRawIOReader} (h : (loadNext g r).2 = true) :
    (loadNext g r).1 = { fd := true, cursor := sizeofPageHead, pageNum := r.pageNum + 1 } ∧
      r.pageNum + 1 < g.first + g.pages.length := by
  obtain ⟨h1, h2, -⟩ := load_true h
  exact ⟨h1, h2⟩

/-- What `read` and `getCurFrame` share: `f` is done at a valid frame.
mirrors io/CRawIOReader.h:63-88 and io/CRawIOReader.h:111-133 -/
def atFrame {α : Type} (f : Page → CRawIOReader → CRawIOReader × Option α) (r : CRawIOReader) :
    CRawIOReader × Option α :=
  match _hm : r.mapped g with
  | some p =>
    if r.cursor < p.tail then
      if frameMagic p.mem r.cursor ≠ frameHeadMagic then ({ r with cursor := p.tail }, none)
      else f p r
    else if p.status = pageStatusFinish then
      if _h : (loadNext g r).2 = true then atFrame f (loadNext g r).1 else ((loadNext g r).1, none)
    else (r, none)
  | none =>
    if _h : (load g r).2 = true then atFrame f (load g r).1 else ((load g r).1, none)
termination_by (g.first + g.pages.length - r.pageNum, if r.fd then 0 else 1)
decreasing_by
  · obtain ⟨he, hlt⟩ := loadNext_true _h
    rw [he]
    apply Prod.Lex.left
    dsimp only
    omega
  · obtain ⟨he, -, p, hp⟩ := load_true _h
    have hfd : r.fd = false := by
      cases hfd : r.fd with
      | false => rfl
      | true => rw [mapped, hfd, if_pos rfl, hp] at _hm; cases _hm
    rw [he, hfd]
    exact Prod.Lex.right _ (by simp)

/-- The pointer gives the data, and the head before it.
mirrors io/CRawIOReader.h:63-88 -/
def read (r : CRawIOReader) : CRawIOReader × Option Frame :=
  atFrame g (fun p r =>
    ({ r with cursor := r.cursor + sizeofFrameHead + frameLen p.mem r.cursor },
      some (frameAt p.mem r.cursor))) r

/-- mirrors io/CRawIOReader.h:111-133 -/
def getCurFrame (r : CRawIOReader) : CRawIOReader × Option Frame :=
  atFrame g (fun p r => (r, some (frameAt p.mem r.cursor))) r

/-- mirrors io/CRawIOReader.h:94-106 -/
def passFrame (r : CRawIOReader) : CRawIOReader :=
  match r.mapped g with
  | some p =>
    if r.cursor < p.tail then
      { r with cursor := r.cursor + (frameLen p.mem r.cursor + sizeofFrameHead) }
    else if p.status = pageStatusFinish then (loadNext g r).1
    else r
  | none => (load g r).1

/-! ## The frames that are left -/

/-- Page number `k` of the group is mapped, `before` lies behind the cursor and
`cur` ahead of it. -/
structure At (fss : List (List Frame)) (r : CRawIOReader) (k : Nat) (before cur : List Frame) :
    Prop where
  fd : r.fd = true
  pageNum : r.pageNum = g.first + k
  frames : fss[k]? = some (before ++ cur)
  laid : ∀ p, g.pages[k]? = some p →
    Laid p.mem sizeofPageHead before r.cursor ∧ Laid p.mem r.cursor cur p.tail

/-- The frames of the files from `num` on; none where a file is missing. -/
def framesFrom (fss : List (List Frame)) (num : Nat) : List Frame :=
  if num < g.first then [] else (fss.drop (num - g.first)).flatten

/-- The frames the reader has not read are `out`. -/
def Reads (fss : List (List Frame)) (r : CRawIOReader) (out : List Frame) : Prop :=
  (∃ k before cur, At g fss r k before cur ∧ out = cur ++ framesFrom g fss (r.pageNum + 1)) ∨
    (r.fd = false ∧ out = framesFrom g fss r.pageNum)

variable {g} {fss : List (List Frame)} {r : CRawIOReader} {k : Nat} {before cur out : List Frame}

theorem At.bears (hc : g.Carries fss) (h : At g fss r k before cur) :
    ∃ p, g.pages[k]? = some p ∧ r.mapped g = some p ∧ p.Bears (before ++ cur) := by
  obtain ⟨p, hp, hb⟩ := hc.bears h.frames
  exact ⟨p, hp, by rw [mapped, h.fd, if_pos rfl, h.pageNum, PageGroup.file_add, hp], hb⟩

theorem At.page (hst : g.Static fss) (h : At g fss r k before cur) :
    ∃ p, g.pages[k]? = some p ∧ r.mapped g = some p ∧ p.Holds (before ++ cur) := by
  obtain ⟨p, hp, hm, -⟩ := h.bears hst.carries
  obtain ⟨fs, hfs, hh⟩ := hst.page hp
  rw [h.frames, Option.some.injEq] at hfs
  exact ⟨p, hp, hm, hfs ▸ hh⟩

theorem framesFrom_add (k : Nat) : framesFrom g fss (g.first + k) = (fss.drop k).flatten := by
  rw [framesFrom, if_neg (by omega), Nat.add_sub_cancel_left]

theorem framesFrom_of_le (h : fss.length ≤ k) : framesFrom g fss (g.first + k) = [] := by
  rw [framesFrom_add, List.drop_eq_nil_of_le h]
  rfl

/-- Opening a page that has its head. -/
theorem load_of_frames (hc : g.Carries fss) {fs : List Frame} (hfs : fss[k]? = some fs)
    (hnum : r.pageNum = g.first + k) :
    load g r = ({ r with fd := true, cursor := sizeofPageHead }, true) ∧
      At g fss (load g r).1 k [] fs := by
  obtain ⟨p, hp, hb⟩ := hc.bears hfs
  have hload : load g r = ({ r with fd := true, cursor := sizeofPageHead }, true) := by
    rw [load, hnum, PageGroup.file_add, hp]
    dsimp only
    rw [if_neg (by have := hb.fileSize_ge; omega), if_neg (by rw [hb.head]; decide)]
  refine ⟨hload, ?_⟩
  rw [hload]
  refine ⟨rfl, hnum, hfs, fun q hq => ?_⟩
  obtain rfl : p = q := by rw [hp] at hq; simpa using hq
  exact ⟨rfl, hb.laid⟩

/-- A page without a head is not opened, and no page lies behind it. -/
theorem load_of_raw (hc : g.Carries fss) (h : r.pageNum < g.first ∨ g.first + fss.length ≤ r.pageNum) :
    load g r = (r.unload, false) ∧ framesFrom g fss r.pageNum = [] := by
  rcases h with hlt | hge
  · refine ⟨?_, if_pos hlt⟩
    rw [load, PageGroup.file_of_lt hlt]
    rfl
  · obtain ⟨k, hk⟩ := Nat.exists_eq_add_of_le (show g.first ≤ r.pageNum by omega)
    have hfile : g.file r.pageNum = g.pages[k]? := by rw [hk, PageGroup.file_add]
    refine ⟨?_, by rw [hk]; exact framesFrom_of_le (by omega)⟩
    rw [load, hfile]
    cases hp : g.pages[k]? with
    | none => rfl
    | some p =>
      have hraw := hc.raw hp (by omega)
      have hhead : p.checkPageHead = false := by
        rw [Page.checkPageHead, decide_eq_false_iff_not]
        exact fun h => hraw h.1
      dsimp only
      split
      · rfl
      · rw [if_pos (by rw [hhead]; rfl)]
        rfl

theorem load_cases (hc : g.Carries fss) (r : CRawIOReader) :
    (load g r = ({ r with fd := true, cursor := sizeofPageHead }, true) ∧
      ∃ k fs, At g fss (load g r).1 k [] fs ∧
        framesFrom g fss r.pageNum = fs ++ framesFrom g fss (r.pageNum + 1)) ∨
    (load g r = (r.unload, false) ∧ framesFrom g fss r.pageNum = []) := by
  by_cases h : r.pageNum < g.first ∨ g.first + fss.length ≤ r.pageNum
  · exact Or.inr (load_of_raw hc h)
  · obtain ⟨k, hk⟩ := Nat.exists_eq_add_of_le (show g.first ≤ r.pageNum by omega)
    have hlt : k < fss.length := by omega
    obtain ⟨hl, hat⟩ := load_of_frames hc (List.getElem?_eq_getElem hlt) hk
    refine Or.inl ⟨hl, k, _, hat, ?_⟩
    rw [hk, framesFrom_add, Nat.add_assoc, framesFrom_add, List.drop_eq_getElem_cons hlt]
    rfl

/-- Opening a file of a group nobody writes to. -/
theorem load_of_file (hst : g.Static fss) {p : Page} (hp : g.file r.pageNum = some p) :
    load g r = ({ r with fd := true, cursor := sizeofPageHead }, true) ∧
      ∃ k fs, At g fss (load g r).1 k [] fs ∧
        framesFrom g fss r.pageNum = fs ++ framesFrom g fss (r.pageNum + 1) := by
  have hlt := PageGroup.lt_of_file hp
  have hge : ¬r.pageNum < g.first := fun h => by rw [PageGroup.file_of_lt h] at hp; cases hp
  obtain ⟨k, hk⟩ := Nat.exists_eq_add_of_le (show g.first ≤ r.pageNum by omega)
  have hbound : k < fss.length := by
    rw [← hst.length]
    omega
  have hget : fss[k]? = some fss[k] := List.getElem?_eq_getElem hbound
  obtain h | ⟨hl, -⟩ := load_cases hst.carries r
  · exact h
  · rw [(load_of_frames hst.carries hget hk).1] at hl
    cases hl

theorem load_of_none (h : g.file r.pageNum = none) : load g r = (r.unload, false) := by
  rw [load, h]
  rfl

/-- `load` neither loses nor repeats a frame. -/
theorem reads_load (hc : g.Carries fss) (r : CRawIOReader) :
    Reads g fss (load g r).1 (framesFrom g fss r.pageNum) := by
  obtain ⟨hl, k, fs, hat, hout⟩ | ⟨hl, -⟩ := load_cases hc r
  · rw [hout]
    exact Or.inl ⟨k, [], fs, hat, by rw [hl]⟩
  · rw [hl]
    exact Or.inr ⟨rfl, rfl⟩

/-- Nor does going on to the next page at the end of a finished one. -/
theorem reads_loadNext (hc : g.Carries fss) (r : CRawIOReader) :
    Reads g fss (loadNext g r).1 (framesFrom g fss (r.pageNum + 1)) :=
  reads_load hc _

/-- The page behind one that goes on is not there. -/
theorem framesFrom_of_writting (hc : g.Carries fss) {p : Page} (hp : g.pages[k]? = some p)
    (hs : p.status ≠ pageStatusFinish) : framesFrom g fss (g.first + k + 1) = [] := by
  rw [Nat.add_assoc]
  refine framesFrom_of_le ?_
  by_contra hlt
  have := hc.le_length
  exact hs (hc.finished hp (by omega))

/-! ## Reading -/

theorem file_of_load_false (hc : g.Carries fss) (h : ¬(load g r).2 = true) :
    framesFrom g fss r.pageNum = [] := by
  obtain ⟨hl, -⟩ | ⟨-, hnil⟩ := load_cases hc r
  · exact absurd (by rw [hl]) h
  · exact hnil

/-- A mapped reader stands in its page. -/
theorem Reads.at_of_mapped {p : Page} (hc : g.Carries fss) (h : Reads g fss r out)
    (hm : r.mapped g = some p) :
    ∃ k before cur, At g fss r k before cur ∧ g.pages[k]? = some p ∧
      out = cur ++ framesFrom g fss (r.pageNum + 1) := by
  obtain ⟨k, before, cur, hat, hout⟩ | ⟨hfd, -⟩ := h
  · obtain ⟨q, hq, hqm, -⟩ := hat.bears hc
    obtain rfl : p = q := by rw [hm] at hqm; simpa using hqm
    exact ⟨k, before, cur, hat, hq, hout⟩
  · rw [mapped, hfd] at hm
    cases hm

theorem Reads.of_unmapped (hc : g.Carries fss) (h : Reads g fss r out) (hm : r.mapped g = none) :
    r.fd = false ∧ out = framesFrom g fss r.pageNum := by
  obtain ⟨k, before, cur, hat, -⟩ | hc := h
  · obtain ⟨q, -, hqm, -⟩ := hat.bears hc
    rw [hm] at hqm
    cases hqm
  · exact hc

/-- At the end of its page a reader has what the next pages have. -/
theorem At.nil_of_not_lt {p : Page} (h : At g fss r k before cur) (hp : g.pages[k]? = some p)
    (hlt : ¬r.cursor < p.tail) : cur = [] := by
  by_contra hne
  exact hlt ((h.laid p hp).2.lt_iff.mpr hne)

/-- Where a reader comes to: to the first frame that is left, if there is one. -/
theorem atFrame_spec {α : Type} {f : Page → CRawIOReader → CRawIOReader × Option α}
    (hc : g.Carries fss) (h : Reads g fss r out) :
    (out = [] ∧ (atFrame g f r).2 = none ∧ Reads g fss (atFrame g f r).1 []) ∨
      ∃ r' p k before fr cur, atFrame g f r = f p r' ∧ At g fss r' k before (fr :: cur) ∧
        g.pages[k]? = some p ∧ out = fr :: cur ++ framesFrom g fss (r'.pageNum + 1) := by
  fun_induction atFrame g f r with
  | case1 r p hm hlt hbad =>
    obtain ⟨k, before, cur, hat, hp, hout⟩ := h.at_of_mapped hc hm
    have hl := (hat.laid p hp).2
    obtain ⟨x, cur, rfl⟩ := List.exists_cons_of_ne_nil (hl.lt_iff.mp hlt)
    exact absurd hl.1.magic hbad
  | case2 r p hm hlt hok =>
    obtain ⟨k, before, cur, hat, hp, hout⟩ := h.at_of_mapped hc hm
    obtain ⟨x, cur, rfl⟩ := List.exists_cons_of_ne_nil ((hat.laid p hp).2.lt_iff.mp hlt)
    exact Or.inr ⟨r, p, k, before, x, cur, rfl, hat, hp, hout⟩
  | case3 r p hm hlt hfin hl ih =>
    obtain ⟨k, before, cur, hat, hp, hout⟩ := h.at_of_mapped hc hm
    refine ih ?_
    rw [hout, hat.nil_of_not_lt hp hlt]
    exact reads_loadNext hc r
  | case4 r p hm hlt hfin hl =>
    obtain ⟨k, before, cur, hat, hp, hout⟩ := h.at_of_mapped hc hm
    have hnil : framesFrom g fss (r.pageNum + 1) = [] := file_of_load_false hc hl
    rw [hat.nil_of_not_lt hp hlt, hnil] at hout
    have hr := reads_loadNext hc r
    rw [hnil] at hr
    exact Or.inl ⟨hout, rfl, hr⟩
  | case5 r p hm hlt hfin =>
    obtain ⟨k, before, cur, hat, hp, hout⟩ := h.at_of_mapped hc hm
    have hnil := framesFrom_of_writting hc hp hfin
    rw [← hat.pageNum] at hnil
    have hout' := hout
    rw [hat.nil_of_not_lt hp hlt, hnil] at hout'
    rw [hout'] at h
    exact Or.inl ⟨hout', rfl, h⟩
  | case6 r hm hl ih =>
    refine ih ?_
    rw [(h.of_unmapped hc hm).2]
    exact reads_load hc r
  | case7 r hm hl =>
    have hnil := file_of_load_false hc hl
    have hout := (h.of_unmapped hc hm).2
    have hr := reads_load hc r
    rw [hnil] at hr hout
    exact Or.inl ⟨hout, rfl, hr⟩

/-- The step over a frame. -/
theorem At.step {p : Page} {fr : Frame} (h : At g fss r k before (fr :: cur))
    (hp : g.pages[k]? = some p) :
    At g fss { r with cursor := r.cursor + sizeofFrameHead + frameLen p.mem r.cursor } k
      (before ++ [fr]) cur := by
  have hl := (h.laid p hp).2
  refine ⟨h.fd, h.pageNum, by rw [h.frames, List.append_assoc]; rfl, fun q hq => ?_⟩
  obtain rfl : p = q := by rw [hp] at hq; simpa using hq
  have hc : r.cursor + sizeofFrameHead + frameLen p.mem r.cursor = r.cursor + fr.extent := by
    rw [hl.1.len, Nat.add_assoc]
    rfl
  dsimp only
  rw [hc]
  exact ⟨laid_append.mpr ⟨_, (h.laid p hp).1, hl.1, rfl⟩, hl.2⟩

theorem getCurFrame_spec (hc : g.Carries fss) (h : Reads g fss r out) :
    (getCurFrame g r).2 = out.head? ∧ Reads g fss (getCurFrame g r).1 out := by
  unfold getCurFrame
  obtain ⟨rfl, hn, hr⟩ | ⟨r', p, k, before, fr, cur, he, hat, hp, rfl⟩ :=
    atFrame_spec (f := fun p r => (r, some (frameAt p.mem r.cursor))) hc h
  · exact ⟨hn, hr⟩
  · rw [he]
    have hs := (hat.laid p hp).2.1
    exact ⟨congrArg some hs.frameAt, Or.inl ⟨k, before, fr :: cur, hat, rfl⟩⟩

theorem read_spec (hc : g.Carries fss) (h : Reads g fss r out) :
    (read g r).2 = out.head? ∧ Reads g fss (read g r).1 out.tail := by
  unfold read
  obtain ⟨rfl, hn, hr⟩ | ⟨r', p, k, before, fr, cur, he, hat, hp, rfl⟩ :=
    atFrame_spec (f := fun p r =>
      ({ r with cursor := r.cursor + sizeofFrameHead + frameLen p.mem r.cursor },
        some (frameAt p.mem r.cursor))) hc h
  · exact ⟨hn, hr⟩
  · rw [he]
    have hs := (hat.laid p hp).2.1
    exact ⟨congrArg some hs.frameAt, Or.inl ⟨k, before ++ [fr], cur, hat.step hp, rfl⟩⟩

/-- What `n` reads return. -/
def readN (g : PageGroup) (r : CRawIOReader) : Nat → List (Option Frame)
  | 0 => []
  | n + 1 => (read g r).2 :: readN g (read g r).1 n

/-- The frames that are left, in order, each once, and then null. -/
theorem readN_spec (hc : g.Carries fss) (h : Reads g fss r out) (n : Nat) :
    readN g r n = (out.take n).map some ++ List.replicate (n - out.length) none := by
  induction n generalizing r out with
  | zero => simp [readN]
  | succ n ih =>
    obtain ⟨h1, h2⟩ := read_spec hc h
    rw [readN, h1, ih h2]
    cases out with
    | nil => simp [List.replicate_succ]
    | cons fr out => simp

end CRawIOReader

end NatFramework.Io
