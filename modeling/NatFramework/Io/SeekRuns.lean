import Mathlib.Data.List.GetD
import NatFramework.Io.Seek

/-!
# Runs of a reader

The calls of `io/CRawIOReader` in any order. The scan of `seekTime` is ended only
by a frame that is late enough: at the tail of a page whose last time is the one
asked for, or a later one, it goes on over what nobody has written.

* `CanSeek`, `CanSet`: where `seekTime` and `setReadPos` stay before the tail, and
  where `setReadPos` comes to the same place from everywhere.
* `seek_iff`: in runs whose calls keep to this, both do exactly there.
-/
namespace NatFramework.Io

open Lib

namespace CRawIOReader

inductive ReaderCall
  | init (fromNano : Int)
  | initAt (fromPage fromNano : Int)
  | read
  | passFrame
  | seek (frameNo : Int)
  | seekTime (nano : Int)
  | setReadPos (nano : Int)

variable (g : PageGroup)

/-- The reader after a call; `none`: a fault. -/
def call (c : ReaderCall) (r : CRawIOReader) : Option CRawIOReader :=
  match c with
  | .init fromNano => (init g fromNano r).2
  | .initAt fromPage fromNano => (initAt g fromPage fromNano r).2
  | .read => some (read g r).1
  | .passFrame => some (passFrame g r)
  | .seek frameNo => seek g frameNo r
  | .seekTime nano => (seekTime g nano r).2
  | .setReadPos nano => (setReadPos g nano r).2

/-- What `load(page_num_)` or the next read depends on. -/
def position (r : CRawIOReader) : Nat × Option Nat := (r.pageNum, if r.fd then some r.cursor else none)

/-- The call has come to an end, has looked at frames before the tails only, and
has left the cursor between the first frame and the tail. -/
def Safe (out : List (Nat × Nat) × Option CRawIOReader) : Prop :=
  ∃ r', out.2 = some r' ∧ Inside g out.1 ∧
    ∀ p, r'.mapped g = some p → sizeofPageHead ≤ r'.cursor ∧ r'.cursor ≤ p.tail

/-- `setReadPos` comes to where it comes when nothing is mapped. -/
def SamePlace (nano : Int) (r : CRawIOReader) : Prop :=
  ∀ r₀ : CRawIOReader, r₀.fd = false →
    (setReadPos g nano r).2.map position = (setReadPos g nano r₀).2.map position

/-- Something is mapped, and not its tail asked for a time it has. -/
def CanSeek (nano : Int) (r : CRawIOReader) : Prop :=
  ∃ p, r.mapped g = some p ∧ (nano < 0 ∨ p.lastNano < nano ∨ r.cursor < p.tail)

/-- From where the reader is: all pages before are too early, and so is this one
or what has been read of it. From the head page: not the time 0 when that page has
no frame. -/
def CanSet (fss : List (List Frame)) (nano : Int) (r : CRawIOReader) : Prop :=
  (∃ k before cur, At g fss r k before cur ∧ lastTime (before ++ cur) ≤ nano ∧
    (∀ j fs, j < k → fss[j]? = some fs → lastTime fs < nano) ∧
    (lastTime (before ++ cur) < nano ∨ cur ≠ [] ∧ ∀ f ∈ before, f.nano < nano)) ∨
  ((∀ p, r.mapped g = some p → nano < p.lastNano) ∧ (nano = 0 → fss[0]? ≠ some []))

/-- The condition of a call. -/
def Meets (fss : List (List Frame)) (r : CRawIOReader) : ReaderCall → Prop
  | .seekTime nano => CanSeek g nano r
  | .setReadPos nano => CanSet g fss nano r
  | _ => True

/-- The readers that an `init` and calls that meet their conditions lead to. -/
inductive Reached (fss : List (List Frame)) : CRawIOReader → Prop
  | init {fromNano : Int} {r : CRawIOReader} (h : call g (.init fromNano) {} = some r) : Reached fss r
  | initAt {fromPage fromNano : Int} {r : CRawIOReader}
      (h : call g (.initAt fromPage fromNano) {} = some r) : Reached fss r
  | step {r r' : CRawIOReader} {c : ReaderCall} (h : Reached fss r) (hm : Meets g fss r c)
      (hc : call g c r = some r') : Reached fss r'

variable {g} {fss : List (List Frame)} {r r' : CRawIOReader} {k : Nat} {before cur out : List Frame}
  {nano : Int}

/-! ## Each call keeps the reader in its page -/

theorem At.reads (h : At g fss r k before cur) : ∃ out, Reads g fss r out :=
  ⟨_, Or.inl ⟨k, before, cur, h, rfl⟩⟩

theorem reads_of_unmapped (h : r.fd = false) : ∃ out, Reads g fss r out := ⟨_, Or.inr ⟨h, rfl⟩⟩

theorem Target.reads {n : Nat} (h : Target g fss n k r) : ∃ out, Reads g fss r out := by
  obtain ⟨q, fs, -, -, -, -, -, hat⟩ | ⟨-, ⟨_, _, _, _, _, _, hat⟩ | ⟨hfd, -⟩⟩ := h
  · exact hat.reads
  · exact hat.reads
  · exact reads_of_unmapped hfd

theorem Reads.bounds (hst : g.Static fss) (h : Reads g fss r out) {p : Page}
    (hm : r.mapped g = some p) : sizeofPageHead ≤ r.cursor ∧ r.cursor ≤ p.tail := by
  obtain ⟨k, before, cur, hat, hp, -⟩ := h.at_of_mapped hst.carries hm
  exact ⟨(hat.laid p hp).1.le, (hat.laid p hp).2.le⟩

theorem safe_of_reads {res : List (Nat × Nat) × Option CRawIOReader} (hst : g.Static fss)
    (hr : res.2 = some r') (hin : Inside g res.1) (h : ∃ out, Reads g fss r' out) : Safe g res := by
  obtain ⟨out, h⟩ := h
  exact ⟨r', hr, hin, fun p hm => h.bounds hst hm⟩

theorem inside_nil : Inside g [] := fun _ hq => by cases hq

/-- The tail of the page that is mapped. -/
theorem At.to_tail {p : Page} (hst : g.Static fss) (h : At g fss r k before cur)
    (hp : g.pages[k]? = some p) : At g fss { r with cursor := p.tail } k (before ++ cur) [] := by
  obtain ⟨q, hq, -, hh⟩ := h.page hst
  refine ⟨h.fd, h.pageNum, by simpa using h.frames, fun x hx => ?_⟩
  obtain rfl : p = q := by rw [hp] at hq; simpa using hq
  obtain rfl : p = x := by rw [hp] at hx; simpa using hx
  exact ⟨hh.laid, rfl⟩

theorem seekTime_neg (hst : g.Static fss) (h : At g fss r k before cur) (hn : nano < 0) :
    ∃ r', seekTime g nano r = ([], some r') ∧ At g fss r' k (before ++ cur) [] := by
  obtain ⟨p, hp, hm, -⟩ := h.page hst
  rw [seekTime.eq_def]
  split <;> rename_i hm' <;> rw [hm] at hm'
  · cases hm'
  · obtain rfl := Option.some.inj hm'
    rw [if_pos hn]
    exact ⟨_, rfl, h.to_tail hst hp⟩

/-- `init` from any page and any time. -/
theorem reads_loadSeek (hst : g.Static fss) (nano : Int) (r : CRawIOReader) :
    ∃ r', (loadSeek g nano r).2 = some r' ∧ ∃ out, Reads g fss r' out := by
  cases hfile : g.file r.pageNum with
  | none =>
    rw [loadSeek_none hfile]
    exact ⟨_, rfl, reads_of_unmapped rfl⟩
  | some p =>
    have hl := (load_of_file hst hfile).1
    obtain ⟨-, k, fs, hat, -⟩ := load_of_file hst hfile
    by_cases hn : nano < 0
    · obtain ⟨r', h1, h2⟩ := seekTime_neg hst hat hn
      rw [loadSeek, if_pos (by rw [hl]), h1]
      exact ⟨r', rfl, h2.reads⟩
    · have hnum : r.pageNum = g.first + k := by
        have h1 := hat.pageNum
        rwa [hl] at h1
      obtain ⟨r', h1, ⟨-, -, h2⟩ | ⟨-, h2⟩⟩ := loadSeek_spec hst hat.frames hnum (show 0 ≤ nano by omega)
      · exact ⟨r', h1, h2.reads⟩
      · exact ⟨r', h1, h2.reads⟩

theorem reads_passFrame (hst : g.Static fss) (h : Reads g fss r out) :
    ∃ out, Reads g fss (passFrame g r) out := by
  unfold passFrame
  cases hm : r.mapped g with
  | none => exact ⟨_, reads_load hst.carries r⟩
  | some p =>
    obtain ⟨k, before, cur, hat, hp, -⟩ := h.at_of_mapped hst.carries hm
    dsimp only
    split
    · rename_i hlt
      obtain ⟨fr, cur, rfl⟩ := List.exists_cons_of_ne_nil ((hat.laid p hp).2.lt_iff.mp hlt)
      have hs := hat.step hp
      rw [Nat.add_assoc, Nat.add_comm sizeofFrameHead] at hs
      exact hs.reads
    · split
      · exact ⟨_, reads_loadNext hst.carries r⟩
      · exact ⟨out, h⟩

/-- `seek` counts frames from the start of its page. -/
theorem passFrames_spec {p : Page} {c : Nat} (h : Laid p.mem c cur p.tail) (n : Nat) :
    Laid p.mem c (cur.take n) (passFrames p n c) ∧ Laid p.mem (passFrames p n c) (cur.drop n) p.tail := by
  induction n generalizing c cur with
  | zero => exact ⟨rfl, h⟩
  | succ n ih =>
    rw [passFrames]
    cases cur with
    | nil =>
      rw [if_neg fun hlt => h.lt_iff.mp hlt rfl]
      exact ⟨rfl, h⟩
    | cons f cur =>
      have hc : c + (frameLen p.mem c + sizeofFrameHead) = c + f.extent := by
        rw [h.1.len, Frame.extent, Nat.add_comm sizeofFrameHead]
      rw [if_pos (h.lt_iff.mpr (List.cons_ne_nil f cur)), hc]
      obtain ⟨h1, h2⟩ := ih h.2
      exact ⟨⟨h.1, h1⟩, h2⟩

theorem reads_seek (hst : g.Static fss) (h : Reads g fss r out) {frameNo : Int}
    (hs : seek g frameNo r = some r') : ∃ out, Reads g fss r' out := by
  unfold seek at hs
  cases hm : r.mapped g with
  | none =>
    rw [hm] at hs
    cases hs
  | some p =>
    obtain ⟨k, before, cur, hat, hp, -⟩ := h.at_of_mapped hst.carries hm
    rw [hm] at hs
    dsimp only at hs
    split at hs
    · rw [← Option.some.inj hs]
      exact (hat.to_tail hst hp).reads
    · rw [← Option.some.inj hs]
      obtain ⟨q, hq, -, hh⟩ := hat.page hst
      obtain rfl : p = q := by rw [hp] at hq; simpa using hq
      have hpass := passFrames_spec hh.laid frameNo.toNat
      have hat' : At g fss { r with cursor := passFrames p frameNo.toNat sizeofPageHead } k
          ((before ++ cur).take frameNo.toNat) ((before ++ cur).drop frameNo.toNat) := by
        refine ⟨hat.fd, hat.pageNum, by rw [List.take_append_drop, hat.frames], fun x hx => ?_⟩
        obtain rfl : p = x := by rw [hp] at hx; simpa using hx
        exact hpass
      exact hat'.reads

/-! ## Where `seekTime` may be called -/

/-- At the tail of a page whose last time is late enough the scan looks behind it. -/
theorem seekTime_tail (hst : g.Static fss) (h : At g fss r k before []) (hn : 0 ≤ nano)
    (hle : nano ≤ lastTime before) : ¬Inside g (seekTime g nano r).1 := by
  obtain ⟨p, hp, -, -⟩ := h.page hst
  have hc : r.cursor = p.tail := (h.laid p hp).2
  intro hin
  rw [seekTime_scan hst h hn (by simpa using hle) hp] at hin
  obtain ⟨q, hq, hlt⟩ := hin _ (List.mem_map_of_mem (mem_scan p nano.toNat r.cursor))
  rw [h.pageNum, PageGroup.file_add, hp, Option.some.injEq] at hq
  subst hq
  dsimp only at hlt
  omega

/-- Over bytes that nobody has written it goes on to the end of the mapping. -/
theorem scan_blank {p : Page} {n c : Nat} (hn : 0 < n) (hz : ∀ a, c ≤ a → p.mem a = 0) :
    (scan p n c).2 = none := by
  have hnano : ∀ c', c ≤ c' → frameNano p.mem c' = 0 := by
    intro c' hc'
    have hbyte : ∀ k, p.mem (c' + 8 + k) = 0 := fun k => hz _ (by omega)
    simp [frameNano, slice, hbyte, ofLe, List.range_succ]
  fun_induction scan p n c with
  | case1 c hroom hlt rest ih =>
    exact ih (fun a ha => hz a (by omega)) fun c' hc' => hnano c' (by omega)
  | case2 c hroom hge => exact absurd (by rw [hnano c (Nat.le_refl c)]; exact hn) hge
  | case3 c hroom => rfl

theorem seekTime_blank_tail (hst : g.Static fss) (h : At g fss r k before []) (hn : 0 < nano)
    (hle : nano ≤ lastTime before)
    (hz : ∀ p, g.pages[k]? = some p → ∀ a, p.tail ≤ a → p.mem a = 0) : (seekTime g nano r).2 = none := by
  obtain ⟨p, hp, -, -⟩ := h.page hst
  have hc : r.cursor = p.tail := (h.laid p hp).2
  rw [seekTime_scan hst h (by omega) (by simpa using hle) hp,
    scan_blank (by omega) fun a ha => hz p hp a (by omega)]
  rfl

theorem lt_tail_iff (hst : g.Static fss) (h : At g fss r k before cur) :
    ∃ p, r.mapped g = some p ∧ p.lastNano = lastTime (before ++ cur) ∧ (r.cursor < p.tail ↔ cur ≠ []) := by
  obtain ⟨p, hp, hm, hh⟩ := h.page hst
  exact ⟨p, hm, hh.lastNano, (h.laid p hp).2.lt_iff⟩

theorem At.canSeek_iff (hst : g.Static fss) (h : At g fss r k before cur) :
    CanSeek g nano r ↔ nano < 0 ∨ lastTime (before ++ cur) < nano ∨ cur ≠ [] := by
  obtain ⟨p, hm, hlast, hlt⟩ := lt_tail_iff hst h
  unfold CanSeek
  constructor
  · rintro ⟨q, hq, hc⟩
    obtain rfl : p = q := by rw [hm] at hq; simpa using hq
    rwa [hlast, hlt] at hc
  · intro hc
    refine ⟨p, hm, ?_⟩
    rwa [hlast, hlt]

/-- Where `seekTime` may be called it keeps before the tail. -/
theorem seekTime_of_canSeek (hst : g.Static fss) (h : Reads g fss r out) (hc : CanSeek g nano r) :
    ∃ r', (seekTime g nano r).2 = some r' ∧ Inside g (seekTime g nano r).1 ∧
      ∃ out, Reads g fss r' out := by
  obtain ⟨k, before, cur, hat, -⟩ | ⟨hfd, -⟩ := h
  · rw [hat.canSeek_iff hst] at hc
    by_cases h0 : nano < 0
    · obtain ⟨r', h1, h2⟩ := seekTime_neg hst hat h0
      rw [h1]
      exact ⟨r', rfl, inside_nil, h2.reads⟩
    by_cases hlast : lastTime (before ++ cur) < nano
    · obtain ⟨r', h1, h2, h3⟩ := seekTime_skip hst hat hlast
      exact ⟨r', h1, h2, h3.reads⟩
    · obtain ⟨r', h1, h2, h3⟩ := seekTime_here hst hat (show 0 ≤ nano by omega) (by omega) (by tauto)
      exact ⟨r', h1, h2, h3.reads⟩
  · obtain ⟨p, hp, -⟩ := hc
    rw [mapped, hfd] at hp
    cases hp

/-- And only there. -/
theorem safe_seekTime_iff (hst : g.Static fss) (h : Reads g fss r out) :
    Safe g (seekTime g nano r) ↔ CanSeek g nano r := by
  constructor
  · rintro ⟨r', hr, hin, -⟩
    obtain ⟨k, before, cur, hat, -⟩ | ⟨hfd, -⟩ := h
    · rw [hat.canSeek_iff hst]
      by_contra hc
      simp only [not_or, not_not] at hc
      obtain ⟨h0, hlast, rfl⟩ := hc
      rw [List.append_nil] at hlast
      exact seekTime_tail hst hat (by omega) (by omega) hin
    · have hm : r.mapped g = none := by rw [mapped, hfd]; rfl
      rw [seekTime.eq_def] at hr
      split at hr <;> rename_i hm' <;> rw [hm] at hm'
      · cases hr
      · cases hm'
  · intro hc
    obtain ⟨r', h1, h2, h3⟩ := seekTime_of_canSeek hst h hc
    exact safe_of_reads hst h1 h2 h3

/-! ## One place for each time -/

/-- What has been passed of a page settles the position. -/
theorem At.position_eq (hst : g.Static fss) {cur' : List Frame} (h : At g fss r k before cur)
    (h' : At g fss r' k before cur') : r.position = r'.position := by
  obtain ⟨p, hp, -⟩ := h.page hst
  rw [position, position, h.fd, h'.fd, h.pageNum, h'.pageNum,
    (h.laid p hp).1.end_unique (h'.laid p hp).1]

/-- And conversely. -/
theorem At.before_eq (hst : g.Static fss) {before' cur' : List Frame} (h : At g fss r k before cur)
    (h' : At g fss r' k before' cur') (hpos : r.position = r'.position) : before = before' := by
  obtain ⟨p, hp, -⟩ := h.page hst
  have hcur : r.cursor = r'.cursor := by
    rw [position, position, h.fd, h'.fd] at hpos
    simpa using congrArg Prod.snd hpos
  have hframes : before ++ cur = before' ++ cur' := by
    have h1 := h.frames
    rw [h'.frames] at h1
    exact (Option.some.inj h1).symm
  have hl := (h.laid p hp).1
  have hl' := (h'.laid p hp).1
  rw [hcur] at hl
  have hnil : ∀ {xs ys : List Frame} {c : Nat}, Laid p.mem sizeofPageHead xs c →
      Laid p.mem sizeofPageHead (xs ++ ys) c → ys = [] := by
    intro xs ys c h1 h2
    obtain ⟨mid, h3, h4⟩ := laid_append.mp h2
    obtain rfl := h1.end_unique h3
    by_contra hne
    exact absurd (h4.lt_iff.mpr hne) (Nat.lt_irrefl _)
  obtain ⟨as, rfl, -⟩ | ⟨cs, rfl, -⟩ := List.append_eq_append_iff.mp hframes
  · rw [hnil hl hl', List.append_nil]
  · rw [hnil hl' hl, List.append_nil]

theorem Ended.unique (hst : g.Static fss) (h : Ended g fss r) (h' : Ended g fss r') :
    r.position = r'.position := by
  obtain ⟨k, p, fs, hk, hp, hs, hat⟩ | ⟨hfd, hnum, hfin⟩ := h <;>
    obtain ⟨k', p', fs', hk', hp', hs', hat'⟩ | ⟨hfd', hnum', hfin'⟩ := h'
  · obtain rfl : k = k' := by omega
    have hfs : fs = fs' := by
      have h1 := hat.frames
      rw [hat'.frames] at h1
      simpa using h1.symm
    exact hat.position_eq hst (hfs ▸ hat')
  · exact absurd (hfin' k p hk hp) hs
  · exact absurd (hfin k' p' hk' hp') hs'
  · rw [position, position, hfd, hfd', hnum, hnum']
    rfl

/-- Two readers at the target of one time are at one place. -/
theorem Target.unique {n : Nat} (hst : g.Static fss) (h : Target g fss n k r)
    (h' : Target g fss n k r') : r.position = r'.position := by
  obtain ⟨q, fs, hq, hfs, hne, hle, hbefore, hat⟩ | ⟨hall, hend⟩ := h <;>
    obtain ⟨q', fs', hq', hfs', hne', hle', hbefore', hat'⟩ | ⟨hall', hend'⟩ := h'
  · obtain hlt | rfl | hlt := Nat.lt_trichotomy q q'
    · have := hbefore' q fs hq hlt hfs
      omega
    · obtain rfl : fs = fs' := by rw [hfs] at hfs'; simpa using hfs'
      exact hat.position_eq hst hat'
    · have := hbefore q' fs' hq' hlt hfs'
      omega
  · have := hall' q fs hq hfs
    omega
  · have := hall q' fs' hq' hfs'
    omega
  · exact hend.unique hst hend'

/-- The target from page `k` on is that from the first page on when the pages
before are too early. -/
theorem Target.of_first {n : Nat} (h : Target g fss n k r)
    (hearly : ∀ j fs, j < k → fss[j]? = some fs → lastTime fs < n) : Target g fss n 0 r := by
  have hj : ∀ {j fs}, fss[j]? = some fs → (k ≤ j → lastTime fs < n) → lastTime fs < n := by
    intro j fs hfs hlate
    rcases Nat.lt_or_ge j k with hlt | hge
    · exact hearly j fs hlt hfs
    · exact hlate hge
  obtain ⟨q, fs, -, hfs, hne, hle, hbefore, hat⟩ | ⟨hall, hend⟩ := h
  · exact Or.inl ⟨q, fs, Nat.zero_le q, hfs, hne, hle,
      fun j fs' _ hjq hfs' => hj hfs' fun hkj => hbefore j fs' hkj hjq hfs', hat⟩
  · exact Or.inr ⟨fun j fs' _ hfs' => hj hfs' fun hkj => hall j fs' hkj hfs', hend⟩

/-- It lies in page `k` or behind it. -/
theorem Target.le_pageNum {n : Nat} (hk : k < fss.length) (h : Target g fss n k r) :
    g.first + k ≤ r.pageNum := by
  obtain ⟨q, _, hq, -, -, -, -, hat⟩ | ⟨-, ⟨q, _, _, hq, -, -, hat⟩ | ⟨-, hnum, -⟩⟩ := h
  · rw [hat.pageNum]
    omega
  · rw [hat.pageNum]
    omega
  · omega

/-- And not behind a page that is not too early. -/
theorem Target.pageNum_le {n j : Nat} {fs : List Frame} (hfs : fss[j]? = some fs) (hle : n ≤ lastTime fs)
    (h : Target g fss n 0 r) : r.pageNum ≤ g.first + j := by
  obtain ⟨q, _, -, -, -, -, hbefore, hat⟩ | ⟨hall, -⟩ := h
  · rw [hat.pageNum]
    by_contra hlt
    have := hbefore j fs (Nat.zero_le j) (by omega) hfs
    omega
  · have := hall j fs (Nat.zero_le j) hfs
    omega

/-! ## Where `setReadPos` may be called -/

/-- From the head page on: safe, and to the target, but for the time 0 in a head
page without a frame. -/
theorem safe_loadSeek_iff (hst : g.Static fss) (nano : Int) (r : CRawIOReader) :
    Safe g (loadSeek g nano (r.toHead g)) ↔ (nano = 0 → fss[0]? ≠ some []) := by
  obtain ⟨r', hr, hreads⟩ := reads_loadSeek hst nano (r.toHead g)
  constructor
  · rintro ⟨-, -, hin, -⟩ rfl hfs
    obtain ⟨rfl, -⟩ | ⟨-, hfirst⟩ := headNum_cases hst
    · cases hfs
    · obtain ⟨hl, hat⟩ := load_at (k := 0) (r := r.toHead g) hst hfs hfirst
      rw [loadSeek, if_pos hl] at hin
      exact seekTime_tail hst hat (Int.le_refl 0) (by simp) hin
  · intro hc
    by_cases h0 : nano < 0
    · refine safe_of_reads hst hr ?_ hreads
      obtain ⟨rfl, -, hnone⟩ | ⟨hne, hfirst⟩ := headNum_cases hst
      · rw [loadSeek_none (hnone _)]
        exact inside_nil
      · obtain ⟨fs, rest, rfl⟩ := List.exists_cons_of_ne_nil hne
        obtain ⟨hl, hat⟩ := load_at (k := 0) (r := r.toHead g) hst rfl hfirst
        obtain ⟨r'', h1, -⟩ := seekTime_neg hst hat h0
        rw [loadSeek, if_pos hl, h1]
        exact inside_nil
    · obtain ⟨r'', h1, h2⟩ := fromHead_spec (r := r.toHead g) hst (show 0 ≤ nano by omega) rfl
      obtain rfl := Option.some.inj (h1.symm.trans hr)
      obtain ⟨rfl, -, -⟩ | ⟨hfs, rfl, -⟩ | ⟨hin, -⟩ := h2
      · obtain ⟨-, -, hnone⟩ | ⟨hne, -⟩ := headNum_cases hst
        · refine safe_of_reads hst hr ?_ hreads
          rw [loadSeek_none (hnone _)]
          exact inside_nil
        · exact absurd rfl hne
      · exact absurd hfs (hc rfl)
      · exact safe_of_reads hst hr hin hreads

theorem position_unload (r r₀ : CRawIOReader) (h : r.pageNum = r₀.pageNum) :
    r.unload.position = r₀.unload.position := by
  rw [position, position]
  simp [unload, h]

/-- It does not matter what the cursor was. -/
theorem loadSeek_toHead (hst : g.Static fss) (r r₀ : CRawIOReader) :
    (loadSeek g nano (r.toHead g)).2.map position = (loadSeek g nano (r₀.toHead g)).2.map position := by
  cases hfile : g.file (r.toHead g).pageNum with
  | none =>
    have hfile' : g.file (r₀.toHead g).pageNum = none := hfile
    rw [loadSeek_none hfile, loadSeek_none hfile']
    exact congrArg some (position_unload _ _ rfl)
  | some p =>
    have hfile' : g.file (r₀.toHead g).pageNum = some p := hfile
    have hload : load g (r.toHead g) = load g (r₀.toHead g) := by
      rw [(load_of_file hst hfile).1, (load_of_file hst hfile').1]
      rfl
    rw [loadSeek, loadSeek, hload]

theorem setReadPos_of_unmapped (h : r.fd = false) :
    setReadPos g nano r = loadSeek g nano (r.toHead g) := by
  rw [setReadPos, mapped, h]
  rfl

/-- Where the reader is left when it starts from the head page, for a time that
page `k` does not lie behind. -/
theorem target_of_head (hst : g.Static fss) (h : At g fss r k before cur)
    (hle : lastTime (before ++ cur) ≤ nano) (r₀ : CRawIOReader) :
    ∃ r₁, (loadSeek g nano (r₀.toHead g)).2 = some r₁ ∧
      (fss[0]? = some [] ∧ nano = 0 ∧ At g fss r₁ 0 [] [] ∨ Target g fss nano.toNat 0 r₁) := by
  obtain ⟨r₁, h1, h2⟩ := fromHead_spec (r := r₀.toHead g) hst (show 0 ≤ nano by omega) rfl
  refine ⟨r₁, h1, ?_⟩
  obtain ⟨rfl, -⟩ | h2 | ⟨-, h2⟩ := h2
  · cases h.frames
  · exact Or.inl h2
  · exact Or.inr h2

/-- From a page that is not behind the time, with the pages before too early, and
this one too or what has been read of it: the target. -/
theorem target_of_here (hst : g.Static fss) (h : At g fss r k before cur)
    (hle : lastTime (before ++ cur) ≤ nano)
    (hearly : ∀ j fs, j < k → fss[j]? = some fs → lastTime fs < nano)
    (hhere : lastTime (before ++ cur) < nano ∨ cur ≠ [] ∧ ∀ f ∈ before, f.nano < nano) :
    ∃ r', (seekTime g nano r).2 = some r' ∧ Target g fss nano.toNat 0 r' := by
  have hearly' : ∀ j fs, j < k → fss[j]? = some fs → lastTime fs < nano.toNat := by
    intro j fs hj hfs
    have := hearly j fs hj hfs
    omega
  by_cases hlast : lastTime (before ++ cur) < nano
  · obtain ⟨r', h1, -, h3⟩ := seekTime_skip hst h hlast
    exact ⟨r', h1, h3.of_first hearly'⟩
  · obtain ⟨hne, hbefore⟩ := hhere.resolve_left hlast
    obtain ⟨r', h1, -, h3⟩ := seekTime_here hst h (show 0 ≤ nano by omega) (by omega) hne
    have hpos : ∀ f ∈ before, decide (f.nano < nano.toNat) = true := by
      intro f hf
      have := hbefore f hf
      simp only [decide_eq_true_eq]
      omega
    refine ⟨r', h1, Or.inl ⟨k, before ++ cur, Nat.zero_le k, h.frames, by simp [hne], by omega,
      fun j fs _ hj hfs => hearly' j fs hj hfs, ?_⟩⟩
    rw [early, fromTime, List.takeWhile_append_of_pos hpos, List.dropWhile_append_of_pos hpos]
    exact h3

/-- `setReadPos` where the page that is mapped is not behind the time. -/
theorem setReadPos_here (hst : g.Static fss) (h : At g fss r k before cur)
    (hle : lastTime (before ++ cur) ≤ nano) : setReadPos g nano r = seekTime g nano r := by
  obtain ⟨p, -, hm, hh⟩ := h.page hst
  rw [setReadPos, hm]
  dsimp only
  rw [if_pos (by rw [hh.lastNano]; exact hle)]

theorem setReadPos_head (h : ∀ p, r.mapped g = some p → nano < p.lastNano) :
    setReadPos g nano r = loadSeek g nano (r.toHead g) := by
  rw [setReadPos]
  cases hm : r.mapped g with
  | none => rfl
  | some p => exact if_neg (by have := h p hm; omega)

/-- When the reader comes from its page to the place it comes to from the head. -/
theorem samePlace_here_iff (hst : g.Static fss) (h : At g fss r k before cur)
    (hle : lastTime (before ++ cur) ≤ nano) (hcan : lastTime (before ++ cur) < nano ∨ cur ≠ []) :
    SamePlace g nano r ↔ (∀ j fs, j < k → fss[j]? = some fs → lastTime fs < nano) ∧
      (lastTime (before ++ cur) < nano ∨ cur ≠ [] ∧ ∀ f ∈ before, f.nano < nano) := by
  have hklen : k < fss.length := (List.getElem?_eq_some_iff.mp h.frames).1
  have h0 : 0 ≤ nano := by omega
  unfold SamePlace
  rw [setReadPos_here hst h hle]
  constructor
  · intro hsame
    obtain ⟨r₁, h1, hhead⟩ := target_of_head hst h hle {}
    have hpos := hsame {} rfl
    rw [setReadPos_of_unmapped rfl, h1] at hpos
    by_cases hlast : lastTime (before ++ cur) < nano
    · -- the target from page `k` on lies behind all pages before it
      obtain ⟨r', hr, -, htarget⟩ := seekTime_skip hst h hlast
      rw [hr] at hpos
      have hnum : r'.pageNum = r₁.pageNum := congrArg Prod.fst (Option.some.inj hpos)
      have hge := htarget.le_pageNum hklen
      refine ⟨fun j fs hj hfs => ?_, Or.inl hlast⟩
      by_contra hlate
      obtain ⟨-, rfl, -⟩ | htarget₁ := hhead
      · omega
      · have := htarget₁.pageNum_le hfs (by omega)
        omega
    · -- the target is in page `k`, where the head page leads too
      have hne := hcan.resolve_left hlast
      obtain ⟨r', hr, -, hat⟩ := seekTime_here hst h h0 (by omega) hne
      rw [hr] at hpos
      have hpos' : r'.position = r₁.position := Option.some.inj hpos
      have hnum : r'.pageNum = r₁.pageNum := congrArg Prod.fst hpos'
      rw [hat.pageNum] at hnum
      obtain ⟨hfs, -, hat₁⟩ | htarget₁ := hhead
      · rw [hat₁.pageNum] at hnum
        obtain rfl : k = 0 := by omega
        rw [h.frames, Option.some.injEq, List.append_eq_nil_iff] at hfs
        exact absurd hfs.2 hne
      · obtain ⟨q, fs, -, hfs, -, -, hbefore, hat₁⟩ | ⟨hall, -⟩ := htarget₁
        · rw [hat₁.pageNum] at hnum
          obtain rfl : q = k := by omega
          obtain rfl : fs = before ++ cur := by
            rw [h.frames] at hfs
            exact (Option.some.inj hfs).symm
          have heq := hat.before_eq hst hat₁ hpos'
          refine ⟨fun j fs' hj hfs' => ?_, Or.inr ⟨hne, fun f hf => ?_⟩⟩
          · have := hbefore j fs' (Nat.zero_le j) hj hfs'
            omega
          · have hmem : f ∈ early nano.toNat (before ++ cur) := by
              rw [← heq]
              exact List.mem_append_left _ hf
            have := List.mem_takeWhile_imp hmem
            simp only [decide_eq_true_eq] at this
            omega
        · have := hall k _ (Nat.zero_le k) h.frames
          omega
  · rintro ⟨hearly, hhere⟩ r₀ h₀
    obtain ⟨r', hr, htarget⟩ := target_of_here hst h hle hearly hhere
    obtain ⟨r₁, h1, hhead⟩ := target_of_head hst h hle r₀
    rw [hr, setReadPos_of_unmapped h₀, h1]
    refine congrArg some ?_
    obtain ⟨hfs, rfl, -⟩ | htarget₁ := hhead
    · -- a head page without a frame is not before the time 0
      obtain rfl | hk := Nat.eq_zero_or_pos k
      · rw [h.frames, Option.some.injEq] at hfs
        obtain ⟨rfl, rfl⟩ := List.append_eq_nil_iff.mp hfs
        obtain hlast | ⟨hne, -⟩ := hhere
        · rw [List.append_nil, lastTime_nil] at hlast
          omega
        · exact absurd rfl hne
      · have hlt := hearly 0 [] hk hfs
        simp at hlt
    · exact htarget.unique hst htarget₁

/-- `setReadPos` keeps before the tail and comes to one place where it may be
called, and only there. -/
theorem safe_setReadPos_iff (hst : g.Static fss) (h : Reads g fss r out) :
    Safe g (setReadPos g nano r) ∧ SamePlace g nano r ↔ CanSet g fss nano r := by
  by_cases hhead : ∀ p, r.mapped g = some p → nano < p.lastNano
  · have hsame : SamePlace g nano r := fun r₀ h₀ => by
      rw [setReadPos_head hhead, setReadPos_of_unmapped h₀]
      exact loadSeek_toHead hst r r₀
    rw [setReadPos_head hhead, safe_loadSeek_iff hst, and_iff_left hsame]
    refine ⟨fun hc => Or.inr ⟨hhead, hc⟩, ?_⟩
    rintro (⟨k, before, cur, hat, hle, -⟩ | ⟨-, hc⟩)
    · obtain ⟨p, -, hm, hh⟩ := hat.page hst
      have := hhead p hm
      rw [hh.lastNano] at this
      omega
    · exact hc
  · obtain ⟨p, hm, hle⟩ : ∃ p, r.mapped g = some p ∧ p.lastNano ≤ nano := by
      simpa using hhead
    obtain ⟨k, before, cur, hat, hp, -⟩ := h.at_of_mapped hst.carries hm
    obtain ⟨q, hq, -, hh⟩ := hat.page hst
    obtain rfl : p = q := by rw [hp] at hq; simpa using hq
    rw [hh.lastNano] at hle
    have h0 : ¬nano < 0 := by omega
    rw [setReadPos_here hst hat hle, safe_seekTime_iff hst h, hat.canSeek_iff hst, or_iff_right h0]
    constructor
    · rintro ⟨hcan, hsame⟩
      obtain ⟨hearly, hhere⟩ := (samePlace_here_iff hst hat hle hcan).mp hsame
      exact Or.inl ⟨k, before, cur, hat, hle, hearly, hhere⟩
    · rintro (⟨k', before', cur', hat', -, hearly, hhere⟩ | ⟨hlt, -⟩)
      · obtain rfl : k = k' := Nat.add_left_cancel (hat.pageNum.symm.trans hat'.pageNum)
        obtain rfl : before = before' := hat.before_eq hst hat' rfl
        obtain rfl : cur = cur' := by
          have h1 := hat.frames
          rw [hat'.frames] at h1
          simpa using h1.symm
        have hcan : lastTime (before ++ cur) < nano ∨ cur ≠ [] := hhere.imp_right And.left
        exact ⟨hcan, (samePlace_here_iff hst hat hle hcan).mpr ⟨hearly, hhere⟩⟩
      · have := hlt p hm
        rw [hh.lastNano] at this
        omega

/-! ## Runs -/

theorem reads_call (hst : g.Static fss) {c : ReaderCall} (h : Reads g fss r out)
    (hm : Meets g fss r c) (hc : call g c r = some r') : ∃ out, Reads g fss r' out := by
  have hload : ∀ {nano r}, (loadSeek g nano r).2 = some r' → ∃ out, Reads g fss r' out := by
    intro nano r hr
    obtain ⟨r'', h1, h2⟩ := reads_loadSeek hst nano r
    obtain rfl := Option.some.inj (h1.symm.trans hr)
    exact h2
  have hseek : ∀ {nano}, CanSeek g nano r → (seekTime g nano r).2 = some r' →
      ∃ out, Reads g fss r' out := by
    intro nano hcan hr
    obtain ⟨r'', h1, -, h2⟩ := seekTime_of_canSeek hst h hcan
    obtain rfl := Option.some.inj (h1.symm.trans hr)
    exact h2
  cases c with
  | init fromNano =>
    have hinit : (CRawIOReader.init g fromNano r).2 = some r' := hc
    unfold CRawIOReader.init at hinit
    split at hinit
    · exact hload hinit
    · exact hload hinit
  | initAt fromPage fromNano => exact hload hc
  | read =>
    obtain rfl := Option.some.inj hc
    exact ⟨_, (read_spec hst.carries h).2⟩
  | passFrame =>
    obtain rfl := Option.some.inj hc
    exact reads_passFrame hst h
  | seek frameNo => exact reads_seek hst h hc
  | seekTime nano => exact hseek hm hc
  | setReadPos nano =>
    obtain ⟨hsafe, -⟩ := (safe_setReadPos_iff hst h).mpr hm
    have hcall : setReadPos g nano r = seekTime g nano r ∨
        setReadPos g nano r = loadSeek g nano (r.toHead g) := by
      unfold setReadPos
      split
      · split
        · exact Or.inl rfl
        · exact Or.inr rfl
      · exact Or.inr rfl
    obtain heq | heq := hcall
    · rw [heq] at hsafe
      rw [call, heq] at hc
      exact hseek ((safe_seekTime_iff hst h).mp hsafe) hc
    · rw [call, heq] at hc
      exact hload hc

theorem Reached.reads (hst : g.Static fss) (h : Reached g fss r) : ∃ out, Reads g fss r out := by
  have hfresh : Reads g fss {} (framesFrom g fss 0) := Or.inr ⟨rfl, rfl⟩
  induction h with
  | @init n _ hc => exact reads_call (c := .init n) hst hfresh trivial hc
  | @initAt m n _ hc => exact reads_call (c := .initAt m n) hst hfresh trivial hc
  | step h hm hc ih =>
    obtain ⟨out, ih⟩ := ih
    exact reads_call hst ih hm hc

/-- **Seeking and the written part.** In a run whose calls of `seekTime` and
`setReadPos` meet their conditions, the cursor is always between the first frame
and the tail, and the next call keeps to the written part, and comes to the place
of its time, exactly under its condition. -/
theorem seek_iff (hst : g.Static fss) (h : Reached g fss r) (nano : Int) :
    (∀ p, r.mapped g = some p → sizeofPageHead ≤ r.cursor ∧ r.cursor ≤ p.tail) ∧
      (Safe g (seekTime g nano r) ↔ CanSeek g nano r) ∧
      (Safe g (setReadPos g nano r) ∧ SamePlace g nano r ↔ CanSet g fss nano r) := by
  obtain ⟨out, hr⟩ := h.reads hst
  exact ⟨fun p hm => hr.bounds hst hm, safe_seekTime_iff hst hr, safe_setReadPos_iff hst hr⟩

theorem seek_iff_six : ∃ r, call twoPages (.initAt 3 0) {} = some r ∧
    (∀ p, r.mapped twoPages = some p → sizeofPageHead ≤ r.cursor ∧ r.cursor ≤ p.tail) ∧
      (Safe twoPages (seekTime twoPages 6 r) ↔ CanSeek twoPages 6 r) ∧
      (Safe twoPages (setReadPos twoPages 6 r) ∧ SamePlace twoPages 6 r ↔
        CanSet twoPages twoFrames 6 r) := by
  obtain ⟨r, hr, -⟩ := reads_loadSeek twoPages_static 0 { pageNum := 3 }
  have hcall : call twoPages (.initAt 3 0) {} = some r := hr
  exact ⟨r, hcall, seek_iff twoPages_static (.initAt hcall) 6⟩

/-- Page 3 put at its tail, then asked for the time of its last frame: the scan
leaves the mapping. -/
theorem not_seek_safe : ∃ r r', call twoPages (.initAt 3 0) {} = some r ∧
    call twoPages (.seek (-1)) r = some r' ∧ ¬Safe twoPages (setReadPos twoPages 7 r') ∧
    call twoPages (.setReadPos 7) r' = none := by
  obtain ⟨hl, hat⟩ := load_at (k := 0) (r := { pageNum := 3 }) twoPages_static rfl rfl
  obtain ⟨r, h1, -, h2⟩ :=
    seekTime_here twoPages_static hat (Int.le_refl 0) (by decide) (by decide)
  have hr : r = { fd := true, cursor := 45, pageNum := 3 } := by
    obtain ⟨fd, cursor, pageNum⟩ := r
    have hcur : 45 = cursor := (h2.laid _ rfl).1
    have hfd : fd = true := h2.fd
    have hnum : pageNum = 3 := h2.pageNum
    rw [hfd, ← hcur, hnum]
  have htail := h2.to_tail twoPages_static rfl
  have hnone : (setReadPos twoPages 7 { r with cursor := 87 }).2 = none := by
    rw [setReadPos_here twoPages_static htail (by decide)]
    refine seekTime_blank_tail twoPages_static htail (by decide) (by decide) fun p hp a ha => ?_
    rw [← Option.some.inj hp] at ha ⊢
    have hlen : 42 ≤ a - 45 := Nat.le_sub_of_add_le ha
    exact List.getD_eq_default _ _ hlen
  refine ⟨r, { r with cursor := 87 }, ?_, ?_, ?_, hnone⟩
  · have hcall : call twoPages (.initAt 3 0) {} = (loadSeek twoPages 0 { pageNum := 3 }).2 := rfl
    rw [hcall, loadSeek, if_pos hl, h1]
  · rw [hr]
    rfl
  · rintro ⟨r', hr', -⟩
    rw [hnone] at hr'
    cases hr'

end CRawIOReader

end NatFramework.Io
