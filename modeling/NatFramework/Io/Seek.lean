import NatFramework.Io.CRawIOReader

/-!
# Positioned reading

`seek`, `seekTime`, `setReadPos` and `init` of `io/CRawIOReader`. `seekTime`
skips the pages whose last time is too early, then the frames of the page it has
come to, from the cursor on; nothing but the times it meets ends that scan.

* `Target`: the first frame of the group that is not too early, or the end.
* `seekTime_skip`, `seekTime_here`: it comes there, unless it starts at the tail
  of a page whose last time is late enough.
* `readN_init`: after `init` the frames left are those not before `from_nano`.
-/
namespace NatFramework.Io

open Lib

namespace CRawIOReader

variable (g : PageGroup)

/-- mirrors io/CRawIOReader.cpp:74-83 -/
def passPage (r : CRawIOReader) : CRawIOReader × Bool :=
  match r.mapped g with
  | none => load g r
  | some p => if p.status = pageStatusFinish then loadNext g r else (r, false)

/-- The loop of `seek`. -/
def passFrames (p : Page) : Nat → Nat → Nat
  | 0, cursor => cursor
  | n + 1, cursor =>
    if cursor < p.tail then passFrames p n (cursor + (frameLen p.mem cursor + sizeofFrameHead))
    else cursor

/-- mirrors io/CRawIOReader.cpp:60-71 -/
def seek (frameNo : Int) (r : CRawIOReader) : Option CRawIOReader :=
  match r.mapped g with
  | none => none
  | some p =>
    if frameNo < 0 then some { r with cursor := p.tail }
    else some { r with cursor := passFrames p frameNo.toNat sizeofPageHead }

/-- The second loop of `seekTime`: the cursors at which it looks at a frame's
time, and where it stops; not at all once the time lies behind the mapping.
mirrors io/CRawIOReader.cpp:114-116 -/
def scan (p : Page) (nano cursor : Nat) : List Nat × Option Nat :=
  if cursor + 16 ≤ p.mapEnd then
    if frameNano p.mem cursor < nano then
      let rest := scan p nano (cursor + (frameLen p.mem cursor + sizeofFrameHead))
      (cursor :: rest.1, rest.2)
    else ([cursor], some cursor)
  else ([cursor], none)
termination_by p.mapEnd - cursor
decreasing_by
  simp only [sizeofFrameHead]
  omega

variable {g} in
theorem passPage_true {r : CRawIOReader} {p : Page} (hm : r.mapped g = some p)
    (h : (passPage g r).2 = true) :
    (passPage g r).1.pageNum = r.pageNum + 1 ∧ r.pageNum + 1 < g.first + g.pages.length := by
  unfold passPage at h ⊢
  rw [hm] at h ⊢
  dsimp only at h ⊢
  split at h
  · rename_i hs
    obtain ⟨he, hlt⟩ := loadNext_true h
    rw [if_pos hs, he]
    exact ⟨rfl, hlt⟩
  · cases h

/-- The page and the cursor of every frame looked at, and the reader left. The
head is read through `buf_` whether a page is mapped or not.
mirrors io/CRawIOReader.cpp:93-117 -/
def seekTime (nano : Int) (r : CRawIOReader) : List (Nat × Nat) × Option CRawIOReader :=
  match _hm : r.mapped g with
  | none => ([], none)
  | some p =>
    if nano < 0 then ([], some { r with cursor := p.tail })
    else if p.lastNano < nano then
      if _h : (passPage g r).2 = true then seekTime nano (passPage g r).1
      else if (passPage g r).1.fd then ([], some { (passPage g r).1 with cursor := p.tail })
      else ([], some (passPage g r).1)
    else
      let found := scan p nano.toNat r.cursor
      (found.1.map fun c => (r.pageNum, c), found.2.map fun c => { r with cursor := c })
termination_by g.first + g.pages.length - r.pageNum
decreasing_by
  obtain ⟨he, hlt⟩ := passPage_true _hm _h
  omega

/-- `load(page_num_)`, then `seekTime` if that was possible. -/
def loadSeek (nano : Int) (r : CRawIOReader) : List (Nat × Nat) × Option CRawIOReader :=
  if (load g r).2 then seekTime g nano (load g r).1 else ([], some (load g r).1)

/-- The head page, 0 if there is none. -/
def toHead (r : CRawIOReader) : CRawIOReader :=
  { r.unload with pageNum := if g.getHeadNum < 0 then 0 else g.getHeadNum.toNat }

/-- mirrors io/CRawIOReader.cpp:120-135 -/
def setReadPos (nano : Int) (r : CRawIOReader) : List (Nat × Nat) × Option CRawIOReader :=
  match r.mapped g with
  | some p => if p.lastNano ≤ nano then seekTime g nano r else loadSeek g nano (r.toHead g)
  | none => loadSeek g nano (r.toHead g)

/-- `init` from a page.
mirrors io/CRawIOReader.cpp:37-55 -/
def initAt (fromPage : Int) (fromNano : Int) (r : CRawIOReader) :
    List (Nat × Nat) × Option CRawIOReader :=
  let fromPage := if fromPage < 0 then g.getTailNum else fromPage
  loadSeek g fromNano { r.unload with pageNum := if fromPage < 0 then 0 else fromPage.toNat }

/-- mirrors io/CRawIOReader.cpp:29-35 -/
def init (fromNano : Int) (r : CRawIOReader) : List (Nat × Nat) × Option CRawIOReader :=
  if fromNano < 0 then initAt g (-1) fromNano r else initAt g g.getHeadNum fromNano r

/-! ## The scan -/

/-- The frames before the first that is not too early, and the rest. -/
abbrev early (nano : Nat) (fs : List Frame) : List Frame := fs.takeWhile fun f => f.nano < nano
abbrev fromTime (nano : Nat) (fs : List Frame) : List Frame := fs.dropWhile fun f => f.nano < nano

theorem le_lastTime {fs : List Frame} {nano : Nat} (hne : fs ≠ []) (h : nano ≤ lastTime fs) :
    ∃ f ∈ fs, nano ≤ f.nano := by
  refine ⟨fs.getLast hne, List.getLast_mem hne, ?_⟩
  rwa [lastTime, List.getLast?_eq_some_getLast hne] at h

/-- From frames one of which is not too early the scan stops at the first such,
and looks at nothing behind it. -/
theorem scan_spec {p : Page} {nano c : Nat} {cur : List Frame} (hl : Laid p.mem c cur p.tail)
    (hsize : p.tail ≤ p.fileSize) (hx : ∃ f ∈ cur, nano ≤ f.nano) :
    ∃ c', (scan p nano c).2 = some c' ∧ (∀ o ∈ (scan p nano c).1, o < p.tail) ∧
      Laid p.mem c (early nano cur) c' ∧ Laid p.mem c' (fromTime nano cur) p.tail := by
  induction cur generalizing c with
  | nil =>
    obtain ⟨f, hf, -⟩ := hx
    cases hf
  | cons f cur ih =>
    have hlt := hl.lt_iff.mpr (List.cons_ne_nil f cur)
    have hroom : c + 16 ≤ p.mapEnd := by
      have hmap := p.le_mapEnd
      have hle := hl.2.le
      have hpos := f.extent_pos
      simp only [sizeofFrameHead] at hpos
      omega
    rw [scan, if_pos hroom, hl.1.nano]
    by_cases hf : f.nano < nano
    · have hx' : ∃ x ∈ cur, nano ≤ x.nano := by
        obtain ⟨x, hx, hxn⟩ := hx
        rcases List.mem_cons.mp hx with rfl | hx
        · omega
        · exact ⟨x, hx, hxn⟩
      have hc : c + (frameLen p.mem c + sizeofFrameHead) = c + f.extent := by
        rw [hl.1.len, Frame.extent, Nat.add_comm sizeofFrameHead]
      obtain ⟨c', h1, h2, h3, h4⟩ := ih hl.2 hx'
      rw [if_pos hf, hc, early, fromTime, List.takeWhile_cons_of_pos (by simpa using hf),
        List.dropWhile_cons_of_pos (by simpa using hf)]
      refine ⟨c', h1, ?_, ⟨hl.1, h3⟩, h4⟩
      intro o ho
      rcases List.mem_cons.mp ho with rfl | ho
      · exact hlt
      · exact h2 o ho
    · rw [if_neg hf, early, fromTime, List.takeWhile_cons_of_neg (by simpa using hf),
        List.dropWhile_cons_of_neg (by simpa using hf)]
      refine ⟨c, rfl, ?_, rfl, hl⟩
      intro o ho
      rw [List.mem_singleton.mp ho]
      exact hlt

/-- Wherever it starts, the scan looks there. -/
theorem mem_scan (p : Page) (nano c : Nat) : c ∈ (scan p nano c).1 := by
  rw [scan]
  split
  · split <;> simp
  · simp

/-! ## Where `seekTime` comes to -/

variable {g : PageGroup} {fss : List (List Frame)} {r r' : CRawIOReader} {k : Nat}
  {before cur : List Frame}

/-- The reader is behind the last frame: at the tail of a last page that goes
on, or at the page behind a finished one. -/
def Ended (g : PageGroup) (fss : List (List Frame)) (r : CRawIOReader) : Prop :=
  (∃ k p fs, k + 1 = fss.length ∧ g.pages[k]? = some p ∧ p.status ≠ pageStatusFinish ∧
    At g fss r k fs []) ∨
  (r.fd = false ∧ r.pageNum = g.first + fss.length ∧
    ∀ k p, k + 1 = fss.length → g.pages[k]? = some p → p.status = pageStatusFinish)

/-- The reader stands at the first frame from page `k` on that is not too early:
in the first page whose last time is not; or there is none, and it is at the end. -/
def Target (g : PageGroup) (fss : List (List Frame)) (nano k : Nat) (r : CRawIOReader) : Prop :=
  (∃ q fs, k ≤ q ∧ fss[q]? = some fs ∧ fs ≠ [] ∧ nano ≤ lastTime fs ∧
    (∀ j fs', k ≤ j → j < q → fss[j]? = some fs' → lastTime fs' < nano) ∧
    At g fss r q (early nano fs) (fromTime nano fs)) ∨
  ((∀ j fs, k ≤ j → fss[j]? = some fs → lastTime fs < nano) ∧ Ended g fss r)

/-- Every frame looked at starts before the tail of the page it is in. -/
def Inside (g : PageGroup) (looked : List (Nat × Nat)) : Prop :=
  ∀ q ∈ looked, ∃ p, g.file q.1 = some p ∧ q.2 < p.tail

theorem load_at (hst : g.Static fss) {fs : List Frame} (hfs : fss[k]? = some fs)
    (hnum : r.pageNum = g.first + k) :
    (load g r).2 = true ∧ At g fss (load g r).1 k [] fs := by
  obtain ⟨hk, -⟩ := List.getElem?_eq_some_iff.mp hfs
  rw [← hst.length] at hk
  have hfile : g.file r.pageNum = some g.pages[k] := by
    rw [hnum, PageGroup.file_add, List.getElem?_eq_getElem hk]
  obtain ⟨hl, k', fs', hat, -⟩ := load_of_file hst hfile
  have hk' : k' = k := by
    have h1 := hat.pageNum
    rw [hl, hnum] at h1
    exact (Nat.add_left_cancel h1).symm
  subst hk'
  have hfs' := hat.frames
  rw [List.nil_append, hfs, Option.some.injEq] at hfs'
  exact ⟨by rw [hl], hfs' ▸ hat⟩

/-- The page behind page `k`: mapped at its start, or not there. -/
theorem loadNext_cases (hst : g.Static fss) (h : At g fss r k before cur) :
    (∃ fs, fss[k + 1]? = some fs ∧ (loadNext g r).2 = true ∧ At g fss (loadNext g r).1 (k + 1) [] fs) ∨
      (k + 1 = fss.length ∧ (loadNext g r).2 = false ∧ (loadNext g r).1.fd = false ∧
        (loadNext g r).1.pageNum = g.first + fss.length) := by
  have hnum : r.pageNum + 1 = g.first + (k + 1) := by rw [h.pageNum, Nat.add_assoc]
  cases hfs : fss[k + 1]? with
  | some fs => exact Or.inl ⟨fs, rfl, load_at hst hfs hnum⟩
  | none =>
    have hlen : k + 1 = fss.length := by
      have h1 := List.getElem?_eq_none_iff.mp hfs
      obtain ⟨h2, -⟩ := List.getElem?_eq_some_iff.mp h.frames
      omega
    have hnone : g.file (r.pageNum + 1) = none := by
      rw [hnum, PageGroup.file_add, List.getElem?_eq_none_iff, hst.length, hlen]
    have hl : loadNext g r = ({ r.unload with pageNum := r.pageNum + 1 }, false) :=
      load_of_none hnone
    rw [hl]
    exact Or.inr ⟨hlen, rfl, rfl, hnum.trans (by rw [hlen])⟩

theorem Target.of_later {nano : Nat} {fs : List Frame} (hfs : fss[k]? = some fs)
    (hlt : lastTime fs < nano) (h : Target g fss nano (k + 1) r) : Target g fss nano k r := by
  have hstep : ∀ (P : Nat → Prop), (∀ j fs', k + 1 ≤ j → P j → fss[j]? = some fs' → lastTime fs' < nano) →
      ∀ j fs', k ≤ j → P j → fss[j]? = some fs' → lastTime fs' < nano := by
    intro P hP j fs' hj hPj hfs'
    rcases Nat.lt_or_ge k j with hkj | hkj
    · exact hP j fs' hkj hPj hfs'
    · obtain rfl : j = k := by omega
      rw [hfs, Option.some.injEq] at hfs'
      exact hfs' ▸ hlt
  obtain ⟨q, fs', hq, hfs', hne, hle, hbefore, hat⟩ | ⟨hall, hend⟩ := h
  · exact Or.inl ⟨q, fs', by omega, hfs', hne, hle, hstep (· < q) hbefore, hat⟩
  · exact Or.inr ⟨fun j fs' hj hfs' =>
      hstep (fun _ => True) (fun j fs' hj _ h => hall j fs' hj h) j fs' hj trivial hfs', hend⟩

/-- In a page whose last time is late enough the scan decides. -/
theorem seekTime_scan (hst : g.Static fss) (h : At g fss r k before cur) {nano : Int}
    (hn : 0 ≤ nano) (hle : nano ≤ lastTime (before ++ cur)) {p : Page} (hp : g.pages[k]? = some p) :
    seekTime g nano r =
      ((scan p nano.toNat r.cursor).1.map fun c => (r.pageNum, c),
        (scan p nano.toNat r.cursor).2.map fun c => { r with cursor := c }) := by
  obtain ⟨q, hq, hm, hh⟩ := h.page hst
  obtain rfl : p = q := by rw [hp] at hq; simpa using hq
  have hlate : ¬p.lastNano < nano := by
    rw [hh.lastNano]
    omega
  rw [seekTime.eq_def]
  split <;> rename_i hm' <;> rw [hm] at hm'
  · cases hm'
  · obtain rfl := Option.some.inj hm'
    rw [if_neg (by omega), if_neg hlate]

/-- From a frame on it stops at the first that is not too early. -/
theorem seekTime_here (hst : g.Static fss) (h : At g fss r k before cur) {nano : Int}
    (hn : 0 ≤ nano) (hle : nano ≤ lastTime (before ++ cur)) (hne : cur ≠ []) :
    ∃ r', (seekTime g nano r).2 = some r' ∧ Inside g (seekTime g nano r).1 ∧
      At g fss r' k (before ++ early nano.toNat cur) (fromTime nano.toNat cur) := by
  obtain ⟨p, hp, hm, hh⟩ := h.page hst
  obtain ⟨hb, hc⟩ := h.laid p hp
  have hlast : lastTime (before ++ cur) = lastTime cur := by
    rw [lastTime, lastTime, List.getLast?_append_of_ne_nil _ hne]
  have hn' : nano.toNat ≤ lastTime cur := by omega
  obtain ⟨c', h1, h2, h3, h4⟩ := scan_spec hc hh.tail_le (le_lastTime hne hn')
  rw [seekTime_scan hst h hn hle hp]
  refine ⟨{ r with cursor := c' }, by simp [h1], ?_, h.fd, h.pageNum, ?_, fun q hq => ?_⟩
  · intro x hx
    obtain ⟨o, ho, rfl⟩ := List.mem_map.mp hx
    exact ⟨p, by rw [h.pageNum, PageGroup.file_add, hp], h2 o ho⟩
  · rw [h.frames, List.append_assoc, List.takeWhile_append_dropWhile]
  · obtain rfl : p = q := by rw [hp] at hq; simpa using hq
    exact ⟨laid_append.mpr ⟨_, hb, h3⟩, h4⟩

/-- Nothing is looked at in a page whose last time is too early. -/
theorem seekTime_skip (hst : g.Static fss) (h : At g fss r k before cur) {nano : Int}
    (hlt : lastTime (before ++ cur) < nano) :
    ∃ r', (seekTime g nano r).2 = some r' ∧ Inside g (seekTime g nano r).1 ∧
      Target g fss nano.toNat k r' := by
  obtain ⟨n, hk⟩ : ∃ n, n = fss.length - k := ⟨_, rfl⟩
  induction n using Nat.strongRecOn generalizing k r before cur with
  | ind n ih =>
    obtain ⟨p, hp, hm, hh⟩ := h.page hst
    have hklen : k < fss.length := (List.getElem?_eq_some_iff.mp h.frames).1
    have hearly : p.lastNano < nano := by rw [hh.lastNano]; exact hlt
    have hltn : lastTime (before ++ cur) < nano.toNat := by omega
    rw [seekTime.eq_def]
    split <;> rename_i hm' <;> rw [hm] at hm'
    · cases hm'
    obtain rfl := Option.some.inj hm'
    rw [if_neg (by omega), if_pos hearly]
    by_cases hs : p.status = pageStatusFinish
    · have hpass : passPage g r = loadNext g r := by simp [passPage, hm, hs]
      simp only [hpass]
      obtain ⟨fs, hfs, hl, hat⟩ | ⟨hlen, hl, hfd, hnum⟩ := loadNext_cases hst h
      · rw [dif_pos hl]
        by_cases hle : nano ≤ lastTime fs
        · have hne : fs ≠ [] := by
            rintro rfl
            simp only [lastTime, List.getLast?_nil] at hle
            simp at hle
            omega
          obtain ⟨r', h1, h2, h3⟩ := seekTime_here hst hat (show 0 ≤ nano by omega) (by simpa using hle) hne
          refine ⟨r', h1, h2, Target.of_later h.frames hltn (Or.inl ?_)⟩
          exact ⟨k + 1, fs, Nat.le_refl _, hfs, hne, by omega,
            fun j fs' hj hjq _ => absurd hj (by omega), by simpa using h3⟩
        · obtain ⟨r', h1, h2, h3⟩ := ih (fss.length - (k + 1)) (by omega) hat (by simpa using hle) rfl
          exact ⟨r', h1, h2, h3.of_later h.frames hltn⟩
      · rw [dif_neg (by rw [hl]; decide), if_neg (by rw [hfd]; decide)]
        refine ⟨_, rfl, (fun x hx => by cases hx), Or.inr ⟨fun j fs hj hfs => ?_, Or.inr ⟨hfd, hnum, ?_⟩⟩⟩
        · have hjlen := (List.getElem?_eq_some_iff.mp hfs).1
          obtain rfl : j = k := by omega
          rw [h.frames, Option.some.injEq] at hfs
          exact hfs ▸ hltn
        · intro j q hj hq
          obtain rfl : j = k := by omega
          rw [hp, Option.some.injEq] at hq
          exact hq ▸ hs
    · have hpass : passPage g r = (r, false) := by simp [passPage, hm, hs]
      have hlen : k + 1 = fss.length := by
        by_contra hne
        exact hs (hst.finished k p hp (by rw [hst.length]; omega))
      simp only [hpass]
      rw [dif_neg (by decide), if_pos h.fd]
      refine ⟨_, rfl, (fun x hx => by cases hx), Or.inr ⟨fun j fs hj hfs => ?_, Or.inl ?_⟩⟩
      · have hjlen := (List.getElem?_eq_some_iff.mp hfs).1
        obtain rfl : j = k := by omega
        rw [h.frames, Option.some.injEq] at hfs
        exact hfs ▸ hltn
      · refine ⟨k, p, before ++ cur, hlen, hp, hs, h.fd, h.pageNum, by simpa using h.frames, ?_⟩
        intro q hq
        obtain rfl : p = q := by rw [hp] at hq; simpa using hq
        exact ⟨hh.laid, rfl⟩

/-! ## The frames from a time on -/

theorem le_lastTime_of_mem {fs : List Frame} (hs : fs.Pairwise fun a b => a.nano ≤ b.nano) {f : Frame}
    (hf : f ∈ fs) : f.nano ≤ lastTime fs := by
  obtain ⟨xs, x, rfl⟩ := List.eq_nil_or_concat'  fs |>.resolve_left (List.ne_nil_of_mem hf)
  rw [lastTime, List.getLast?_concat]
  rcases List.mem_append.mp hf with h | h
  · exact (List.pairwise_append.mp hs).2.2 f h x (List.mem_singleton_self x)
  · rw [List.mem_singleton.mp h]
    exact Nat.le_refl _

/-- Of frames in the order of their times those not too early are the last ones. -/
theorem filter_eq_fromTime {nano : Nat} {fs : List Frame}
    (hs : fs.Pairwise fun a b => a.nano ≤ b.nano) :
    fs.filter (fun f => nano ≤ f.nano) = fromTime nano fs := by
  induction fs with
  | nil => rfl
  | cons f fs ih =>
    obtain ⟨hle, hs⟩ := List.pairwise_cons.mp hs
    by_cases hf : f.nano < nano
    · rw [fromTime, List.dropWhile_cons_of_pos (by simpa using hf),
        List.filter_cons_of_neg (by simpa using hf), ih hs]
    · rw [fromTime, List.dropWhile_cons_of_neg (by simpa using hf), List.filter_eq_self]
      intro x hx
      rcases List.mem_cons.mp hx with rfl | hx
      · simpa using hf
      · have := hle x hx
        simp only [decide_eq_true_eq]
        omega

theorem reads_of_target {nano : Nat} (hs : fss.flatten.Pairwise fun a b => a.nano ≤ b.nano)
    (h : Target g fss nano 0 r) :
    Reads g fss r (fss.flatten.filter fun f => nano ≤ f.nano) := by
  have hpage : ∀ fs ∈ fss, fs.Pairwise fun a b => a.nano ≤ b.nano := (List.pairwise_flatten.mp hs).1
  obtain ⟨q, fs, -, hfs, hne, hle, hbefore, hat⟩ | ⟨hall, hend⟩ := h
  · obtain ⟨hq, hget⟩ := List.getElem?_eq_some_iff.mp hfs
    have hsplit : fss = fss.take q ++ fs :: fss.drop (q + 1) := by
      rw [← hget, ← List.drop_eq_getElem_cons hq, List.take_append_drop]
    have hsorted : fs.Pairwise fun a b => a.nano ≤ b.nano := hpage fs (hget ▸ List.getElem_mem hq)
    have hfirst : (fss.take q).flatten.filter (fun f => nano ≤ f.nano) = [] := by
      rw [List.filter_eq_nil_iff]
      intro f hf
      obtain ⟨fs', hfs', hmem⟩ := List.mem_flatten.mp hf
      obtain ⟨j, hj, rfl⟩ := List.getElem_of_mem hfs'
      rw [List.length_take] at hj
      rw [List.getElem_take] at hmem
      have h1 := hbefore j fss[j] (Nat.zero_le j) (by omega) (List.getElem?_eq_getElem (by omega))
      have h2 := le_lastTime_of_mem (hpage _ (List.getElem_mem (by omega))) hmem
      simp only [decide_eq_true_eq]
      omega
    have hlast : (fss.drop (q + 1)).flatten.filter (fun f => nano ≤ f.nano) =
        (fss.drop (q + 1)).flatten := by
      rw [List.filter_eq_self]
      intro f hf
      obtain ⟨x, hx, hxn⟩ := le_lastTime hne hle
      rw [hsplit, List.flatten_append, List.flatten_cons] at hs
      have h1 := (List.pairwise_append.mp (List.pairwise_append.mp hs).2.1).2.2 x hx f hf
      simp only [decide_eq_true_eq]
      omega
    refine Or.inl ⟨q, _, _, hat, ?_⟩
    rw [hat.pageNum, Nat.add_assoc, framesFrom_add, hsplit, List.flatten_append, List.flatten_cons,
      List.filter_append, List.filter_append, ← hsplit, hfirst, hlast, filter_eq_fromTime hsorted,
      List.nil_append]
  · have hnil : fss.flatten.filter (fun f => nano ≤ f.nano) = [] := by
      rw [List.filter_eq_nil_iff]
      intro f hf
      obtain ⟨fs', hfs', hmem⟩ := List.mem_flatten.mp hf
      obtain ⟨j, hj, rfl⟩ := List.getElem_of_mem hfs'
      have h1 := hall j fss[j] (Nat.zero_le j) (List.getElem?_eq_getElem hj)
      have h2 := le_lastTime_of_mem (hpage _ (List.getElem_mem hj)) hmem
      simp only [decide_eq_true_eq]
      omega
    rw [hnil]
    have hdrop : framesFrom g fss (g.first + fss.length) = [] := by
      rw [framesFrom_add, List.drop_length]
      rfl
    obtain ⟨k, p, fs, hk, -, -, hat⟩ | ⟨hfd, hnum, -⟩ := hend
    · refine Or.inl ⟨k, fs, [], hat, ?_⟩
      rw [hat.pageNum, Nat.add_assoc, hk, hdrop]
      rfl
    · exact Or.inr ⟨hfd, by rw [hnum, hdrop]⟩

/-- The first page without a frame: the scan stops where it starts. -/
theorem seekTime_blank (hst : g.Static fss) (h : At g fss r k [] []) :
    (seekTime g 0 r).2 = some r := by
  obtain ⟨p, hp, hm, hh⟩ := h.page hst
  have hcur : sizeofPageHead = r.cursor := (h.laid p hp).1
  have hroom : r.cursor + 16 ≤ p.mapEnd := by
    have hsize := hh.bears.fileSize_ge
    unfold Page.mapEnd
    simp only [sizeofPageHead] at hcur hsize
    omega
  rw [seekTime_scan hst h (Int.le_refl 0) (by simp) hp, scan, if_pos hroom, if_neg (by simp)]
  rfl

/-- `load`, then `seekTime`, at a page that is there: the target from there on,
unless that is a page without a frame and the time 0, where the scan looks behind
the tail and stays. -/
theorem loadSeek_spec (hst : g.Static fss) {fs : List Frame} (hfs : fss[k]? = some fs)
    (hnum : r.pageNum = g.first + k) {nano : Int} (h0 : 0 ≤ nano) :
    ∃ r', (loadSeek g nano r).2 = some r' ∧
      (fs = [] ∧ nano = 0 ∧ At g fss r' k [] [] ∨
        Inside g (loadSeek g nano r).1 ∧ Target g fss nano.toNat k r') := by
  obtain ⟨hl, hat⟩ := load_at hst hfs hnum
  rw [loadSeek, if_pos hl]
  by_cases hlt : lastTime fs < nano
  · obtain ⟨r', h1, h2⟩ := seekTime_skip hst hat (by simpa using hlt)
    exact ⟨r', h1, Or.inr h2⟩
  by_cases hne : fs = []
  · subst hne
    obtain rfl : nano = 0 := by
      have hz : lastTime [] = 0 := rfl
      omega
    exact ⟨_, seekTime_blank hst hat, Or.inl ⟨rfl, rfl, hat⟩⟩
  · obtain ⟨r', h1, h2, h3⟩ := seekTime_here hst hat h0 (by simpa using hlt) hne
    refine ⟨r', h1, Or.inr ⟨h2, Or.inl ?_⟩⟩
    exact ⟨k, fs, Nat.le_refl _, hfs, hne, by omega, fun j _ hj hjk _ => absurd hjk (by omega),
      by simpa using h3⟩

theorem framesFrom_nil (num : Nat) : framesFrom g [] num = [] := by
  unfold framesFrom
  split <;> simp

theorem headNum_cases (hst : g.Static fss) :
    (fss = [] ∧ (if g.getHeadNum < 0 then 0 else g.getHeadNum.toNat) = 0 ∧ ∀ num, g.file num = none) ∨
      (fss ≠ [] ∧ (if g.getHeadNum < 0 then 0 else g.getHeadNum.toNat) = g.first) := by
  have hlen := hst.length
  cases hp : g.pages with
  | nil =>
    rw [hp] at hlen
    refine Or.inl ⟨List.eq_nil_of_length_eq_zero hlen.symm, ?_, fun num => ?_⟩
    · rw [PageGroup.getHeadNum, if_pos hp]
      rfl
    · rw [PageGroup.file, hp]
      simp
  | cons p ps =>
    have hne : g.pages ≠ [] := by rw [hp]; exact List.cons_ne_nil p ps
    refine Or.inr ⟨?_, ?_⟩
    · rintro rfl
      rw [hp] at hlen
      cases hlen
    · rw [PageGroup.getHeadNum, if_neg hne, if_neg (by omega), Int.toNat_natCast]

theorem loadSeek_none {nano : Int} (h : g.file r.pageNum = none) :
    loadSeek g nano r = ([], some r.unload) := by
  rw [loadSeek, load_of_none h]
  rfl

/-- `init` from a time starts where `setReadPos` does. -/
theorem init_eq {nano : Int} (h0 : 0 ≤ nano) : init g nano r = loadSeek g nano (r.toHead g) := by
  rw [init, if_neg (by omega), initAt, toHead]
  by_cases hp : g.pages = []
  · have hhead : g.getHeadNum = -1 := if_pos hp
    have htail : g.getTailNum = -1 := if_pos hp
    simp [hhead, htail]
  · have hhead : g.getHeadNum = g.first := if_neg hp
    have hneg : ¬(g.first : Int) < 0 := by omega
    simp only [hhead, if_neg hneg]

/-- From the head page on. -/
theorem fromHead_spec (hst : g.Static fss) {nano : Int} (h0 : 0 ≤ nano)
    (hnum : r.pageNum = if g.getHeadNum < 0 then 0 else g.getHeadNum.toNat) :
    ∃ r', (loadSeek g nano r).2 = some r' ∧
      (fss = [] ∧ r'.fd = false ∧ r'.pageNum = 0 ∨
        fss[0]? = some [] ∧ nano = 0 ∧ At g fss r' 0 [] [] ∨
        Inside g (loadSeek g nano r).1 ∧ Target g fss nano.toNat 0 r') := by
  obtain ⟨hnil, hz, hnone⟩ | ⟨hne, hfirst⟩ := headNum_cases hst
  · rw [loadSeek_none (hnone _)]
    exact ⟨_, rfl, Or.inl ⟨hnil, rfl, hnum.trans hz⟩⟩
  · obtain ⟨fs, rest, rfl⟩ := List.exists_cons_of_ne_nil hne
    obtain ⟨r', h1, h2⟩ := loadSeek_spec (k := 0) hst rfl (hnum.trans hfirst) h0
    refine ⟨r', h1, Or.inr ?_⟩
    obtain ⟨rfl, h3, h4⟩ | h3 := h2
    · exact Or.inl ⟨rfl, h3, h4⟩
    · exact Or.inr h3

/-- **Positioned reading.** Of a group of pages whose frames are in the order of
their times, `init` from a time and reads after it give the frames from that
time on, in order, each once, and then null. -/
theorem readN_init (hst : g.Static fss) (hs : fss.flatten.Pairwise fun a b => a.nano ≤ b.nano)
    {fromNano : Int} (h0 : 0 ≤ fromNano) (r : CRawIOReader) :
    ∃ r', (init g fromNano r).2 = some r' ∧ ∀ n,
      let out := fss.flatten.filter fun f => fromNano ≤ f.nano
      readN g r' n = (out.take n).map some ++ List.replicate (n - out.length) none := by
  have hfilter : (fss.flatten.filter fun f => fromNano ≤ f.nano) =
      fss.flatten.filter fun f => fromNano.toNat ≤ f.nano := by
    congr 1
    funext f
    rw [decide_eq_decide]
    omega
  simp only [hfilter]
  suffices hr : ∃ r', (init g fromNano r).2 = some r' ∧
      Reads g fss r' (fss.flatten.filter fun f => fromNano.toNat ≤ f.nano) by
    obtain ⟨r', h1, h2⟩ := hr
    exact ⟨r', h1, readN_spec hst.carries h2⟩
  rw [init_eq h0]
  obtain ⟨r', hr, hcases⟩ := fromHead_spec (r := r.toHead g) hst h0 rfl
  refine ⟨r', hr, ?_⟩
  obtain ⟨hnil, hfd, -⟩ | ⟨hhead, rfl, hat⟩ | ⟨-, htarget⟩ := hcases
  · subst hnil
    exact Or.inr ⟨hfd, (framesFrom_nil _).symm⟩
  · refine Or.inl ⟨0, [], [], hat, ?_⟩
    have hall : (fss.flatten.filter fun f => (0 : Int).toNat ≤ f.nano) = fss.flatten :=
      List.filter_eq_self.mpr fun f _ => by simp
    obtain ⟨rest, rfl⟩ : ∃ rest, fss = [] :: rest := by
      cases fss with
      | nil => cases hhead
      | cons fs rest => exact ⟨rest, by rw [Option.some.inj hhead]⟩
    rw [hall, hat.pageNum, Nat.add_assoc, framesFrom_add]
    rfl
  · exact reads_of_target hs htarget

theorem readN_init_six : ∃ r', (init twoPages 6 {}).2 = some r' ∧
    readN twoPages r' 2 = [some ⟨7, [20]⟩, none] := by
  obtain ⟨r', h1, h2⟩ := readN_init twoPages_static (by decide) (show (0 : Int) ≤ 6 by decide) {}
  exact ⟨r', h1, h2 2⟩

end CRawIOReader

end NatFramework.Io
