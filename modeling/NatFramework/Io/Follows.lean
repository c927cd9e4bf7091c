import NatFramework.Io.Loads
import NatFramework.Io.PageLog

/-!
# A reader of pages that grow

* `Follows`: what the reader has returned are the first frames of the pages, and
  what it has loaded is still so. `Follows.load` and `Follows.grows`: neither a load
  nor the growing of the pages ends that.
* `Loads`: what a load leads to, case by case.
* `Follows.reads_on`: left alone with the pages, a reader returns all that is there.
-/
namespace NatFramework.Io

open Lib

/-! ## What a reader relies on -/

namespace Log

/-- The frame `f` stands at `off` of a page, before its tail. -/
def Leads (l : Log) (page off : Nat) (f : Frame) : Prop :=
  ∃ k p, page = l.group.first + k ∧ k < l.fss.length ∧ l.group.pages[k]? = some p ∧
    Stands p.mem off f ∧ off + f.extent ≤ p.tail

variable {bound : Nat} {l l' : Log} {page off : Nat} {f : Frame}

theorem Leads.grows (h : l.Leads page off f) (hg : l.Grows l') : l'.Leads page off f := by
  obtain ⟨k, p, rfl, hk, hp, hs, hle⟩ := h
  obtain ⟨fs', p', hfs', hp', hgrows⟩ := hg.frames (List.getElem?_eq_getElem hk) hp
  have hlt := (List.getElem?_eq_some_iff.mp hfs').1
  refine ⟨k, p', by rw [hg.first], hlt, hp', hs.congr fun a _ ha => hgrows.kept a (by omega), ?_⟩
  exact Nat.le_trans hle hgrows.tail_le

theorem Leads.frame (h : l.Leads page off f) :
    l.group.frame ⟨page, off, f.data.length⟩ = some f := by
  obtain ⟨k, p, rfl, -, hp, hs, -⟩ := h
  rw [PageGroup.frame, PageGroup.file_add, hp, Option.map_some, hs.nano, hs.data]

theorem Leads.frameAt (h : l.Leads page off f) :
    (l.group.file page).map (frameAt ·.mem off) = some f := by
  obtain ⟨k, p, rfl, -, hp, hs, -⟩ := h
  rw [PageGroup.file_add, hp, Option.map_some, hs.frameAt]

/-- Pages that are gone past do not change. -/
theorem Grows.take {k : Nat} (hg : l.Grows l')
    (hpast : ∀ j < k, ∃ p, l.group.pages[j]? = some p ∧ p.status = pageStatusFinish ∧ j < l.fss.length) :
    l'.fss.take k = l.fss.take k := by
  have hget : ∀ j < k, l'.fss[j]? = l.fss[j]? := by
    intro j hj
    obtain ⟨p, hp, hs, hlt⟩ := hpast j hj
    obtain ⟨fs', p', hfs', hp', hgrows⟩ := hg.frames (List.getElem?_eq_getElem hlt) hp
    rw [hfs', (hgrows.finished hs).2.2, List.getElem?_eq_getElem hlt]
  refine List.ext_getElem? fun j => ?_
  rw [List.getElem?_take, List.getElem?_take]
  split
  · exact hget j ‹_›
  · rfl

end Log

/-- What a call has loaded is still so. -/
def Pc.Holds (g : PageGroup) (r : CRawIOReader) : Pc → Prop
  | .idle => True
  | .status _ => r.fd = true
  | .tail _ st => r.fd = true ∧
      (st = pageStatusFinish → ∀ p, r.mapped g = some p → p.status = pageStatusFinish)
  | .magic _ | .len _ => r.fd = true ∧ ∀ p, r.mapped g = some p → r.cursor < p.tail
  | .skip => False
  | .file _ => r.fd = false
  | .stat _ => r.fd = false ∧ ∃ p, g.file r.pageNum = some p
  | .version _ n => r.fd = false ∧
      ∃ p, g.file r.pageNum = some p ∧ p.fileSize = n ∧ sizeofPageHead ≤ n
  | .size _ n => r.fd = false ∧
      ∃ p, g.file r.pageNum = some p ∧ p.fileSize = n ∧ sizeofPageHead ≤ n ∧
        p.version = pageHeadVer1

/-- The reader is at page `k` of the group: the pages before it are finished and
gone past, and of this one `before`. -/
structure Reading.At (l : Log) (s : Reading) (k : Nat) (before : List Frame) : Prop where
  pageNum : s.r.pageNum = l.group.first + k
  past : ∀ j < k, ∃ p, l.group.pages[j]? = some p ∧ p.status = pageStatusFinish ∧ j < l.fss.length
  place : (∃ cur, CRawIOReader.At l.group l.fss s.r k before cur) ∨ s.r.fd = false ∧ before = []
  got : List.Forall₂ (fun x f => l.Leads x.page x.off f ∧ x.len = f.data.length) s.got
    ((l.fss.take k).flatten ++ before)
  pc : s.pc.Holds l.group s.r

/-- What a reader has returned are the first frames of the pages. -/
structure Reading.Follows (l : Log) (s : Reading) : Prop where
  at_page : ∃ k before, s.At l k before
  looked : ∀ x ∈ s.looked, ∃ f, l.fss.flatten[x.1]? = some f ∧ l.Leads x.2.1 x.2.2 f

namespace Reading

variable {bound : Nat} {l l' : Log} {s : Reading} {k : Nat} {before cur : List Frame}

/-! ## The pages grow -/

theorem place_grows {r : CRawIOReader} (hat : CRawIOReader.At l.group l.fss r k before cur)
    (hok : l.Ok bound) (hg : l.Grows l') (hok' : l'.Ok bound) :
    ∃ cur', CRawIOReader.At l'.group l'.fss r k before cur' := by
  obtain ⟨p, hp, -, -⟩ := hat.bears hok.carries
  obtain ⟨fs', p', hfs', hp', hgrows⟩ := hg.frames hat.frames hp
  obtain ⟨more, hmore⟩ := hgrows.frames
  rw [List.append_assoc] at hmore
  refine ⟨cur ++ more, hat.fd, by rw [hg.first]; exact hat.pageNum, by rw [hfs', hmore], ?_⟩
  intro q hq
  obtain rfl : p' = q := by rw [hp'] at hq; simpa using hq
  obtain ⟨hbefore, hcur⟩ := hat.laid p hp
  have hle := hcur.le
  have hbefore' : Laid p'.mem sizeofPageHead before r.cursor :=
    hbefore.congr fun a ha => hgrows.kept a (by omega)
  obtain ⟨q, hq', hb⟩ := hok'.carries.bears hfs'
  obtain rfl : p' = q := by rw [hp'] at hq'; simpa using hq'
  obtain ⟨mid, h1, h2⟩ := laid_append.mp (hmore ▸ hb.laid)
  rw [h1.end_unique hbefore'] at h2
  exact ⟨hbefore', h2⟩

/-- A mapped reader stands in its page. -/
theorem At.mapped (h : s.At l k before) (hok : l.Ok bound) (hfd : s.r.fd = true) :
    ∃ cur p, CRawIOReader.At l.group l.fss s.r k before cur ∧ l.group.pages[k]? = some p ∧
      s.r.mapped l.group = some p ∧ p.Bears (before ++ cur) := by
  obtain ⟨cur, hat⟩ | ⟨hfd', -⟩ := h.place
  · obtain ⟨p, hp, hm, hb⟩ := hat.bears hok.carries
    exact ⟨cur, p, hat, hp, hm, hb⟩
  · rw [hfd] at hfd'
    cases hfd'

theorem At.file (h : s.At l k before) : l.group.file s.r.pageNum = l.group.pages[k]? := by
  rw [h.pageNum, PageGroup.file_add]

/-- What has been loaded stays so. -/
theorem At.holds_grows (h : s.At l k before) (hok : l.Ok bound) (hg : l.Grows l') (hok' : l'.Ok bound) :
    s.pc.Holds l'.group s.r := by
  have hpc := h.pc
  have hfile : l'.group.file s.r.pageNum = l'.group.pages[k]? := by
    rw [h.pageNum, ← hg.first, PageGroup.file_add]
  -- a mapped page, and what has become of it
  have hmapped : s.r.fd = true → ∃ fs fs' p p', s.r.mapped l.group = some p ∧
      s.r.mapped l'.group = some p' ∧ Page.Grows fs fs' p p' := by
    intro hfd
    obtain ⟨cur, p, hat, hp, hm, -⟩ := h.mapped hok hfd
    obtain ⟨fs', p', -, hp', hgrows⟩ := hg.frames hat.frames hp
    refine ⟨_, fs', p, p', hm, ?_, hgrows⟩
    rw [CRawIOReader.mapped, hfd, if_pos rfl, hfile, hp']
  -- a file that has been opened, and what has become of it
  have hopened : ∀ {p}, l.group.file s.r.pageNum = some p → ∃ p', l'.group.file s.r.pageNum = some p' ∧
      (sizeofPageHead ≤ p.fileSize → p'.fileSize = p.fileSize) := by
    intro p hp
    rw [h.file] at hp
    rw [hfile]
    exact hg.page hp
  cases hs : s.pc with
  | idle => trivial
  | status c =>
    rw [hs] at hpc
    exact hpc
  | tail c st =>
    rw [hs] at hpc
    obtain ⟨fs, fs', p, p', hm, hm', hgrows⟩ := hmapped hpc.1
    refine ⟨hpc.1, fun hst q hq => ?_⟩
    obtain rfl : p' = q := by rw [hm'] at hq; simpa using hq
    exact (hgrows.finished (hpc.2 hst p hm)).1
  | magic c | len c =>
    rw [hs] at hpc
    obtain ⟨fs, fs', p, p', hm, hm', hgrows⟩ := hmapped hpc.1
    refine ⟨hpc.1, fun q hq => ?_⟩
    obtain rfl : p' = q := by rw [hm'] at hq; simpa using hq
    exact Nat.lt_of_lt_of_le (hpc.2 p hm) hgrows.tail_le
  | skip =>
    rw [hs] at hpc
    exact hpc
  | file c =>
    rw [hs] at hpc
    exact hpc
  | stat c =>
    rw [hs] at hpc
    obtain ⟨hfd, p, hp⟩ := hpc
    obtain ⟨p', hp', -⟩ := hopened hp
    exact ⟨hfd, p', hp'⟩
  | version c n =>
    rw [hs] at hpc
    obtain ⟨hfd, p, hp, hsize, hle⟩ := hpc
    obtain ⟨p', hp', hsize'⟩ := hopened hp
    exact ⟨hfd, p', hp', (hsize' (by omega)).trans hsize, hle⟩
  | size c n =>
    rw [hs] at hpc
    obtain ⟨hfd, p, hp, hsize, hle, hversion⟩ := hpc
    obtain ⟨p', hp', hsize'⟩ := hopened hp
    refine ⟨hfd, p', hp', (hsize' (by omega)).trans hsize, hle, ?_⟩
    -- with its version the page is one of those that bear frames
    rw [h.file] at hp
    rw [hfile] at hp'
    have hk : k < l.fss.length := by
      by_contra hge
      exact hok.carries.raw hp (by omega) hversion
    obtain ⟨fs', q, hfs', hq, -⟩ := hg.frames (List.getElem?_eq_getElem hk) hp
    obtain ⟨q', hq', hb⟩ := hok'.carries.bears hfs'
    obtain rfl : p' = q' := by rw [hp'] at hq'; simpa using hq'
    exact hb.version

theorem At.grows (h : s.At l k before) (hok : l.Ok bound) (hg : l.Grows l') (hok' : l'.Ok bound) :
    s.At l' k before where
  pageNum := by rw [hg.first]; exact h.pageNum
  past := by
    intro j hj
    obtain ⟨p, hp, hs, hlt⟩ := h.past j hj
    obtain ⟨fs', p', hfs', hp', hgrows⟩ := hg.frames (List.getElem?_eq_getElem hlt) hp
    exact ⟨p', hp', (hgrows.finished hs).1, (List.getElem?_eq_some_iff.mp hfs').1⟩
  place := by
    obtain ⟨cur, hat⟩ | hunmapped := h.place
    · exact Or.inl (place_grows hat hok hg hok')
    · exact Or.inr hunmapped
  got := by
    rw [hg.take h.past]
    exact h.got.imp fun x f hx => ⟨hx.1.grows hg, hx.2⟩
  pc := h.holds_grows hok hg hok'

theorem Follows.grows (h : s.Follows l) (hok : l.Ok bound) (hg : l.Grows l') (hok' : l'.Ok bound)
    (hsent : l.fss.flatten <+: l'.fss.flatten) : s.Follows l' where
  at_page := by
    obtain ⟨k, before, hat⟩ := h.at_page
    exact ⟨k, before, hat.grows hok hg hok'⟩
  looked := by
    intro x hx
    obtain ⟨f, hf, hl⟩ := h.looked x hx
    refine ⟨f, ?_, hl.grows hg⟩
    obtain ⟨more, hmore⟩ := hsent
    rw [← hmore, List.getElem?_append_left (List.getElem?_eq_some_iff.mp hf).1]
    exact hf

/-! ## One load -/

/-- The frame that the cursor has come to. -/
theorem At.next {p : Page} (hat : CRawIOReader.At l.group l.fss s.r k before cur)
    (hp : l.group.pages[k]? = some p) (hlt : s.r.cursor < p.tail) :
    ∃ f cur', cur = f :: cur' ∧ Stands p.mem s.r.cursor f ∧ l.Leads s.r.pageNum s.r.cursor f := by
  have hcur := (hat.laid p hp).2
  obtain ⟨f, cur', rfl⟩ := List.exists_cons_of_ne_nil (hcur.lt_iff.mp hlt)
  exact ⟨f, cur', rfl, hcur.1, k, p, hat.pageNum, (List.getElem?_eq_some_iff.mp hat.frames).1, hp,
    hcur.1, hcur.2.le⟩

theorem flatten_at {fss : List (List Frame)} {fs : List Frame} (h : fss[k]? = some fs) :
    fss.flatten = (fss.take k).flatten ++ fs ++ (fss.drop (k + 1)).flatten := by
  obtain ⟨hk, rfl⟩ := List.getElem?_eq_some_iff.mp h
  have hsplit := List.take_append_drop k fss
  rw [List.drop_eq_getElem_cons hk] at hsplit
  have hflat := congrArg List.flatten hsplit
  rw [List.flatten_append, List.flatten_cons] at hflat
  rw [List.append_assoc, hflat]

theorem At.length_got (h : s.At l k before) :
    s.got.length = ((l.fss.take k).flatten ++ before).length := h.got.length_eq

theorem At.goes {s' : Reading} (h : s.At l k before) (hr : s'.r = s.r) (hgot : s'.got = s.got)
    (hpc : s'.pc.Holds l.group s.r) : s'.At l k before where
  pageNum := by rw [hr]; exact h.pageNum
  past := h.past
  place := by rw [hr]; exact h.place
  got := by rw [hgot]; exact h.got
  pc := by rw [hr]; exact hpc

/-- At the end of a finished page the reader goes on to the next one. -/
theorem At.leave {p : Page} (c : ReaderOp) (h : s.At l k before)
    (hat : CRawIOReader.At l.group l.fss s.r k before cur) (hp : l.group.pages[k]? = some p)
    (hlt : ¬s.r.cursor < p.tail) (hs : p.status = pageStatusFinish) :
    At l { s with r := { s.r.unload with pageNum := s.r.pageNum + 1 }, pc := .file c } (k + 1) [] := by
  have hframes := hat.frames
  rw [hat.nil_of_not_lt hp hlt, List.append_nil] at hframes
  have hk := (List.getElem?_eq_some_iff.mp hframes).1
  refine ⟨?_, fun j hj => ?_, Or.inr ⟨rfl, rfl⟩, ?_, rfl⟩
  · dsimp only
    rw [h.pageNum, Nat.add_assoc]
  · rcases Nat.lt_succ_iff_lt_or_eq.mp hj with hj | rfl
    · exact h.past j hj
    · exact ⟨p, hp, hs, hk⟩
  · have htake : (l.fss.take (k + 1)).flatten ++ [] = (l.fss.take k).flatten ++ before := by
      rw [List.append_nil, List.take_add_one, hframes, List.flatten_append]
      simp
    rw [htake]
    exact h.got

/-- The cursor goes past a frame. -/
theorem At.pass {p : Page} {f : Frame} (h : s.At l k before)
    (hat : CRawIOReader.At l.group l.fss s.r k before (f :: cur)) (hp : l.group.pages[k]? = some p)
    (hl : l.Leads s.r.pageNum s.r.cursor f) :
    At l { s with
      r := { s.r with cursor := s.r.cursor + sizeofFrameHead + frameLen p.mem s.r.cursor }
      pc := .idle
      got := s.got ++ [⟨s.r.pageNum, s.r.cursor, frameLen p.mem s.r.cursor⟩] } k (before ++ [f]) := by
  have hlen : frameLen p.mem s.r.cursor = f.data.length := (hat.laid p hp).2.1.len
  refine ⟨h.pageNum, h.past, Or.inl ⟨cur, hat.step hp⟩, ?_, trivial⟩
  rw [← List.append_assoc]
  exact List.rel_append h.got (.cons ⟨hl, hlen⟩ .nil)

/-- A page that has its version is opened. -/
theorem At.open_page {p : Page} {pc' : Pc} (h : s.At l k before) (hok : l.Ok bound)
    (hfd : s.r.fd = false) (hp : l.group.file s.r.pageNum = some p) (hv : p.version = pageHeadVer1)
    (hpc : pc' = .idle ∨ ∃ c, pc' = .status c) :
    p.size = p.fileSize ∧
      At l { s with r := { s.r with fd := true, cursor := sizeofPageHead }, pc := pc' } k before := by
  rw [h.file] at hp
  have hk : k < l.fss.length := by
    by_contra hge
    exact hok.carries.raw hp (by omega) hv
  obtain ⟨q, hq, hb⟩ := hok.carries.bears (List.getElem?_eq_getElem hk)
  obtain rfl : p = q := by rw [hp] at hq; simpa using hq
  have hnil : before = [] := by
    obtain ⟨cur, hat⟩ | ⟨-, hnil⟩ := h.place
    · rw [hat.fd] at hfd
      cases hfd
    · exact hnil
  subst hnil
  refine ⟨hb.size, h.pageNum, h.past, Or.inl ⟨l.fss[k], rfl, h.pageNum, List.getElem?_eq_getElem hk, ?_⟩,
    h.got, ?_⟩
  · intro q hq
    obtain rfl : p = q := by rw [hp] at hq; simpa using hq
    exact ⟨rfl, hb.laid⟩
  · obtain rfl | ⟨c, rfl⟩ := hpc
    · trivial
    · rfl

/-- What a load leads to, where the reader is at page `k`. -/
inductive Loads (l : Log) (s : Reading) (k : Nat) (before : List Frame) : Reading → Prop where
  | status {c p} : s.pc = .status c → s.r.mapped l.group = some p →
      Loads l s k before { s with pc := .tail c p.status }
  | frame {c st p} : s.pc = .tail c st → s.r.fd = true → s.r.mapped l.group = some p →
      s.r.cursor < p.tail → Loads l s k before { s with pc := if c = .passFrame then .len c else .magic c }
  | leave {c st cur p} : s.pc = .tail c st → CRawIOReader.At l.group l.fss s.r k before cur →
      l.group.pages[k]? = some p → ¬s.r.cursor < p.tail → p.status = pageStatusFinish →
      Loads l s k before { s with r := { s.r.unload with pageNum := s.r.pageNum + 1 }, pc := .file c }
  | wait {c st cur p} : s.pc = .tail c st → CRawIOReader.At l.group l.fss s.r k before cur →
      l.group.pages[k]? = some p → s.r.mapped l.group = some p → ¬s.r.cursor < p.tail →
      st ≠ pageStatusFinish → Loads l s k before { s with pc := .idle }
  | look {cur f} : s.pc = .magic .getCurFrame →
      CRawIOReader.At l.group l.fss s.r k before (f :: cur) → l.Leads s.r.pageNum s.r.cursor f →
      Loads l s k before
        { s with pc := .idle, looked := s.looked ++ [(s.got.length, s.r.pageNum, s.r.cursor)] }
  | magic {c} : s.pc = .magic c → c ≠ .getCurFrame → Loads l s k before { s with pc := .len c }
  | len {c cur p f} : s.pc = .len c → CRawIOReader.At l.group l.fss s.r k before (f :: cur) →
      l.group.pages[k]? = some p → l.Leads s.r.pageNum s.r.cursor f →
      Loads l s k before { s with
        r := { s.r with cursor := s.r.cursor + sizeofFrameHead + frameLen p.mem s.r.cursor }
        pc := .idle
        got := s.got ++ [⟨s.r.pageNum, s.r.cursor, frameLen p.mem s.r.cursor⟩] }
  | missing {c} : s.pc = .file c → l.group.file s.r.pageNum = none →
      Loads l s k before { s with pc := .idle }
  | file {c p} : s.pc = .file c → s.r.fd = false → l.group.file s.r.pageNum = some p →
      Loads l s k before { s with pc := .stat c }
  | small {c p} : s.pc = .stat c → l.group.file s.r.pageNum = some p → p.fileSize < sizeofPageHead →
      Loads l s k before { s with pc := .idle }
  | stat {c p} : s.pc = .stat c → s.r.fd = false → l.group.file s.r.pageNum = some p →
      sizeofPageHead ≤ p.fileSize → Loads l s k before { s with pc := .version c p.fileSize }
  | raw {c n p} : s.pc = .version c n → l.group.file s.r.pageNum = some p → p.version ≠ pageHeadVer1 →
      Loads l s k before { s with pc := .idle }
  | version {c n p} : s.pc = .version c n → s.r.fd = false → l.group.file s.r.pageNum = some p →
      p.fileSize = n → sizeofPageHead ≤ n → p.version = pageHeadVer1 →
      Loads l s k before { s with pc := .size c n }
  | size {c n p} : s.pc = .size c n → s.r.fd = false → l.group.file s.r.pageNum = some p →
      p.version = pageHeadVer1 →
      Loads l s k before { s with
        r := { s.r with fd := true, cursor := sizeofPageHead }
        pc := if c = .passFrame then .idle else .status c }

theorem At.loads (h : s.At l k before) (hok : l.Ok bound) (hidle : s.pc ≠ .idle) :
    Loads l s k before (s.load l.group) := by
  have hpc := h.pc
  cases hs : s.pc with
  | idle => exact absurd hs hidle
  | status c =>
    rw [hs] at hpc
    obtain ⟨cur, p, -, -, hm, -⟩ := h.mapped hok hpc
    rw [load_mapped hm (Or.inl ⟨c, hs⟩), loadMapped, hs]
    exact .status hs hm
  | tail c st =>
    rw [hs] at hpc
    obtain ⟨cur, p, hat, hp, hm, -⟩ := h.mapped hok hpc.1
    rw [load_mapped hm (Or.inr (Or.inl ⟨c, st, hs⟩)), loadMapped, hs]
    dsimp only
    by_cases hlt : s.r.cursor < p.tail
    · rw [if_pos hlt]
      exact .frame hs hpc.1 hm hlt
    · rw [if_neg hlt]
      by_cases hst : st = pageStatusFinish
      · rw [if_pos hst]
        exact .leave hs hat hp hlt (hpc.2 hst p hm)
      · rw [if_neg hst]
        exact .wait hs hat hp hm hlt hst
  | magic c =>
    rw [hs] at hpc
    obtain ⟨cur, p, hat, hp, hm, -⟩ := h.mapped hok hpc.1
    obtain ⟨f, cur, rfl, hf, hl⟩ := next hat hp (hpc.2 p hm)
    rw [load_mapped hm (Or.inr (Or.inr (Or.inl ⟨c, hs⟩))), loadMapped, hs]
    dsimp only
    rw [if_neg (not_not.mpr hf.magic)]
    by_cases hc : c = .getCurFrame
    · rw [if_pos hc]
      exact .look (by rw [hs, hc]) hat hl
    · rw [if_neg hc]
      exact .magic hs hc
  | skip =>
    rw [hs] at hpc
    exact hpc.elim
  | len c =>
    rw [hs] at hpc
    obtain ⟨cur, p, hat, hp, hm, -⟩ := h.mapped hok hpc.1
    obtain ⟨f, cur, rfl, -, hl⟩ := next hat hp (hpc.2 p hm)
    rw [load_mapped hm (Or.inr (Or.inr (Or.inr (Or.inr ⟨c, hs⟩)))), loadMapped, hs]
    exact .len hs hat hp hl
  | file c =>
    rw [hs] at hpc
    cases hp : l.group.file s.r.pageNum with
    | none =>
      rw [Reading.load, hs]
      dsimp only
      rw [hp]
      exact .missing hs hp
    | some p =>
      rw [load_file hp (Or.inl ⟨c, hs⟩), loadFile, hs]
      exact .file hs hpc hp
  | stat c =>
    rw [hs] at hpc
    obtain ⟨hfd, p, hp⟩ := hpc
    rw [load_file hp (Or.inr (Or.inl ⟨c, hs⟩)), loadFile, hs]
    dsimp only
    by_cases hsmall : p.fileSize < sizeofPageHead
    · rw [if_pos hsmall]
      exact .small hs hp hsmall
    · rw [if_neg hsmall]
      exact .stat hs hfd hp (Nat.not_lt.mp hsmall)
  | version c n =>
    rw [hs] at hpc
    obtain ⟨hfd, p, hp, hsize, hle⟩ := hpc
    rw [load_file hp (Or.inr (Or.inr (Or.inl ⟨c, n, hs⟩))), loadFile, hs]
    dsimp only
    by_cases hv : p.version = pageHeadVer1
    · rw [if_pos hv]
      exact .version hs hfd hp hsize hle hv
    · rw [if_neg hv]
      exact .raw hs hp hv
  | size c n =>
    rw [hs] at hpc
    obtain ⟨hfd, p, hp, hsize, hle, hv⟩ := hpc
    have hhead := (h.open_page hok hfd hp hv (Or.inl (Eq.refl Pc.idle))).1
    rw [load_file hp (Or.inr (Or.inr (Or.inr ⟨c, n, hs⟩))), loadFile, hs]
    dsimp only
    rw [if_pos (hhead.trans hsize)]
    exact .size hs hfd hp hv

variable {s' : Reading}

theorem At.step (h : s.At l k before) (hok : l.Ok bound) (hload : Loads l s k before s') :
    ∃ k' before', At l s' k' before' := by
  have hpc := h.pc
  cases hload with
  | status hs hm =>
    rw [hs] at hpc
    refine ⟨k, before, h.goes rfl rfl ⟨hpc, fun hst q hq => ?_⟩⟩
    rw [hm, Option.some.injEq] at hq
    rw [← hq]
    exact hst
  | frame hs hfd hm hlt =>
    have hcur : ∀ q, s.r.mapped l.group = some q → s.r.cursor < q.tail := by
      intro q hq
      rw [hm, Option.some.injEq] at hq
      rw [← hq]
      exact hlt
    refine ⟨k, before, h.goes rfl rfl ?_⟩
    dsimp only
    split
    · exact ⟨hfd, hcur⟩
    · exact ⟨hfd, hcur⟩
  | leave hs hat hp hlt hst => exact ⟨k + 1, [], h.leave _ hat hp hlt hst⟩
  | len hs hat hp hl => exact ⟨k, _, h.pass hat hp hl⟩
  | magic hs hc =>
    rw [hs] at hpc
    exact ⟨k, before, h.goes rfl rfl hpc⟩
  | file hs hfd hp => exact ⟨k, before, h.goes rfl rfl ⟨hfd, _, hp⟩⟩
  | stat hs hfd hp hle => exact ⟨k, before, h.goes rfl rfl ⟨hfd, _, hp, rfl, hle⟩⟩
  | version hs hfd hp hsize hle hv => exact ⟨k, before, h.goes rfl rfl ⟨hfd, _, hp, hsize, hle, hv⟩⟩
  | @size c n p hs hfd hp hv =>
    refine ⟨k, before, (h.open_page hok hfd hp hv ?_).2⟩
    split
    · exact Or.inl rfl
    · exact Or.inr ⟨c, rfl⟩
  | wait | look | missing | small | raw => exact ⟨k, before, h.goes rfl rfl trivial⟩

theorem Loads.looked (h : s.At l k before) (hload : Loads l s k before s') :
    s'.looked = s.looked ∨ ∃ f, l.fss.flatten[s.got.length]? = some f ∧
      l.Leads s.r.pageNum s.r.cursor f ∧
      s'.looked = s.looked ++ [(s.got.length, s.r.pageNum, s.r.cursor)] := by
  cases hload with
  | @look cur f hs hat hl =>
    refine Or.inr ⟨f, ?_, hl, rfl⟩
    rw [h.length_got, flatten_at hat.frames, List.append_assoc, List.append_assoc, ← List.append_assoc,
      List.getElem?_append_right (Nat.le_refl _), Nat.sub_self]
    rfl
  | _ => exact Or.inl rfl

theorem Follows.load (h : s.Follows l) (hok : l.Ok bound) : (s.load l.group).Follows l := by
  obtain ⟨k, before, hat⟩ := h.at_page
  by_cases hidle : s.pc = .idle
  · rw [Reading.load, hidle]
    exact h
  have hload := hat.loads hok hidle
  refine ⟨hat.step hok hload, fun x hx => ?_⟩
  obtain heq | ⟨f, hf, hl, heq⟩ := hload.looked hat
  · rw [heq] at hx
    exact h.looked x hx
  · rw [heq, List.mem_append, List.mem_singleton] at hx
    rcases hx with hx | rfl
    · exact h.looked x hx
    · exact ⟨f, hf, hl⟩

theorem Follows.ask (c : ReaderOp) (h : s.Follows l) : (s.ask c).Follows l := by
  obtain ⟨k, before, hat⟩ := h.at_page
  refine ⟨⟨k, before, hat.goes rfl rfl ?_⟩, h.looked⟩
  rw [Reading.ask, start]
  dsimp only
  split
  · assumption
  · exact Bool.eq_false_iff.mpr ‹_›

theorem Follows.alone (h : s.Follows l) (hok : l.Ok bound) : (s.alone l.group).Follows l := by
  rw [Reading.alone]
  split
  · exact h.ask .read
  · exact h.load hok

/-! ## A reader that is left alone -/

/-- How far a call is from its end. -/
def rank : Pc → Nat
  | .idle => 0
  | .skip | .len _ => 1
  | .magic _ => 2
  | .tail _ _ => 3
  | .status _ => 4
  | .size _ _ => 5
  | .version _ _ => 6
  | .stat _ => 7
  | .file _ => 8

/-- How many loads a call may still make. -/
def ahead (g : PageGroup) (s : Reading) : Nat :=
  9 * (g.first + g.pages.length - s.r.pageNum) + rank s.pc

theorem Loads.ahead_lt (hload : Loads l s k before s') : s'.ahead l.group < s.ahead l.group := by
  unfold Reading.ahead
  cases hload with
  | frame hs =>
    rw [hs]
    dsimp only
    split
    · simp only [rank]
      omega
    · simp only [rank]
      omega
  | leave hs hat hp =>
    have hk := (List.getElem?_eq_some_iff.mp hp).1
    have hnum := hat.pageNum
    rw [hs]
    simp only [rank]
    omega
  | size hs =>
    rw [hs]
    dsimp only
    split
    · simp only [rank]
      omega
    · simp only [rank]
      omega
  | status hs | wait hs | look hs | magic hs | len hs | missing hs | file hs | small hs | stat hs
  | raw hs | version hs =>
    rw [hs]
    simp only [rank]
    omega

/-- A `read` that has begun since the pages are left alone. -/
def Fresh (g : PageGroup) (s : Reading) : Prop :=
  match s.pc with
  | .idle | .skip => False
  | .status c | .magic c | .len c | .file c | .stat c | .version c _ | .size c _ => c = .read
  | .tail c st => c = .read ∧ ∀ p, s.r.mapped g = some p → p.status = st

theorem fresh_ask (g : PageGroup) (s : Reading) : (s.ask .read).Fresh g := by
  unfold Fresh Reading.ask start
  dsimp only
  split
  · rename_i hpc
    split at hpc
    · cases hpc
    · cases hpc
  all_goals
    rename_i hpc
    split at hpc
    · cases hpc <;> rfl
    · cases hpc <;> rfl

/-- Before the next page there is a frame left for who has not read all. -/
theorem At.page_left (h : s.At l k before) (hfd : s.r.fd = false)
    (hleft : s.got.length < l.fss.flatten.length) : k < l.fss.length := by
  by_contra hge
  obtain ⟨cur, hat⟩ | ⟨-, rfl⟩ := h.place
  · rw [hat.fd] at hfd
    cases hfd
  · have hlen := h.length_got
    rw [List.take_of_length_le (by omega), List.append_nil] at hlen
    omega

theorem At.bears_left {p : Page} (h : s.At l k before) (hok : l.Ok bound) (hfd : s.r.fd = false)
    (hleft : s.got.length < l.fss.flatten.length) (hp : l.group.file s.r.pageNum = some p) :
    ∃ fs, p.Bears fs := by
  obtain ⟨q, hq, hb⟩ := hok.carries.bears (List.getElem?_eq_getElem (h.page_left hfd hleft))
  rw [h.file] at hp
  obtain rfl : p = q := by rw [hp] at hq; simpa using hq
  exact ⟨_, hb⟩

/-- A `read` does not end before it has a frame, if there is one. -/
theorem Loads.fresh (h : s.At l k before) (hok : l.Ok bound) (hload : Loads l s k before s')
    (hf : s.Fresh l.group) (hleft : s.got.length < l.fss.flatten.length) :
    s'.Fresh l.group ∨ s'.got.length = s.got.length + 1 := by
  have hpc := h.pc
  unfold Fresh at hf ⊢
  cases hload with
  | status hs hm =>
    rw [hs] at hf
    refine Or.inl ⟨hf, fun q hq => ?_⟩
    rw [hm, Option.some.injEq] at hq
    rw [← hq]
  | frame hs =>
    rw [hs] at hf
    rw [hf.1]
    exact Or.inl rfl
  | leave hs =>
    rw [hs] at hf
    exact Or.inl hf.1
  | @wait c st cur p hs hat hp hm hlt hst =>
    -- the page goes on, and so is the last one
    rw [hs] at hf
    rw [← hf.2 p hm] at hst
    have hlast : l.fss.length ≤ k + 1 := by
      by_contra hgt
      have hle := hok.carries.le_length
      exact hst (hok.carries.finished hp (by omega))
    have hlen := h.length_got
    rw [flatten_at hat.frames, hat.nil_of_not_lt hp hlt, List.drop_eq_nil_of_le hlast,
      List.append_nil, List.flatten_nil, List.append_nil] at hleft
    omega
  | look hs =>
    rw [hs] at hf
    cases hf
  | magic hs =>
    rw [hs] at hf
    exact Or.inl hf
  | len => exact Or.inr List.length_append
  | missing hs hp =>
    rw [hs] at hpc
    obtain ⟨q, hq, -⟩ := hok.carries.bears (List.getElem?_eq_getElem (h.page_left hpc hleft))
    rw [h.file, hq] at hp
    cases hp
  | file hs =>
    rw [hs] at hf
    exact Or.inl hf
  | small hs hp hsmall =>
    rw [hs] at hpc
    obtain ⟨fs, hb⟩ := h.bears_left hok hpc.1 hleft hp
    exact absurd hb.fileSize_ge (Nat.not_le.mpr hsmall)
  | stat hs =>
    rw [hs] at hf
    exact Or.inl hf
  | raw hs hp hv =>
    rw [hs] at hpc
    obtain ⟨fs, hb⟩ := h.bears_left hok hpc.1 hleft hp
    exact absurd hb.version hv
  | version hs =>
    rw [hs] at hf
    exact Or.inl hf
  | size hs =>
    rw [hs] at hf
    rw [hf]
    exact Or.inl rfl

theorem Loads.got_le (hload : Loads l s k before s') : s.got.length ≤ s'.got.length := by
  cases hload with
  | len =>
    rw [List.length_append]
    exact Nat.le_add_right _ _
  | _ => exact Nat.le_refl _

theorem alone_idle {g : PageGroup} (h : s.pc = .idle) : s.alone g = s.ask .read := if_pos h

theorem alone_busy {g : PageGroup} (h : s.pc ≠ .idle) : s.alone g = s.load g := if_neg h

theorem Follows.alone_iterate (h : s.Follows l) (hok : l.Ok bound) (n : Nat) :
    ((Reading.alone l.group)^[n] s).Follows l := by
  induction n generalizing s with
  | zero => exact h
  | succ n ih => exact ih (h.alone hok)

/-- The call that is on ends. -/
theorem Follows.ends (h : s.Follows l) (hok : l.Ok bound) :
    ∃ n, ((Reading.alone l.group)^[n] s).pc = .idle ∧
      s.got.length ≤ ((Reading.alone l.group)^[n] s).got.length := by
  induction hn : s.ahead l.group using Nat.strong_induction_on generalizing s with
  | _ m ih =>
    by_cases hidle : s.pc = .idle
    · exact ⟨0, hidle, Nat.le_refl _⟩
    obtain ⟨k, before, hat⟩ := h.at_page
    have hload := hat.loads hok hidle
    obtain ⟨n, h1, h2⟩ := ih _ (hn ▸ hload.ahead_lt) (h.load hok) rfl
    refine ⟨n + 1, ?_⟩
    rw [Function.iterate_succ_apply, alone_busy hidle]
    exact ⟨h1, Nat.le_trans hload.got_le h2⟩

/-- A `read` gets the next frame, if there is one. -/
theorem Follows.gets (h : s.Follows l) (hok : l.Ok bound) (hf : s.Fresh l.group)
    (hleft : s.got.length < l.fss.flatten.length) :
    ∃ n, s.got.length < ((Reading.alone l.group)^[n] s).got.length := by
  induction hn : s.ahead l.group using Nat.strong_induction_on generalizing s with
  | _ m ih =>
    have hidle : s.pc ≠ .idle := by
      intro hidle
      rw [Fresh, hidle] at hf
      exact hf
    obtain ⟨k, before, hat⟩ := h.at_page
    have hload := hat.loads hok hidle
    obtain hf' | hgot := hload.fresh hat hok hf hleft
    · by_cases hmore : s.got.length < (s.load l.group).got.length
      · refine ⟨1, ?_⟩
        rw [Function.iterate_one, alone_busy hidle]
        exact hmore
      · have heq : (s.load l.group).got.length = s.got.length :=
          Nat.le_antisymm (Nat.not_lt.mp hmore) hload.got_le
        obtain ⟨n, hlt⟩ := ih _ (hn ▸ hload.ahead_lt) (h.load hok) hf' (by rw [heq]; exact hleft) rfl
        refine ⟨n + 1, ?_⟩
        rw [Function.iterate_succ_apply, alone_busy hidle, ← heq]
        exact hlt
    · refine ⟨1, ?_⟩
      rw [Function.iterate_one, alone_busy hidle, hgot]
      exact Nat.lt_succ_self _

theorem Follows.reads_more (h : s.Follows l) (hok : l.Ok bound)
    (hleft : s.got.length < l.fss.flatten.length) :
    ∃ n, s.got.length < ((Reading.alone l.group)^[n] s).got.length := by
  obtain ⟨n, hidle, hle⟩ := h.ends hok
  have hs := h.alone_iterate hok n
  rcases Nat.lt_or_eq_of_le hle with hlt | heq
  · exact ⟨n, hlt⟩
  · obtain ⟨m, hlt⟩ := (hs.ask .read).gets hok (fresh_ask _ _) (heq ▸ hleft)
    refine ⟨m + 1 + n, ?_⟩
    rw [Function.iterate_add_apply, Function.iterate_succ_apply, alone_idle hidle, heq]
    exact hlt

/-- What has been returned are frames of the pages, from the first on. -/
theorem Follows.got_first (h : s.Follows l) :
    ∃ fs, fs <+: l.fss.flatten ∧ List.Forall₂ (fun x f => l.Leads x.page x.off f ∧ x.len = f.data.length)
      s.got fs := by
  obtain ⟨k, before, hat⟩ := h.at_page
  refine ⟨_, ?_, hat.got⟩
  obtain ⟨cur, hplace⟩ | ⟨-, rfl⟩ := hat.place
  · rw [flatten_at hplace.frames]
    refine List.IsPrefix.trans ?_ (List.prefix_append _ _)
    rw [← List.append_assoc]
    exact List.prefix_append _ _
  · have hsplit := congrArg List.flatten (List.take_append_drop k l.fss)
    rw [List.flatten_append] at hsplit
    rw [List.append_nil, ← hsplit]
    exact List.prefix_append _ _

theorem Follows.length_le (h : s.Follows l) : s.got.length ≤ l.fss.flatten.length := by
  obtain ⟨fs, hfs, hgot⟩ := h.got_first
  rw [hgot.length_eq]
  exact hfs.length_le

/-- **A reader that is left alone with the pages returns all their frames.** -/
theorem Follows.reads_on (h : s.Follows l) (hok : l.Ok bound) :
    ∃ n, ((Reading.alone l.group)^[n] s).got.length = l.fss.flatten.length := by
  induction hn : l.fss.flatten.length - s.got.length using Nat.strong_induction_on generalizing s with
  | _ m ih =>
    rcases Nat.lt_or_eq_of_le h.length_le with hleft | heq
    · obtain ⟨n, hlt⟩ := h.reads_more hok hleft
      obtain ⟨m', hall⟩ := ih _ (by omega) (h.alone_iterate hok n) rfl
      refine ⟨m' + n, ?_⟩
      rw [Function.iterate_add_apply]
      exact hall
    · exact ⟨0, heq⟩

/-- What is found behind the pointers. -/
theorem frames_of_leads {xs : List FramePtr} {fs : List Frame}
    (h : List.Forall₂ (fun x f => l.Leads x.page x.off f ∧ x.len = f.data.length) xs fs) :
    xs.map l.group.frame = fs.map some := by
  induction h with
  | nil => rfl
  | @cons x f xs fs hx _ ih =>
    have hframe := hx.1.frame
    rw [← hx.2] at hframe
    rw [List.map_cons, List.map_cons, ih, hframe]

theorem Follows.frames (h : s.Follows l) :
    s.got.map l.group.frame <+: l.fss.flatten.map some := by
  obtain ⟨fs, ⟨more, hmore⟩, hgot⟩ := h.got_first
  rw [frames_of_leads hgot]
  exact ⟨more.map some, by rw [← List.map_append, hmore]⟩

theorem Follows.frames_all (h : s.Follows l) (hlen : s.got.length = l.fss.flatten.length) :
    s.got.map l.group.frame = l.fss.flatten.map some :=
  h.frames.eq_of_length (by rw [List.length_map, List.length_map, hlen])

end Reading

end NatFramework.Io
