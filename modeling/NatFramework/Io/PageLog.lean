import NatFramework.Io.Stores
import NatFramework.Lib.Along

/-!
# Pages between two stores

What can be met in the pages while a writer stores. A page has its head, is
filled frame by frame and finished; only then the next file is created, and its
version is stored last. What is stored to a frame lies behind the tail until the
tail is.

* `Log`: the pages with the frames they bear and the frame on its way.
* `Open`, `Closed`, `Raw`: how far the last page is.
* `Log.Grows`: what a reader has seen stays.
* `Open.tail`, `Open.finish`, `Closed.create`, `Raw.version_store`: the stores that make a
  frame, the end of a page and a new page.
-/
namespace NatFramework.Io

open Lib

/-! ## What stays -/

theorem Stands.congr {m m' : Mem} {off : Nat} {f : Frame} (h : Stands m off f)
    (hm : ∀ a, off ≤ a → a < off + f.extent → m' a = m a) : Stands m' off f := by
  have hslice : ∀ {o n}, off ≤ o → o + n ≤ off + f.extent → slice m' o n = slice m o n :=
    fun h1 h2 => slice_congr fun k hk => hm _ (by omega) (by omega)
  have hext : f.extent = sizeofFrameHead + f.data.length := rfl
  simp only [sizeofFrameHead] at hext
  refine ⟨?_, ?_, ?_, ?_⟩
  · rw [frameMagic, hslice (Nat.le_refl _) (by omega)]
    exact h.magic
  · rw [frameLen, hslice (by omega) (by omega)]
    exact h.len
  · rw [frameNano, hslice (by omega) (by omega)]
    exact h.nano
  · rw [hslice (Nat.le_add_right _ _) (by simp only [sizeofFrameHead]; omega)]
    exact h.data

theorem Laid.congr {m m' : Mem} {off tail : Nat} {fs : List Frame} (h : Laid m off fs tail)
    (hm : ∀ a < tail, m' a = m a) : Laid m' off fs tail := by
  induction fs generalizing off with
  | nil => exact h
  | cons f fs ih =>
    have hle := h.2.le
    exact ⟨h.1.congr fun a _ ha => hm a (by omega), ih h.2⟩

/-- What a reader has seen of a page that bears `fs`. -/
structure Page.Grows (fs fs' : List Frame) (p p' : Page) : Prop where
  frames : fs <+: fs'
  tail_le : p.tail ≤ p'.tail
  kept : ∀ a < p.tail, p'.mem a = p.mem a
  finished : p.status = pageStatusFinish → p'.status = pageStatusFinish ∧ p'.tail = p.tail ∧ fs' = fs

theorem Page.Grows.refl (fs : List Frame) (p : Page) : p.Grows fs fs p :=
  ⟨List.prefix_refl _, Nat.le_refl _, fun _ _ => rfl, fun h => ⟨h, rfl, rfl⟩⟩

theorem Page.Grows.trans {fs fs' fs'' : List Frame} {p p' p'' : Page} (h : Page.Grows fs fs' p p')
    (h' : Page.Grows fs' fs'' p' p'') : Page.Grows fs fs'' p p'' where
  frames := h.frames.trans h'.frames
  tail_le := Nat.le_trans h.tail_le h'.tail_le
  kept := fun a ha => (h'.kept a (Nat.lt_of_lt_of_le ha h.tail_le)).trans (h.kept a ha)
  finished := by
    intro hs
    obtain ⟨h1, h2, h3⟩ := h.finished hs
    obtain ⟨h4, h5, h6⟩ := h'.finished h1
    exact ⟨h4, h5.trans h2, h6.trans h3⟩

/-- `next` is the frame that is on its way. -/
structure Log where
  group : PageGroup
  fss : List (List Frame)
  next : Option Frame

namespace Log

/-- With the tail the frame on its way has come, with the version a page. -/
def exec (l : Log) (e : Nat × Store) : Log where
  group := l.group.exec e
  fss :=
    match e.2 with
    | .version _ => l.fss ++ [[]]
    | .tail _ => l.fss.modify (l.fss.length - 1) (· ++ l.next.toList)
    | _ => l.fss
  next :=
    match e.2 with
    | .tail _ => none
    | _ => l.next

/-- No file is larger than `bound`, and the first one made has number 0. -/
structure Ok (bound : Nat) (l : Log) : Prop where
  carries : l.group.Carries l.fss
  sizes : ∀ p ∈ l.group.pages, p.fileSize ≤ bound
  first : l.group.pages = [] → l.group.first = 0

structure Grows (l l' : Log) : Prop where
  first : l'.group.first = l.group.first
  page : ∀ {k : Nat} {p}, l.group.pages[k]? = some p →
    ∃ p', l'.group.pages[k]? = some p' ∧ (sizeofPageHead ≤ p.fileSize → p'.fileSize = p.fileSize)
  frames : ∀ {k : Nat} {fs p}, l.fss[k]? = some fs → l.group.pages[k]? = some p →
    ∃ fs' p', l'.fss[k]? = some fs' ∧ l'.group.pages[k]? = some p' ∧ Page.Grows fs fs' p p'
  sent : l'.fss.flatten ++ l'.next.toList = l.fss.flatten ++ l.next.toList

theorem Grows.refl (l : Log) : l.Grows l where
  first := rfl
  page := fun h => ⟨_, h, fun _ => rfl⟩
  frames := fun hf hp => ⟨_, _, hf, hp, Page.Grows.refl _ _⟩
  sent := rfl

theorem Grows.trans {l l' l'' : Log} (h : l.Grows l') (h' : l'.Grows l'') : l.Grows l'' where
  first := h'.first.trans h.first
  page := by
    intro k p hp
    obtain ⟨p', hp', hs⟩ := h.page hp
    obtain ⟨p'', hp'', hs'⟩ := h'.page hp'
    refine ⟨p'', hp'', fun hle => ?_⟩
    have heq := hs hle
    rw [hs' (by omega), heq]
  frames := by
    intro k fs p hf hp
    obtain ⟨fs', p', hf', hp', hg⟩ := h.frames hf hp
    obtain ⟨fs'', p'', hf'', hp'', hg'⟩ := h'.frames hf' hp'
    exact ⟨fs'', p'', hf'', hp'', hg.trans hg'⟩
  sent := h'.sent.trans h.sent

/-- Pages that differ from some place on only. -/
theorem Grows.of_front {l l' : Log} {ps t t' : List Page} {fss₀ u u' : List (List Frame)}
    (hfirst : l'.group.first = l.group.first) (hp : l.group.pages = ps ++ t)
    (hp' : l'.group.pages = ps ++ t') (hf : l.fss = fss₀ ++ u) (hf' : l'.fss = fss₀ ++ u')
    (hlen : fss₀.length = ps.length)
    (hpage : ∀ (k : Nat) (p : Page), t[k]? = some p →
      ∃ p', t'[k]? = some p' ∧ (sizeofPageHead ≤ p.fileSize → p'.fileSize = p.fileSize))
    (hframes : ∀ (k : Nat) (fs : List Frame) (p : Page), u[k]? = some fs → t[k]? = some p →
      ∃ fs' p', u'[k]? = some fs' ∧ t'[k]? = some p' ∧ Page.Grows fs fs' p p')
    (hsent : l'.fss.flatten ++ l'.next.toList = l.fss.flatten ++ l.next.toList) : l.Grows l' where
  first := hfirst
  page := by
    intro k p h
    rw [hp] at h
    rw [hp']
    rcases Nat.lt_or_ge k ps.length with hk | hk
    · rw [List.getElem?_append_left hk] at h ⊢
      exact ⟨p, h, fun _ => rfl⟩
    · rw [List.getElem?_append_right hk] at h ⊢
      exact hpage _ p h
  frames := by
    intro k fs p h1 h2
    rw [hf] at h1
    rw [hp] at h2
    rw [hf', hp']
    rcases Nat.lt_or_ge k ps.length with hk | hk
    · have hk' : k < fss₀.length := by omega
      rw [List.getElem?_append_left hk'] at h1 ⊢
      rw [List.getElem?_append_left hk] at h2 ⊢
      exact ⟨fs, p, h1, h2, Page.Grows.refl fs p⟩
    · have hk' : fss₀.length ≤ k := by omega
      rw [List.getElem?_append_right hk'] at h1 ⊢
      rw [List.getElem?_append_right hk] at h2 ⊢
      rw [hlen] at h1 ⊢
      exact hframes _ fs p h1 h2
  sent := hsent

end Log

/-! ## How far the last page is -/

/-- Pages that are finished. -/
def Front (ps : List Page) (fss : List (List Frame)) : Prop :=
  List.Forall₂ (fun p fs => Page.Bears fs p ∧ p.status = pageStatusFinish) ps fss

namespace Log

/-- The last page has its head. -/
structure Open (bound : Nat) (l : Log) (ps : List Page) (p : Page) (fss₀ : List (List Frame))
    (fs : List Frame) : Prop where
  pages : l.group.pages = ps ++ [p]
  fss : l.fss = fss₀ ++ [fs]
  front : Front ps fss₀
  bears : p.Bears fs
  sizes : ∀ q ∈ ps ++ [p], q.fileSize ≤ bound

/-- All pages are finished. -/
structure Closed (bound : Nat) (l : Log) : Prop where
  front : Front l.group.pages l.fss
  sizes : ∀ q ∈ l.group.pages, q.fileSize ≤ bound
  first : l.group.pages = [] → l.group.first = 0

/-- The last file has no head yet. -/
structure Raw (bound : Nat) (l : Log) (ps : List Page) (p : Page) : Prop where
  pages : l.group.pages = ps ++ [p]
  front : Front ps l.fss
  version : p.version ≠ pageHeadVer1
  sizes : ∀ q ∈ ps ++ [p], q.fileSize ≤ bound

variable {bound : Nat} {l l' : Log} {ps : List Page} {p p' : Page} {fss₀ : List (List Frame)}
  {fs : List Frame}

theorem front_get {ps : List Page} {fss : List (List Frame)} (h : Front ps fss) {k : Nat} {p : Page}
    (hp : ps[k]? = some p) : ∃ fs, fss[k]? = some fs ∧ p.Bears fs ∧ p.status = pageStatusFinish := by
  obtain ⟨hk, rfl⟩ := List.getElem?_eq_some_iff.mp hp
  have hk' : k < fss.length := by rw [← h.length_eq]; exact hk
  exact ⟨fss[k], List.getElem?_eq_getElem hk', h.get hk hk'⟩

theorem front_bears {ps : List Page} {fss : List (List Frame)} (h : Front ps fss) {k : Nat}
    {fs : List Frame} (hf : fss[k]? = some fs) : ∃ p, ps[k]? = some p ∧ p.Bears fs := by
  obtain ⟨hk, rfl⟩ := List.getElem?_eq_some_iff.mp hf
  have hk' : k < ps.length := by rw [h.length_eq]; exact hk
  exact ⟨ps[k], List.getElem?_eq_getElem hk', (h.get hk' hk).1⟩

theorem Open.ok (h : Open bound l ps p fss₀ fs) : l.Ok bound where
  carries := by
    have hlen := h.front.length_eq
    refine ⟨?_, ?_, ?_, ?_⟩
    · intro k gs hgs
      rw [h.fss] at hgs
      rw [h.pages]
      rcases Nat.lt_or_ge k ps.length with hk | hk
      · rw [List.getElem?_append_left (by omega)] at hgs
        rw [List.getElem?_append_left hk]
        exact front_bears h.front hgs
      · rw [List.getElem?_append_right (by omega), List.getElem?_singleton] at hgs
        rw [List.getElem?_append_right hk, List.getElem?_singleton, hlen]
        split at hgs
        · rename_i h0
          rw [if_pos h0]
          cases hgs
          exact ⟨p, rfl, h.bears⟩
        · cases hgs
    · intro k q hq hk
      have hlt := (List.getElem?_eq_some_iff.mp hq).1
      rw [h.pages, List.length_append, List.length_singleton] at hlt
      rw [h.fss, List.length_append, List.length_singleton] at hk
      omega
    · rw [h.pages, h.fss, List.length_append, List.length_append, hlen]
      exact Nat.le_succ _
    · intro k q hq hk
      rw [h.pages, List.length_append, List.length_singleton] at hk
      rw [h.pages, List.getElem?_append_left (by omega)] at hq
      obtain ⟨-, -, -, hs⟩ := front_get h.front hq
      exact hs
  sizes := by rw [h.pages]; exact h.sizes
  first := fun hnil => by rw [h.pages] at hnil; simp at hnil

theorem Closed.ok (h : Closed bound l) : l.Ok bound where
  carries := by
    refine ⟨fun hf => front_bears h.front hf, ?_, by rw [h.front.length_eq]; exact Nat.le_succ _, ?_⟩
    · intro k q hq hk
      have hlt := (List.getElem?_eq_some_iff.mp hq).1
      rw [h.front.length_eq] at hlt
      omega
    · intro k q hq _
      obtain ⟨-, -, -, hs⟩ := front_get h.front hq
      exact hs
  sizes := h.sizes
  first := h.first

theorem Raw.ok (h : Raw bound l ps p) : l.Ok bound where
  carries := by
    have hlen := h.front.length_eq
    refine ⟨?_, ?_, ?_, ?_⟩
    · intro k gs hgs
      have hk := (List.getElem?_eq_some_iff.mp hgs).1
      rw [h.pages, List.getElem?_append_left (by omega)]
      exact front_bears h.front hgs
    · intro k q hq hk
      rw [h.pages, List.getElem?_append_right (by omega), List.getElem?_singleton] at hq
      split at hq
      · cases hq
        exact h.version
      · cases hq
    · rw [h.pages, List.length_append, hlen]
      exact Nat.le_refl _
    · intro k q hq hk
      rw [h.pages, List.length_append, List.length_singleton] at hk
      rw [h.pages, List.getElem?_append_left (by omega)] at hq
      obtain ⟨-, -, -, hs⟩ := front_get h.front hq
      exact hs
  sizes := by rw [h.pages]; exact h.sizes
  first := fun hnil => by rw [h.pages] at hnil; simp at hnil

/-! ## One store -/

theorem exec_group (hp : l.group.pages = ps ++ [p]) {e : Store} (he : e ≠ .create) :
    (l.exec (l.group.first + ps.length, e)).group.first = l.group.first ∧
      (l.exec (l.group.first + ps.length, e)).group.pages = ps ++ [p.exec e] := by
  rw [exec, PageGroup.exec]
  dsimp only
  rw [if_neg he, Nat.add_sub_cancel_left, hp, CRawIOWriter.modify_last]
  exact ⟨rfl, rfl⟩

/-- Pages that differ in the last one only. -/
theorem Grows.of_last {fss' : List (List Frame)} {u u' : List (List Frame)}
    (hfirst : l'.group.first = l.group.first) (hp : l.group.pages = ps ++ [p])
    (hp' : l'.group.pages = ps ++ [p']) (hf : l.fss = fss' ++ u) (hf' : l'.fss = fss' ++ u')
    (hlen : fss'.length = ps.length)
    (hsize : sizeofPageHead ≤ p.fileSize → p'.fileSize = p.fileSize)
    (hu : ∀ fs, u[0]? = some fs → ∃ fs', u'[0]? = some fs' ∧ Page.Grows fs fs' p p')
    (hsent : l'.fss.flatten ++ l'.next.toList = l.fss.flatten ++ l.next.toList) : l.Grows l' := by
  refine Grows.of_front hfirst hp hp' hf hf' hlen (fun k q hq => ?_) (fun k gs q hgs hq => ?_) hsent
  · rw [List.getElem?_singleton] at hq ⊢
    split at hq
    · rename_i h0
      rw [if_pos h0]
      cases hq
      exact ⟨p', rfl, hsize⟩
    · cases hq
  · rw [List.getElem?_singleton] at hq ⊢
    split at hq
    · rename_i h0
      rw [if_pos h0]
      cases hq
      subst h0
      obtain ⟨fs', h1, h2⟩ := hu gs hgs
      exact ⟨fs', p', h1, rfl, h2⟩
    · cases hq

end Log

/-- A store behind the tail, or to what no reader looks at. -/
def Store.inert : Store → Bool
  | .stopNano _ | .byte _ _ | .len _ | .magic _ | .nano _ | .lastNano _ => true
  | _ => false

/-- A store to the head of a page that is not valid before its version. -/
def Store.toHead : Store → Bool
  | .status _ | .size _ | .pageTail _ | .startNano _ | .stopNano _ | .reserved _ => true
  | _ => false

theorem Page.exec_inert {e : Store} (he : e.inert = true) (p : Page) :
    (p.exec e).tail = p.tail ∧ (p.exec e).status = p.status ∧ (p.exec e).fileSize = p.fileSize ∧
      (p.exec e).checkPageHead = p.checkPageHead ∧ ∀ a < p.tail, (p.exec e).mem a = p.mem a := by
  cases e with
  | stopNano n => exact ⟨rfl, rfl, rfl, rfl, fun _ _ => rfl⟩
  | byte k b => exact ⟨rfl, rfl, rfl, rfl, fun _ ha => blit_outside (Or.inl (by omega))⟩
  | len n => exact ⟨rfl, rfl, rfl, rfl, fun _ ha => blit_outside (Or.inl (by omega))⟩
  | magic n => exact ⟨rfl, rfl, rfl, rfl, fun _ ha => blit_outside (Or.inl ha)⟩
  | nano n => exact ⟨rfl, rfl, rfl, rfl, fun _ ha => blit_outside (Or.inl (by omega))⟩
  | lastNano n => exact ⟨rfl, rfl, rfl, rfl, fun _ _ => rfl⟩
  | _ => cases he

theorem Page.exec_toHead {e : Store} (he : e.toHead = true) (p : Page) :
    (p.exec e).fileSize = p.fileSize ∧ (p.exec e).version = p.version := by
  cases e with
  | status | size | pageTail | startNano | stopNano | reserved => exact ⟨rfl, rfl⟩
  | _ => cases he

/-- Only the tail and the version are told to `Log`. -/
theorem Log.exec_ghost (l : Log) (num : Nat) {e : Store} (he : e.inert = true ∨ e.toHead = true) :
    (l.exec (num, e)).fss = l.fss ∧ (l.exec (num, e)).next = l.next := by
  cases e with
  | tail | version | create | truncate => simp [Store.inert, Store.toHead] at he
  | _ => exact ⟨rfl, rfl⟩

theorem Store.ne_create {e : Store} (he : e.inert = true ∨ e.toHead = true) : e ≠ .create := by
  rintro rfl
  simp [Store.inert, Store.toHead] at he

namespace Log

variable {bound : Nat} {l l' : Log} {ps : List Page} {p p' : Page} {fss₀ : List (List Frame)}
  {fs : List Frame} {e : Store} {es : List Store}

theorem sizes_last (h : ∀ q ∈ ps ++ [p], q.fileSize ≤ bound) (h' : p'.fileSize ≤ bound) :
    ∀ q ∈ ps ++ [p'], q.fileSize ≤ bound := by
  intro q hq
  rw [List.mem_append, List.mem_singleton] at hq
  rcases hq with hq | rfl
  · exact h q (List.mem_append_left _ hq)
  · exact h'

theorem Open.size_le (h : Open bound l ps p fss₀ fs) : p.fileSize ≤ bound :=
  h.sizes p (List.mem_append_right _ (List.mem_singleton_self p))

theorem Open.inert (h : Open bound l ps p fss₀ fs) (he : e.inert = true) :
    l.Grows (l.exec (l.group.first + ps.length, e)) ∧
      Open bound (l.exec (l.group.first + ps.length, e)) ps (p.exec e) fss₀ fs := by
  obtain ⟨htail, hstatus, hsize, hhead, hmem⟩ := Page.exec_inert he p
  obtain ⟨hfss, hnext⟩ := exec_ghost l (l.group.first + ps.length) (Or.inl he)
  have hg := exec_group h.pages (Store.ne_create (Or.inl he))
  have hbears : (p.exec e).Bears fs :=
    ⟨by rw [hhead]; exact h.bears.head, by rw [htail]; exact h.bears.laid.congr hmem,
      by rw [htail, hsize]; exact h.bears.tail_le⟩
  refine ⟨Grows.of_last hg.1 h.pages hg.2 h.fss (hfss.trans h.fss)
    h.front.length_eq.symm (fun _ => hsize) ?_ (by rw [hfss, hnext]), ?_⟩
  · intro gs hgs
    refine ⟨gs, hgs, List.prefix_refl _, Nat.le_of_eq htail.symm, hmem, fun hs => ?_⟩
    exact ⟨hstatus.trans hs, htail, rfl⟩
  · exact ⟨hg.2, hfss.trans h.fss, h.front, hbears, sizes_last h.sizes (by rw [hsize]; exact h.size_le)⟩

/-- The tail makes the frame that stands there one of the page. -/
theorem Open.tail {f : Frame} (h : Open bound l ps p fss₀ fs) (hs : p.status ≠ pageStatusFinish)
    (hnext : l.next = some f) (hf : Stands p.mem p.tail f) (hroom : p.tail + f.extent ≤ p.fileSize) :
    l.Grows (l.exec (l.group.first + ps.length, .tail (p.tail + f.extent))) ∧
      Open bound (l.exec (l.group.first + ps.length, .tail (p.tail + f.extent))) ps
        (p.exec (.tail (p.tail + f.extent))) fss₀ (fs ++ [f]) := by
  have hg := exec_group h.pages (e := .tail (p.tail + f.extent)) nofun
  have hfss : (l.exec (l.group.first + ps.length, .tail (p.tail + f.extent))).fss = fss₀ ++ [fs ++ [f]] := by
    rw [exec]
    dsimp only
    rw [h.fss, hnext, List.length_append, List.length_singleton, Nat.add_sub_cancel]
    exact CRawIOWriter.modify_last _
  have hbears : (p.exec (.tail (p.tail + f.extent))).Bears (fs ++ [f]) :=
    ⟨h.bears.head, laid_append.mpr ⟨p.tail, h.bears.laid, hf, rfl⟩, hroom⟩
  refine ⟨Grows.of_last hg.1 h.pages hg.2 h.fss hfss h.front.length_eq.symm
    (fun _ => rfl) ?_ ?_, ⟨hg.2, hfss, h.front, hbears, sizes_last h.sizes h.size_le⟩⟩
  · intro gs hgs
    cases hgs
    refine ⟨fs ++ [f], rfl, List.prefix_append _ _, Nat.le_add_right _ _, fun _ _ => rfl, ?_⟩
    exact fun h => absurd h hs
  · rw [hfss, h.fss, hnext, exec]
    simp

/-- The last store of a page. -/
theorem Open.finish (h : Open bound l ps p fss₀ fs) :
    l.Grows (l.exec (l.group.first + ps.length, .status pageStatusFinish)) ∧
      Closed bound (l.exec (l.group.first + ps.length, .status pageStatusFinish)) ∧
      (l.exec (l.group.first + ps.length, .status pageStatusFinish)).group.pages =
        ps ++ [p.exec (.status pageStatusFinish)] := by
  have hg := exec_group h.pages (e := .status pageStatusFinish) nofun
  have hbears : (p.exec (.status pageStatusFinish)).Bears fs := ⟨h.bears.head, h.bears.laid, h.bears.tail_le⟩
  refine ⟨Grows.of_last hg.1 h.pages hg.2 h.fss h.fss h.front.length_eq.symm
    (fun _ => rfl) ?_ rfl, ⟨?_, ?_, ?_⟩, hg.2⟩
  · intro gs hgs
    exact ⟨gs, hgs, List.prefix_refl _, Nat.le_refl _, fun _ _ => rfl, fun _ => ⟨rfl, rfl, rfl⟩⟩
  · have hfss : (l.exec (l.group.first + ps.length, .status pageStatusFinish)).fss = fss₀ ++ [fs] := h.fss
    rw [hg.2, hfss]
    exact List.rel_append h.front (.cons ⟨hbears, rfl⟩ .nil)
  · rw [hg.2]
    exact sizes_last h.sizes h.size_le
  · intro hnil
    rw [hg.2] at hnil
    simp at hnil

/-- A new file. -/
theorem Closed.create (h : Closed bound l) :
    l.Grows (l.exec (l.group.first + l.group.pages.length, .create)) ∧
      Raw bound (l.exec (l.group.first + l.group.pages.length, .create)) l.group.pages { fileSize := 0 } := by
  have hg : (l.exec (l.group.first + l.group.pages.length, .create)).group =
      { l.group with pages := l.group.pages ++ [{ fileSize := 0 }] } := by
    have hfile : l.group.file (l.group.first + l.group.pages.length) = none := by
      rw [PageGroup.file_add]
      exact List.getElem?_eq_none (Nat.le_refl _)
    rw [exec, PageGroup.exec]
    dsimp only
    rw [if_pos rfl, PageGroup.create, hfile]
    dsimp only [Option.isSome_none]
    rw [if_neg (by decide)]
    split
    · rename_i hnil
      rw [hnil]
      rfl
    · rfl
  refine ⟨Grows.of_front (by rw [hg]) (List.append_nil _).symm (by rw [hg])
    (List.append_nil _).symm (List.append_nil _).symm h.front.length_eq.symm ?_ ?_ rfl, ?_⟩
  · intro k q hq
    rw [List.getElem?_nil] at hq
    cases hq
  · intro k gs q hgs
    rw [List.getElem?_nil] at hgs
    cases hgs
  · refine ⟨by rw [hg], h.front, by decide, fun q hq => ?_⟩
    rcases List.mem_append.mp hq with hq | hq
    · exact h.sizes q hq
    · rw [List.mem_singleton.mp hq]
      exact Nat.zero_le _

/-- A store that leaves the page without its version. -/
theorem Raw.step (h : Raw bound l ps p) (he : e ≠ .create)
    (hghost : (l.exec (l.group.first + ps.length, e)).fss = l.fss ∧
      (l.exec (l.group.first + ps.length, e)).next = l.next)
    (hversion : (p.exec e).version = p.version)
    (hsize : sizeofPageHead ≤ p.fileSize → (p.exec e).fileSize = p.fileSize)
    (hbound : (p.exec e).fileSize ≤ bound) :
    l.Grows (l.exec (l.group.first + ps.length, e)) ∧
      Raw bound (l.exec (l.group.first + ps.length, e)) ps (p.exec e) := by
  have hg := exec_group h.pages he
  refine ⟨Grows.of_last hg.1 h.pages hg.2 (List.append_nil _).symm
    (hghost.1.trans (List.append_nil _).symm) h.front.length_eq.symm hsize ?_ (by rw [hghost.1, hghost.2]),
    hg.2, by rw [hghost.1]; exact h.front, by rw [hversion]; exact h.version,
    sizes_last h.sizes hbound⟩
  intro gs hgs
  cases hgs

/-- With its version a page has its head. -/
theorem Raw.version_store (h : Raw bound l ps p)
    (hbears : (p.exec (.version pageHeadVer1)).Bears []) :
    l.Grows (l.exec (l.group.first + ps.length, .version pageHeadVer1)) ∧
      Open bound (l.exec (l.group.first + ps.length, .version pageHeadVer1)) ps
        (p.exec (.version pageHeadVer1)) l.fss [] := by
  have hg := exec_group h.pages (e := .version pageHeadVer1) nofun
  refine ⟨Grows.of_last hg.1 h.pages hg.2 (List.append_nil _).symm rfl
    h.front.length_eq.symm (fun _ => rfl) ?_ ?_, hg.2, rfl, h.front, hbears,
    sizes_last h.sizes (h.sizes p (List.mem_append_right _ (List.mem_singleton_self p)))⟩
  · intro gs hgs
    cases hgs
  · rw [exec]
    simp

end Log

end NatFramework.Io
