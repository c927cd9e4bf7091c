import Mathlib.Logic.Function.Basic
import NatFramework.Io.CallStores
import NatFramework.Io.Follows
import NatFramework.Lib.Run

/-!
# Writers and a reader

Processes that each have opened the same group of pages, and a reader of it. The
calls of the processes follow each other, under the lock of
`CGlobalSafeRawIOWriter` or because there is one process only; between two stores of
a call the reader loads what it likes, and the process may die.

* `World`, `World.next`: the pages, what each party has in hand, and the steps.
* `Inv`: what holds at any moment, where the calls go well. `Inv.next`: a step keeps it.
* `Inv.delivers`: then the reader gets the frames, all of them and in order.
-/
namespace NatFramework.Io

open Lib

/-- `stores` are those that the call of `holder` has yet to make, `pending` is its frame
as long as the tail has not been stored. `accepted` are the frames of the calls that
say true, or are a `commit`, each with its process; `sent` those whose tails have
been stored. -/
structure World where
  group : PageGroup := { first := 0, pages := [] }
  writers : Nat → CRawIOWriter
  holder : Nat := 0
  stores : List (Nat × Store) := []
  pending : Option Frame := none
  accepted : List (Nat × Frame) := []
  sent : List (Nat × Frame) := []
  reading : Reading := {}

/-- `now` are the readings of the clock in a call. -/
inductive Turn where
  | init (i nano : Nat)
  | call (i : Nat) (op : WriterOp) (now : Nat → Nat)
  | store
  | die (i : Nat)
  | ask (c : ReaderOp)
  | load

/-- With the tail the frame is there. -/
def Store.ends : Store → Bool
  | .tail _ => true
  | _ => false

/-- What is stored to a frame is no longer than it. -/
def WriterOp.Proper : WriterOp → Prop
  | write data => data.length < 2 ^ 32
  | commit data => data.length < 2 ^ 32
  | discard len data => len < 2 ^ 32 ∧ data.length ≤ len

instance properDecidable : (op : WriterOp) → Decidable op.Proper
  | .write data => inferInstanceAs (Decidable (data.length < 2 ^ 32))
  | .commit data => inferInstanceAs (Decidable (data.length < 2 ^ 32))
  | .discard len data => inferInstanceAs (Decidable (len < 2 ^ 32 ∧ data.length ≤ len))

namespace World

/-- A process as it finds the pages. -/
def view (s : World) (i : Nat) : CRawIOWriter := { s.writers i with group := s.group }

/-- Files can be opened, locked and mapped. A call works out its stores at its start:
nobody else stores while it runs. -/
def next (s : World) : Turn → World
  | .init i nano =>
    { s with
      writers := Function.update s.writers i ((s.view i).init true nano).1
      holder := i
      stores := (s.view i).initStores nano }
  | .call i op now =>
    let res := op.apply now (s.view i)
    { s with
      writers := Function.update s.writers i res.1
      holder := i
      stores := op.stores now (s.view i)
      pending := res.2
      accepted := s.accepted ++ res.2.toList.map (i, ·) }
  | .store =>
    match s.stores with
    | [] => s
    | e :: es =>
      { s with
        group := s.group.exec e
        stores := es
        pending := if e.2.ends then none else s.pending
        sent := if e.2.ends then s.sent ++ s.pending.toList.map (s.holder, ·) else s.sent }
  | .die i =>
    let writers := Function.update s.writers i (s.writers i).unload
    if s.holder = i then { s with writers := writers, stores := [], pending := none, accepted := s.sent }
    else { s with writers := writers }
  | .ask c => { s with reading := s.reading.ask c }
  | .load => { s with reading := s.reading.load s.group }

/-- A process calls when no call is on, and when `init` has opened a page for it. -/
def Able (s : World) : Turn → Prop
  | .init _ _ => s.stores = []
  | .call i op _ => s.stores = [] ∧ (s.writers i).fd = true ∧ op.Proper
  | .store => s.stores ≠ []
  | .die _ => True
  | .ask _ => s.reading.pc = .idle
  | .load => s.reading.pc ≠ .idle

instance ableDecidable (s : World) : (e : Turn) → Decidable (s.Able e)
  | .init _ _ => inferInstanceAs (Decidable (s.stores = []))
  | .call i op _ => inferInstanceAs (Decidable (s.stores = [] ∧ (s.writers i).fd = true ∧ op.Proper))
  | .store => inferInstanceAs (Decidable (s.stores ≠ []))
  | .die _ => isTrue trivial
  | .ask _ => inferInstanceAs (Decidable (s.reading.pc = .idle))
  | .load => inferInstanceAs (Decidable (s.reading.pc ≠ .idle))

/-- Nobody has opened a page, and there is none. A size has 32 bits. -/
def Start (s : World) : Prop :=
  ∃ sizes : Nat → Nat, (∀ i, sizes i < 2 ^ 32) ∧
    s = { writers := fun i => { group := { first := 0, pages := [] }, pageSize := sizes i } }

/-- The runs whose turns are also `allowed`. -/
def sys (allowed : World → Turn → Prop) : Sys World Turn where
  start := Start
  ok s e := s.Able e ∧ allowed s e
  next := next

/-! ## What is asked of the steps -/

/-- New pages have room for the head of a frame, and no sum of 32 bits wraps. -/
def Fits (s : World) : Turn → Prop
  | .init i _ => sizeofPageHead + sizeofFrameHead ≤ (s.writers i).pageSize
  | .call i op _ => ∀ p, (s.view i).mapped = some p → op.NoWrap p (s.view i)
  | _ => True

instance fitsDecidable (s : World) : (e : Turn) → Decidable (s.Fits e)
  | .init i _ => inferInstanceAs (Decidable (sizeofPageHead + sizeofFrameHead ≤ (s.writers i).pageSize))
  | .call i op _ =>
    inferInstanceAs (Decidable (∀ p ∈ (s.view i).mapped, op.NoWrap p (s.view i)))
  | .store | .die _ | .ask _ | .load => isTrue trivial

/-- Who calls has mapped the last page. -/
def UpToDate (s : World) : Turn → Prop
  | .call i _ _ => (s.writers i).pageNum = s.group.getTailNum
  | _ => True

/-- Every file has the version in its head. -/
def Headed (s : World) : Prop := ∀ p ∈ s.group.pages, p.version = pageHeadVer1

/-- Nobody dies before a new file has its version. -/
def DiesHeaded (s : World) : Turn → Prop
  | .die _ => s.Headed
  | _ => True

end World

/-! ## The invariant -/

/-- Sizes have 32 bits. -/
def maxSize : Nat := 2 ^ 32 - 1

/-- A writer has mapped some page of the group. -/
def CRawIOWriter.Maps (g : PageGroup) (w : CRawIOWriter) : Prop :=
  ∃ k p, w.pageNum = (g.first + k : Nat) ∧ g.pages[k]? = some p ∧ sizeofPageHead ≤ p.fileSize ∧
    w.size = p.fileSize

/-- No call is on, and the writer of the last one stands on the last page. -/
def Rested (w : CRawIOWriter) (l : Log) : Prop :=
  l.next = none ∧ l.Rests maxSize ∧
    (w.fd = true → ∃ ps p fss₀ fs, Standing maxSize l { w with group := l.group } ps p fss₀ fs)

/-- What has been written to a page stays, and a page that is finished is left. -/
structure Page.Keeps (p p' : Page) : Prop where
  version : p'.version = pageHeadVer1
  tail_le : p.tail ≤ p'.tail
  kept : ∀ a < p.tail, p'.mem a = p.mem a
  finished : p.status = pageStatusFinish → p'.status = pageStatusFinish ∧ p'.tail = p.tail

theorem Page.Keeps.refl {p : Page} (h : p.version = pageHeadVer1) : p.Keeps p :=
  ⟨h, Nat.le_refl _, fun _ _ => rfl, fun hs => ⟨hs, rfl⟩⟩

theorem Page.Keeps.trans {p p' p'' : Page} (h : p.Keeps p') (h' : p'.Keeps p'') : p.Keeps p'' where
  version := h'.version
  tail_le := Nat.le_trans h.tail_le h'.tail_le
  kept := fun a ha => (h'.kept a (Nat.lt_of_lt_of_le ha h.tail_le)).trans (h.kept a ha)
  finished := by
    intro hs
    obtain ⟨h1, h2⟩ := h.finished hs
    obtain ⟨h3, h4⟩ := h'.finished h1
    exact ⟨h3, h4.trans h2⟩

/-- And so all pages that have their heads. -/
def PageGroup.Keeps (g g' : PageGroup) : Prop :=
  ∀ (num : Nat) (p : Page), g.file num = some p → p.version = pageHeadVer1 →
    ∃ p', g'.file num = some p' ∧ p.Keeps p'

theorem PageGroup.Keeps.refl (g : PageGroup) : g.Keeps g :=
  fun _ p hp hv => ⟨p, hp, .refl hv⟩

theorem PageGroup.Keeps.trans {g g' g'' : PageGroup} (h : g.Keeps g') (h' : g'.Keeps g'') :
    g.Keeps g'' := by
  intro num p hp hv
  obtain ⟨p', hp', hk⟩ := h num p hp hv
  obtain ⟨p'', hp'', hk'⟩ := h' num p' hp' hk.version
  exact ⟨p'', hp'', hk.trans hk'⟩

theorem Log.Grows.keeps {bound : Nat} {l l' : Log} (h : l.Grows l') (hok : l.Ok bound)
    (hok' : l'.Ok bound) : l.group.Keeps l'.group := by
  intro num p hp hv
  have hge : ¬num < l.group.first := fun hlt => by rw [PageGroup.file_of_lt hlt] at hp; cases hp
  obtain ⟨k, rfl⟩ := Nat.exists_eq_add_of_le (Nat.not_lt.mp hge)
  rw [PageGroup.file_add] at hp
  have hk : k < l.fss.length := by
    by_contra hlt
    exact hok.carries.raw hp (Nat.not_lt.mp hlt) hv
  obtain ⟨fs', p', hfs', hp', hg⟩ := h.frames (List.getElem?_eq_getElem hk) hp
  obtain ⟨q, hq, hb⟩ := hok'.carries.bears hfs'
  obtain rfl : p' = q := by rw [hp'] at hq; simpa using hq
  refine ⟨p', by rw [← h.first, PageGroup.file_add]; exact hp', hb.version, hg.tail_le, hg.kept, ?_⟩
  intro hs
  obtain ⟨h1, h2, -⟩ := hg.finished hs
  exact ⟨h1, h2⟩

namespace World

/-- The pages, with frames that they may bear. -/
def log (fss : List (List Frame)) (s : World) : Log := ⟨s.group, fss, s.pending⟩

structure Inv (fss : List (List Frame)) (s : World) : Prop where
  sent : s.sent.map Prod.snd = fss.flatten
  accepted : s.accepted = s.sent ++ s.pending.toList.map (s.holder, ·)
  writes : Log.Runs maxSize (Rested (s.writers s.holder)) s.stores (s.log fss)
  pageSize_le : ∀ i, (s.writers i).pageSize ≤ maxSize
  pageSize_ge : ∀ i, (s.writers i).fd = true → sizeofPageHead + sizeofFrameHead ≤ (s.writers i).pageSize
  maps : ∀ i, i ≠ s.holder → (s.writers i).fd = true → (s.writers i).Maps s.group
  reading : s.reading.Follows (s.log fss)

variable {fss : List (List Frame)} {s : World}

theorem Inv.ok (h : s.Inv fss) : (s.log fss).Ok maxSize := h.writes.here

theorem Inv.rested (h : s.Inv fss) (hidle : s.stores = []) : Rested (s.writers s.holder) (s.log fss) := by
  have hwrites := h.writes
  rw [hidle] at hwrites
  exact hwrites.2

theorem rested_of_stays {w : CRawIOWriter} {l : Log} (h : Stays maxSize w l) : Rested w l := by
  obtain ⟨hnext, ps, p, fss₀, fs, hst⟩ := h
  have hview : { w with group := l.group } = w := by rw [← hst.group]
  refine ⟨hnext, Or.inr ⟨ps, p, fss₀, fs, hst.pages, hst.going⟩, fun _ => ⟨ps, p, fss₀, fs, ?_⟩⟩
  rw [hview]
  exact hst

/-- Who stands on the last page has mapped it. -/
theorem maps_of_standing {w : CRawIOWriter} {l : Log} {ps : List Page} {p : Page}
    {fss₀ : List (List Frame)} {fs : List Frame}
    (h : Standing maxSize l { w with group := l.group } ps p fss₀ fs) : w.Maps l.group := by
  refine ⟨ps.length, p, h.onLast.pageNum, ?_, h.pages.bears.fileSize_ge, h.onLast.size⟩
  rw [h.pages.pages]
  simp

/-- And who has mapped the last page, where it goes on, stands on it. -/
theorem standing_of_maps {w : CRawIOWriter} {l : Log} {ps : List Page} {p : Page}
    {fss₀ : List (List Frame)} {fs : List Frame} (ho : l.Open maxSize ps p fss₀ fs)
    (hgoing : p.status ≠ pageStatusFinish) (hfd : w.fd = true) (hm : w.Maps l.group)
    (hlast : w.pageNum = l.group.getTailNum) :
    Standing maxSize l { w with group := l.group } ps p fss₀ fs := by
  obtain ⟨k, q, hnum, hq, -, hsize⟩ := hm
  rw [getTailNum_last ho.pages] at hlast
  have hk : k = ps.length := by omega
  rw [hk, ho.pages] at hq
  obtain rfl : p = q := by simpa using hq
  exact ⟨ho, hgoing, ⟨hfd, ho.pages, hlast, hsize⟩, rfl⟩

/-! ## The steps -/

theorem follows_next {l : Log} {r : Reading} (f : Option Frame) (h : r.Follows l) :
    r.Follows { l with next := f } := by
  obtain ⟨k, before, hat⟩ := h.at_page
  exact ⟨⟨k, before, hat.pageNum, hat.past, hat.place, hat.got, hat.pc⟩, h.looked⟩

theorem open_next {bound : Nat} {l : Log} {ps : List Page} {p : Page} {fss₀ : List (List Frame)}
    {fs : List Frame} (f : Option Frame) (h : l.Open bound ps p fss₀ fs) :
    Log.Open bound { l with next := f } ps p fss₀ fs :=
  ⟨h.pages, h.fss, h.front, h.bears, h.sizes⟩

/-- A call begins. -/
theorem Inv.calls {i : Nat} {w' : CRawIOWriter} {es : List (Nat × Store)} {f : Option Frame}
    (h : s.Inv fss) (hidle : s.stores = []) (hs : Sized maxSize w')
    (hruns : Log.Runs maxSize (Stays maxSize w') es ⟨s.group, fss, f⟩) :
    Inv fss { s with
      writers := Function.update s.writers i w'
      holder := i
      stores := es
      pending := f
      accepted := s.accepted ++ f.toList.map (i, ·) } where
  sent := h.sent
  accepted := by
    have hnone : s.pending = none := (h.rested hidle).1
    rw [h.accepted, hnone]
    simp
  writes := by
    dsimp only
    rw [Function.update_self]
    exact hruns.mono fun l _ hl => rested_of_stays hl
  pageSize_le := by
    intro j
    dsimp only
    rcases eq_or_ne j i with rfl | hj
    · rw [Function.update_self]
      exact hs.pageSize_le
    · rw [Function.update_of_ne hj]
      exact h.pageSize_le j
  pageSize_ge := by
    intro j hfd
    dsimp only at hfd ⊢
    rcases eq_or_ne j i with rfl | hj
    · rw [Function.update_self]
      exact hs.pageSize_ge
    · rw [Function.update_of_ne hj] at hfd ⊢
      exact h.pageSize_ge j hfd
  maps := by
    intro j hj hfd
    dsimp only at hfd ⊢
    rw [Function.update_of_ne hj] at hfd ⊢
    rcases eq_or_ne j s.holder with rfl | hne
    · obtain ⟨ps, p, fss₀, fs, hst⟩ := (h.rested hidle).2.2 hfd
      exact maps_of_standing hst
    · exact h.maps j hne hfd
  reading := follows_next f h.reading

theorem Inv.init (i nano : Nat) (h : s.Inv fss) (hidle : s.stores = [])
    (hge : sizeofPageHead + sizeofFrameHead ≤ (s.writers i).pageSize) :
    (s.next (.init i nano)).Inv fss ∧ ((s.view i).init true nano).1.fd = true := by
  obtain ⟨hnone, hrests, -⟩ := h.rested hidle
  have hs : Sized maxSize (s.view i) := ⟨by decide, hge, h.pageSize_le i⟩
  obtain ⟨-, hs', hruns⟩ := runs_init nano hrests hs rfl hnone
  obtain ⟨-, ps, p, fss₀, fs, hst⟩ := hruns.last
  refine ⟨?_, hst.onLast.fd⟩
  have hnext : s.next (.init i nano) = { s with
      writers := Function.update s.writers i ((s.view i).init true nano).1
      holder := i
      stores := (s.view i).initStores nano
      pending := none
      accepted := s.accepted ++ (none : Option Frame).toList.map (i, ·) } := by
    have hpending : s.pending = none := hnone
    rw [World.next, ← hpending, hpending]
    simp
  rw [hnext]
  refine h.calls hidle hs' ?_
  have hlog : s.log fss = ⟨s.group, fss, none⟩ := by
    have hpending : s.pending = none := hnone
    rw [World.log, hpending]
  rw [← hlog]
  exact hruns

theorem Inv.call {i : Nat} {op : WriterOp} {now : Nat → Nat} {ps : List Page} {p : Page}
    {fss₀ : List (List Frame)} {fs : List Frame} (h : s.Inv fss) (hidle : s.stores = [])
    (hfd : (s.writers i).fd = true)
    (hst : Standing maxSize (s.log fss) (s.view i) ps p fss₀ fs)
    (hwrap : op.NoWrap p (s.view i)) :
    (s.next (.call i op now)).Inv fss ∧ (op.apply now (s.view i)).1.fd = true := by
  have hs : Sized maxSize (s.view i) := ⟨by decide, h.pageSize_ge i hfd, h.pageSize_le i⟩
  have hst' : Standing maxSize ⟨s.group, fss, (op.apply now (s.view i)).2⟩ (s.view i) ps p fss₀ fs :=
    ⟨open_next _ hst.pages, hst.going, hst.onLast, rfl⟩
  obtain ⟨hs', hruns⟩ := WriterOp.runs hst' hs hwrap rfl
  obtain ⟨-, ps, p, fss₀, fs, hst⟩ := hruns.last
  exact ⟨h.calls hidle hs' hruns, hst.onLast.fd⟩

/-- A store of the call that is on. -/
theorem log_store (fss : List (List Frame)) {e : Nat × Store} {es : List (Nat × Store)}
    (hstores : s.stores = e :: es) :
    (s.next .store).log ((s.log fss).exec e).fss = (s.log fss).exec e ∧
      (s.next .store).stores = es ∧ (s.next .store).holder = s.holder ∧
      (s.next .store).writers = s.writers ∧ (s.next .store).reading = s.reading ∧
      (s.next .store).accepted = s.accepted ∧
      (s.next .store).sent ++ (s.next .store).pending.toList.map (s.holder, ·) =
        s.sent ++ s.pending.toList.map (s.holder, ·) ∧
      s.sent <+: (s.next .store).sent := by
  obtain ⟨num, e⟩ := e
  rw [World.next, hstores]
  cases e with
  | tail n => exact ⟨rfl, rfl, rfl, rfl, rfl, rfl, List.append_nil _, List.prefix_append _ _⟩
  | _ => exact ⟨rfl, rfl, rfl, rfl, rfl, rfl, rfl, List.prefix_refl _⟩

theorem Maps.grows {w : CRawIOWriter} {l l' : Log} (h : w.Maps l.group) (hg : l.Grows l') :
    w.Maps l'.group := by
  obtain ⟨k, p, hnum, hp, hle, hsize⟩ := h
  obtain ⟨p', hp', hsize'⟩ := hg.page hp
  have heq := hsize' hle
  exact ⟨k, p', by rw [hg.first]; exact hnum, hp', by rw [heq]; exact hle, hsize.trans heq.symm⟩

theorem Inv.store {e : Nat × Store} {es : List (Nat × Store)} (h : s.Inv fss)
    (hstores : s.stores = e :: es) :
    (s.next .store).Inv ((s.log fss).exec e).fss ∧ s.group.Keeps (s.next .store).group := by
  obtain ⟨hlog, hes, hholder, hwriters, hreading, haccepted, hsum, hsent⟩ := log_store fss hstores
  have hwrites := h.writes
  rw [hstores] at hwrites
  obtain ⟨hok, hg, hrest⟩ := hwrites
  have hgroup : (s.next .store).group = ((s.log fss).exec e).group := congrArg Log.group hlog
  have hpending : (s.next .store).pending = ((s.log fss).exec e).next := congrArg Log.next hlog
  -- what has been sent is what the pages bear
  have hflat : (s.next .store).sent.map Prod.snd = ((s.log fss).exec e).fss.flatten := by
    have hgrows := hg.sent
    have hmap := congrArg (List.map Prod.snd) hsum
    have hlabel : ∀ f : Option Frame, (f.toList.map fun x => (s.holder, x)).map Prod.snd = f.toList := by
      intro f
      cases f with
      | none => rfl
      | some x => rfl
    rw [List.map_append, List.map_append, hlabel, hlabel, h.sent] at hmap
    rw [← hpending] at hgrows
    exact List.append_cancel_right (hmap.trans hgrows.symm)
  refine ⟨⟨hflat, ?_, ?_, ?_, ?_, ?_, ?_⟩, hgroup ▸ hg.keeps hok hrest.here⟩
  · rw [haccepted, hholder, hsum, h.accepted]
  · rw [hes, hholder, hwriters, hlog]
    exact hrest
  · rw [hwriters]
    exact h.pageSize_le
  · rw [hwriters]
    exact h.pageSize_ge
  · rw [hholder, hwriters, hgroup]
    exact fun i hi hfd => Maps.grows (h.maps i hi hfd) hg
  · rw [hreading, hlog]
    refine h.reading.grows hok hg hrest.here ?_
    obtain ⟨more, hmore⟩ := hsent
    have hmap := congrArg (List.map Prod.snd) hmore
    rw [List.map_append, h.sent, hflat] at hmap
    exact ⟨_, hmap⟩

theorem Inv.die {i : Nat} (h : s.Inv fss) (hheaded : s.Headed) : (s.next (.die i)).Inv fss := by
  have hunload : ∀ j, ((Function.update s.writers i (s.writers i).unload) j).pageSize =
      (s.writers j).pageSize ∧
      (((Function.update s.writers i (s.writers i).unload) j).fd = true →
        j ≠ i ∧ (Function.update s.writers i (s.writers i).unload) j = s.writers j) := by
    intro j
    rcases eq_or_ne j i with rfl | hj
    · rw [Function.update_self]
      exact ⟨rfl, fun hfd => by cases hfd⟩
    · rw [Function.update_of_ne hj]
      exact ⟨rfl, fun _ => ⟨hj, rfl⟩⟩
  have hle : ∀ j, ((Function.update s.writers i (s.writers i).unload) j).pageSize ≤ maxSize := by
    intro j
    rw [(hunload j).1]
    exact h.pageSize_le j
  have hge : ∀ j, ((Function.update s.writers i (s.writers i).unload) j).fd = true →
      sizeofPageHead + sizeofFrameHead ≤
        ((Function.update s.writers i (s.writers i).unload) j).pageSize := by
    intro j hfd
    obtain ⟨-, heq⟩ := (hunload j).2 hfd
    rw [heq] at hfd ⊢
    exact h.pageSize_ge j hfd
  have hmaps : ∀ j, j ≠ s.holder → ((Function.update s.writers i (s.writers i).unload) j).fd = true →
      ((Function.update s.writers i (s.writers i).unload) j).Maps s.group := by
    intro j hj hfd
    obtain ⟨-, heq⟩ := (hunload j).2 hfd
    rw [heq] at hfd ⊢
    exact h.maps j hj hfd
  rw [World.next]
  by_cases hi : s.holder = i
  · rw [if_pos hi]
    refine ⟨h.sent, (List.append_nil _).symm, ?_, hle, hge, hmaps, follows_next none h.reading⟩
    have hok : Log.Ok maxSize ⟨s.group, fss, none⟩ := ⟨h.ok.carries, h.ok.sizes, h.ok.first⟩
    refine ⟨hok, rfl, hok.rests hheaded, fun hfd => ?_⟩
    exact absurd hi.symm (Ne.symm ((hunload _).2 hfd).1)
  · rw [if_neg hi]
    refine ⟨h.sent, h.accepted, ?_, hle, hge, hmaps, h.reading⟩
    have hholder : Function.update s.writers i (s.writers i).unload s.holder = s.writers s.holder :=
      Function.update_of_ne hi _ _
    dsimp only
    rw [hholder]
    exact h.writes

theorem Inv.ask (c : ReaderOp) (h : s.Inv fss) : (s.next (.ask c)).Inv fss :=
  ⟨h.sent, h.accepted, h.writes, h.pageSize_le, h.pageSize_ge, h.maps, h.reading.ask c⟩

theorem Inv.load (h : s.Inv fss) : (s.next .load).Inv fss :=
  ⟨h.sent, h.accepted, h.writes, h.pageSize_le, h.pageSize_ge, h.maps, h.reading.load h.ok⟩

/-! ## What it says -/

/-- What a reader is returned, and what it could have by reading on. -/
structure Fifo (s : World) : Prop where
  returned : s.reading.got.map s.group.frame <+: s.sent.map fun x => some x.2
  looked : ∀ x ∈ s.reading.looked, ∃ y, s.sent[x.1]? = some y ∧
    (s.group.file x.2.1).map (frameAt ·.mem x.2.2) = some y.2
  reads_all : ∃ n, ((Reading.alone s.group)^[n] s.reading).got.map s.group.frame =
    s.sent.map fun x => some x.2
  accepted : s.stores = [] → s.sent = s.accepted

theorem Inv.map_sent (h : s.Inv fss) : fss.flatten.map some = s.sent.map fun x => some x.2 := by
  rw [← h.sent, List.map_map]
  rfl

theorem Inv.delivers (h : s.Inv fss) : s.Fifo where
  returned := by
    rw [← h.map_sent]
    exact h.reading.frames
  looked := by
    intro x hx
    obtain ⟨f, hf, hl⟩ := h.reading.looked x hx
    have hsent : (s.sent.map Prod.snd)[x.1]? = some f := by
      rw [h.sent]
      exact hf
    rw [List.getElem?_map, Option.map_eq_some_iff] at hsent
    obtain ⟨y, hy, rfl⟩ := hsent
    exact ⟨y, hy, hl.frameAt⟩
  reads_all := by
    obtain ⟨n, hn⟩ := h.reading.reads_on h.ok
    rw [← h.map_sent]
    exact ⟨n, (h.reading.alone_iterate h.ok n).frames_all hn⟩
  accepted := by
    intro hidle
    have hnone : s.pending = none := (h.rested hidle).1
    rw [h.accepted, hnone]
    exact (List.append_nil _).symm

theorem inv_start (h : s.Start) : s.Inv [] := by
  obtain ⟨sizes, hsizes, rfl⟩ := h
  have hcarries : PageGroup.Carries [] { first := 0, pages := [] } := by
    refine ⟨?_, ?_, Nat.zero_le _, ?_⟩
    · intro k fs hfs
      cases hfs
    · intro k p hp
      cases hp
    · intro k p hp
      cases hp
  have hclosed : Log.Closed maxSize ⟨{ first := 0, pages := [] }, [], none⟩ :=
    ⟨.nil, nofun, fun _ => rfl⟩
  refine ⟨rfl, rfl, ⟨hclosed.ok, rfl, Or.inl hclosed, fun hfd => by cases hfd⟩, ?_, ?_, ?_, ?_⟩
  · intro i
    exact Nat.le_sub_one_of_lt (hsizes i)
  · intro i hfd
    cases hfd
  · intro i _ hfd
    cases hfd
  · refine ⟨⟨0, [], rfl, fun j hj => absurd hj (Nat.not_lt_zero j), Or.inr ⟨rfl, rfl⟩, .nil, trivial⟩, ?_⟩
    intro x hx
    cases hx

/-- Where the process that calls last has opened a page, one that has mapped the last
page stands on it. -/
theorem Inv.standing {i : Nat} (h : s.Inv fss) (hidle : s.stores = [])
    (hholder : (s.writers s.holder).fd = true) (hfd : (s.writers i).fd = true)
    (hlast : (s.writers i).pageNum = s.group.getTailNum) :
    ∃ ps p fss₀ fs, Standing maxSize (s.log fss) (s.view i) ps p fss₀ fs := by
  obtain ⟨ps, p, fss₀, fs, hst⟩ := (h.rested hidle).2.2 hholder
  rcases eq_or_ne i s.holder with rfl | hi
  · exact ⟨ps, p, fss₀, fs, hst⟩
  · exact ⟨ps, p, fss₀, fs, standing_of_maps hst.pages hst.going hfd (h.maps i hi hfd) hlast⟩

/-- What a step needs to go well: room, a caller that stands on the last page, and
nobody that dies before a new file has its version. -/
structure Sound (fss : List (List Frame)) (s : World) (e : Turn) : Prop where
  able : s.Able e
  fits : s.Fits e
  dies : s.DiesHeaded e
  caller : ∀ i op now, e = .call i op now →
    ∃ ps p fss₀ fs, Standing maxSize (s.log fss) (s.view i) ps p fss₀ fs

/-- **A step keeps what holds.** -/
theorem Inv.next {e : Turn} (h : s.Inv fss) (he : s.Sound fss e) :
    ∃ fss', (s.next e).Inv fss' ∧ s.group.Keeps (s.next e).group := by
  obtain ⟨hable, hfits, hdies, hcaller⟩ := he
  cases e with
  | init i nano => exact ⟨fss, (h.init i nano hable hfits).1, .refl _⟩
  | call i op now =>
    obtain ⟨ps, p, fss₀, fs, hst⟩ := hcaller i op now rfl
    exact ⟨fss, (h.call hable.1 hable.2.1 hst (hfits p hst.onLast.mapped)).1, .refl _⟩
  | store =>
    obtain ⟨e, es, hstores⟩ := List.exists_cons_of_ne_nil hable
    exact ⟨_, h.store hstores⟩
  | die i =>
    refine ⟨fss, h.die hdies, ?_⟩
    rw [World.next]
    split
    · exact .refl _
    · exact .refl _
  | ask c => exact ⟨fss, h.ask c, .refl _⟩
  | load => exact ⟨fss, h.load, .refl _⟩

end World

end NatFramework.Io
