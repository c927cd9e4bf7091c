import NatFramework.Io.Interleaved

/-!
# What the pages are there for

Three kinds of runs of `World`, and when the reader gets what has been written.

* `fifo_of_fits`: one process, which writes.
* `nothing_lost`: several, under the lock of `io/CGlobalSafeRawIOWriter`.
* `recovers`: one after the other, each of which may die.
-/
namespace NatFramework.Io

open Lib CRawIOWriter

/-- Nobody dies. -/
def Turn.Lives : Turn → Prop
  | .die _ => False
  | _ => True

/-- Who opens the pages or writes to them. -/
def Turn.caller : Turn → Option Nat
  | .init i _ => some i
  | .call i _ _ => some i
  | _ => none

instance livesDecidable : (e : Turn) → Decidable e.Lives
  | .die _ => isFalse id
  | .init _ _ | .call _ _ _ | .store | .ask _ | .load => isTrue trivial

namespace World

/-- A process opens the pages when no other has: the file is locked for it. -/
def Exclusive (s : World) : Turn → Prop
  | .init i _ => ∀ j, j ≠ i → (s.writers j).fd = false
  | _ => True

def single : Sys World Turn := sys fun s e => s.Exclusive e ∧ e.Lives

def shared : Sys World Turn := sys fun _ e => e.Lives

def mortal : Sys World Turn := sys Exclusive

/-- Whatever a process is able to do. -/
def able : Sys World Turn := sys fun _ _ => True

instance sharedDecidable (s : World) (e : Turn) : Decidable (shared.ok s e) :=
  inferInstanceAs (Decidable (s.Able e ∧ e.Lives))

instance ableOkDecidable (s : World) (e : Turn) : Decidable (able.ok s e) :=
  inferInstanceAs (Decidable (s.Able e ∧ True))

instance upToDateDecidable (s : World) : (e : Turn) → Decidable (s.UpToDate e)
  | .call i _ _ => inferInstanceAs (Decidable ((s.writers i).pageNum = s.group.getTailNum))
  | .init _ _ | .store | .die _ | .ask _ | .load => isTrue trivial

instance diesHeadedDecidable (s : World) : (e : Turn) → Decidable (s.DiesHeaded e)
  | .die _ => inferInstanceAs (Decidable (∀ p ∈ s.group.pages, p.version = pageHeadVer1))
  | .init _ _ | .call _ _ _ | .store | .ask _ | .load => isTrue trivial

/-- Processes with pages of one size, before any of them has opened them. -/
def fresh (size : Nat) : World :=
  { writers := fun _ => { group := { first := 0, pages := [] }, pageSize := size } }

theorem fresh_start {size : Nat} (h : size < 2 ^ 32) : (fresh size).Start :=
  ⟨fun _ => size, fun _ => h, rfl⟩

variable {s s0 : World} {es : List Turn} {e : Turn} {fss : List (List Frame)}

/-! ## One process -/

/-- Only the process that called last has the pages open. -/
structure Single (fss : List (List Frame)) (s : World) : Prop where
  inv : s.Inv fss
  others : ∀ j, j ≠ s.holder → (s.writers j).fd = false

/-- Who does not call does not open the pages. -/
theorem closed_next {j : Nat} (h : (s.writers j).fd = false) (hj : e.caller ≠ some j) :
    ((s.next e).writers j).fd = false := by
  cases e with
  | init i nano | call i op now =>
    have hji : j ≠ i := fun heq => hj (congrArg some heq.symm)
    rw [World.next]
    dsimp only
    rw [Function.update_of_ne hji]
    exact h
  | store =>
    rw [World.next]
    split
    · exact h
    · exact h
  | die i =>
    have hother : (Function.update s.writers i (s.writers i).unload j).fd = false := by
      rcases eq_or_ne j i with rfl | hne
      · rw [Function.update_self]
        rfl
      · rw [Function.update_of_ne hne]
        exact h
    rw [World.next]
    split
    · exact hother
    · exact hother
  | ask c => exact h
  | load => exact h

theorem holder_next (s : World) (e : Turn) : (s.next e).holder = e.caller.getD s.holder := by
  cases e with
  | store =>
    rw [World.next]
    split
    · rfl
    · rfl
  | die i =>
    rw [World.next]
    split
    · rfl
    · rfl
  | _ => rfl

theorem others_next (h : ∀ j, j ≠ s.holder → (s.writers j).fd = false) (hable : s.Able e)
    (hexcl : s.Exclusive e) : ∀ j, j ≠ (s.next e).holder → ((s.next e).writers j).fd = false := by
  intro j hj
  rw [holder_next] at hj
  cases e with
  | init i nano =>
    have hji : j ≠ i := hj
    exact closed_next (hexcl j hji) fun heq => hji (Option.some.inj heq).symm
  | call i op now =>
    have hji : j ≠ i := hj
    -- the caller has the pages open, and so it has called last
    have hi : i = s.holder := by
      by_contra hne
      have hfd := hable.2.1
      rw [h i hne] at hfd
      cases hfd
    exact closed_next (h j (hi ▸ hji)) fun heq => hji (Option.some.inj heq).symm
  | _ => exact closed_next (h j hj) nofun

theorem Single.next (h : s.Single fss) (hable : s.Able e) (hexcl : s.Exclusive e) (hfits : s.Fits e)
    (hdies : s.DiesHeaded e) : ∃ fss', (s.next e).Single fss' ∧ s.group.Keeps (s.next e).group := by
  have hcaller : ∀ i op now, e = .call i op now →
      ∃ ps p fss₀ fs, Standing maxSize (s.log fss) (s.view i) ps p fss₀ fs := by
    rintro i op now rfl
    obtain ⟨hidle, hfd, -⟩ := hable
    have hi : i = s.holder := by
      by_contra hne
      rw [h.others i hne] at hfd
      cases hfd
    subst hi
    exact (h.inv.rested hidle).2.2 hfd
  obtain ⟨fss', hinv, hkeeps⟩ := h.inv.next ⟨hable, hfits, hdies, hcaller⟩
  exact ⟨fss', ⟨hinv, others_next h.others hable hexcl⟩, hkeeps⟩

theorem single_start (h : s.Start) : s.Single [] := by
  refine ⟨inv_start h, ?_⟩
  obtain ⟨sizes, -, rfl⟩ := h
  exact fun j _ => rfl

/-- Where the first process alone calls, nobody else has the pages open. -/
theorem mortal_of_able (h : able.Admits s es)
    (hes : ∀ e ∈ es, ∀ i ∈ e.caller, i = 0) (hs : ∀ j, j ≠ 0 → (s.writers j).fd = false) :
    mortal.Admits s es := by
  induction es generalizing s with
  | nil => trivial
  | cons e es ih =>
    have hfirst := hes e List.mem_cons_self
    have hexcl : s.Exclusive e := by
      cases e with
      | init i nano =>
        obtain rfl : i = 0 := hfirst i rfl
        exact hs
      | _ => trivial
    refine ⟨⟨h.1.1, hexcl⟩, ih h.2 (fun e he => hes e (List.mem_cons_of_mem _ he)) fun j hj => ?_⟩
    exact closed_next (hs j hj) fun heq => hj (hfirst j heq)

theorem single_of_mortal (h : mortal.Admits s es) (hlives : ∀ e ∈ es, e.Lives) :
    single.Admits s es := by
  induction es generalizing s with
  | nil => trivial
  | cons e es ih =>
    exact ⟨⟨h.1.1, h.1.2, hlives e List.mem_cons_self⟩,
      ih h.2 fun e he => hlives e (List.mem_cons_of_mem _ he)⟩

/-- The stores of a call, one after the other. -/
theorem exec_stores (ws : List (Nat × Store)) (h : s.stores = ws) :
    single.Admits s (List.replicate ws.length .store) ∧
      single.exec s (List.replicate ws.length .store) = { s with
        group := ws.foldl PageGroup.exec s.group
        stores := []
        pending := if ws.any (·.2.ends) then none else s.pending
        sent := if ws.any (·.2.ends) then s.sent ++ s.pending.toList.map (s.holder, ·) else s.sent } := by
  induction ws generalizing s with
  | nil =>
    refine ⟨trivial, ?_⟩
    cases s
    cases h
    rfl
  | cons w ws ih =>
    obtain ⟨hadm, hexec⟩ := ih (s := s.next .store) (by rw [World.next, h])
    refine ⟨⟨⟨?_, trivial, trivial⟩, hadm⟩, ?_⟩
    · intro hnil
      rw [h] at hnil
      cases hnil
    · have hcons : single.exec s (List.replicate (w :: ws).length .store) =
          single.exec (s.next .store) (List.replicate ws.length .store) := rfl
      rw [hcons, hexec, World.next, h, List.any_cons]
      dsimp only
      generalize w.2.ends = b
      cases b with
      | false =>
        simp only [Bool.false_or]
        rfl
      | true => simp

/-- The stores of a frame go to the one page that there is. -/
theorem foldl_inPage {ws : List Store} (hws : ∀ e ∈ ws, e ≠ .create) (p : Page) :
    (inPage 0 ws).foldl PageGroup.exec ⟨0, [p]⟩ = ⟨0, [ws.foldl Page.exec p]⟩ := by
  induction ws generalizing p with
  | nil => rfl
  | cons w ws ih =>
    have hw : PageGroup.exec ⟨0, [p]⟩ (0, w) = ⟨0, [p.exec w]⟩ := if_neg (hws w List.mem_cons_self)
    have hcons : inPage 0 (w :: ws) = (0, w) :: inPage 0 ws := rfl
    rw [hcons, List.foldl_cons, hw, List.foldl_cons]
    exact ih (fun e he => hws e (List.mem_cons_of_mem _ he)) (p.exec w)

/-- A process has the only page open. -/
structure Alone (s : World) (p : Page) : Prop where
  idle : s.stores = []
  group : s.group = ⟨0, [p]⟩
  fd : (s.writers 0).fd = true
  pageNum : (s.writers 0).pageNum = 0
  size : (s.writers 0).size = p.fileSize

theorem frameStores_length (data : List UInt8) (nano tail : Nat) :
    (frameStores data nano tail).length = data.length + 5 := by
  simp [frameStores, dataStores, stampStores]

theorem frameStores_ends (data : List UInt8) (nano tail : Nat) :
    (inPage 0 (frameStores data nano tail)).any (·.2.ends) = true := by
  simp [frameStores, stampStores, inPage, Store.ends]

theorem frameStores_ne_create (data : List UInt8) (nano tail : Nat) :
    ∀ e ∈ frameStores data nano tail, e ≠ .create := by
  intro e he
  rw [frameStores, List.mem_append, List.mem_cons] at he
  rcases he with he | rfl | he
  · obtain ⟨x, -, rfl⟩ := List.mem_map.mp he
    simp
  · simp
  · rintro rfl
    simp [stampStores] at he

/-- `write` to the only page. -/
def writing (data : List UInt8) (nano : Nat) : List Turn :=
  .call 0 (.write data) (fun _ => nano) :: List.replicate (data.length + 5) .store

theorem Alone.write {p : Page} (data : List UInt8) (nano : Nat) (h : s.Alone p)
    (hlen : data.length < 2 ^ 32) (hfit : tailBehind p data.length ≤ p.fileSize) :
    single.Admits s (writing data nano) ∧
      Alone (single.exec s (writing data nano)) (put data (nano % 2 ^ 64) (tailBehind p data.length) p) ∧
      (single.exec s (writing data nano)).sent =
        s.sent ++ [(0, ⟨nano % 2 ^ 64, data⟩)] ∧
      (single.exec s (writing data nano)).reading = s.reading := by
  have hon : OnLast (s.view 0) [] p := by
    refine ⟨h.fd, ?_, ?_, h.size⟩
    · exact congrArg PageGroup.pages h.group
    · have hfirst : (s.view 0).group.first = 0 := congrArg PageGroup.first h.group
      rw [hfirst]
      exact h.pageNum
  have hwrite : CRawIOWriter.write true data 2 (fun _ => nano) (s.view 0) = _ := write_here hon hfit
  have hstores : (WriterOp.write data).stores (fun _ => nano) (s.view 0) =
      inPage 0 (frameStores data (nano % 2 ^ 64) (tailBehind p data.length)) := by
    rw [WriterOp.stores, writeStores, hon.mapped]
    dsimp only
    rw [hon.size, if_pos hfit]
    exact congrArg (inPage · _) h.pageNum
  have hnext : s.next (.call 0 (.write data) (fun _ => nano)) = { s with
      writers := Function.update s.writers 0
        ((s.view 0).store (put data (nano % 2 ^ 64) (tailBehind p data.length)))
      holder := 0
      stores := inPage 0 (frameStores data (nano % 2 ^ 64) (tailBehind p data.length))
      pending := some ⟨nano % 2 ^ 64, data⟩
      accepted := s.accepted ++ [(0, ⟨nano % 2 ^ 64, data⟩)] } := by
    have htime : WriterOp.frameTime (fun _ => nano) data.length (s.view 0) = nano % 2 ^ 64 := by
      rw [WriterOp.frameTime, hon.mapped]
      dsimp only
      rw [ite_self]
    rw [World.next, hstores, WriterOp.apply, hwrite]
    dsimp only
    rw [if_pos rfl, htime]
    rfl
  obtain ⟨hadm, hexec⟩ := exec_stores (s := s.next (.call 0 (.write data) (fun _ => nano)))
    (inPage 0 (frameStores data (nano % 2 ^ 64) (tailBehind p data.length))) (by rw [hnext])
  have hlength : (inPage 0 (frameStores data (nano % 2 ^ 64) (tailBehind p data.length))).length =
      data.length + 5 := by rw [inPage, List.length_map, frameStores_length]
  rw [hlength] at hadm hexec
  have hrun : single.exec s (writing data nano) = _ := hexec
  rw [frameStores_ends, hnext] at hrun
  dsimp only at hrun
  rw [h.group, foldl_inPage (frameStores_ne_create _ _ _), frameStores_put] at hrun
  refine ⟨⟨⟨⟨h.idle, h.fd, hlen⟩, trivial, trivial⟩, hadm⟩, ?_⟩
  rw [hrun]
  exact ⟨⟨rfl, rfl, h.fd, h.pageNum, h.size⟩, rfl, rfl⟩


/-- A load that leads to no frame of a page whose tail is before the first one. -/
def Barren : Pc → Prop
  | .magic _ | .len _ | .skip => False
  | .tail _ st => st ≠ pageStatusFinish
  | _ => True

theorem barren_alone {p : Page} {r : Reading} (ht : p.tail = 0) (hs : p.status ≠ pageStatusFinish)
    (h : r.got = [] ∧ r.r.pageNum = 0 ∧ Barren r.pc) :
    (r.alone ⟨0, [p]⟩).got = [] ∧ (r.alone ⟨0, [p]⟩).r.pageNum = 0 ∧ Barren (r.alone ⟨0, [p]⟩).pc := by
  obtain ⟨hgot, hnum, hpc⟩ := h
  have hfile : PageGroup.file r.r.pageNum ⟨0, [p]⟩ = some p := by rw [hnum]; rfl
  have hmapped : r.r.mapped ⟨0, [p]⟩ = if r.r.fd then some p else none := by
    rw [CRawIOReader.mapped, hfile]
  unfold Reading.alone
  cases hr : r.pc with
  | idle =>
    rw [if_pos rfl]
    refine ⟨hgot, hnum, ?_⟩
    rw [Reading.ask, Reading.start]
    dsimp only
    split
    · trivial
    · trivial
  | magic c | len c | skip =>
    rw [hr] at hpc
    exact hpc.elim
  | status c =>
    rw [if_neg (by simp), Reading.load, hr, hmapped]
    cases r.r.fd with
    | false => exact ⟨hgot, hnum, trivial⟩
    | true =>
      simp only [if_true, Reading.loadMapped, hr]
      exact ⟨hgot, hnum, hs⟩
  | tail c st =>
    rw [hr] at hpc
    rw [if_neg (by simp), Reading.load, hr, hmapped]
    cases r.r.fd with
    | false => exact ⟨hgot, hnum, trivial⟩
    | true =>
      have hst : ¬st = pageStatusFinish := hpc
      simp only [if_true, Reading.loadMapped, hr, ht, Nat.not_lt_zero, if_false, if_neg hst]
      exact ⟨hgot, hnum, trivial⟩
  | file c | stat c | version c n =>
    rw [if_neg (by simp), Reading.load, hr, hfile]
    simp only [Reading.loadFile, hr]
    refine ⟨hgot, hnum, ?_⟩
    first
      | trivial
      | split
        · trivial
        · trivial
  | size c n =>
    rw [if_neg (by simp), Reading.load, hr, hfile]
    simp only [Reading.loadFile, hr]
    split
    · refine ⟨hgot, hnum, ?_⟩
      dsimp only
      split
      · trivial
      · trivial
    · exact ⟨hgot, hnum, trivial⟩

/-- Where the sum of the second frame wraps to 0, neither frame is read. -/
theorem lost_of_wrap {q : Page} (hgroup : s.group = ⟨0, [q]⟩) (ht : q.tail = 0)
    (hs : q.status ≠ pageStatusFinish) (hreading : s.reading = {}) (hsent : s.sent ≠ []) : ¬s.Fifo := by
  rintro ⟨-, -, ⟨n, hn⟩, -⟩
  have hbarren : ∀ n, ((Reading.alone s.group)^[n] s.reading).got = [] := by
    intro n
    have hstart : ({} : Reading).got = [] ∧ ({} : Reading).r.pageNum = 0 ∧ Barren ({} : Reading).pc :=
      ⟨rfl, rfl, trivial⟩
    rw [hgroup, hreading]
    exact (Function.Iterate.rec (fun r : Reading => r.got = [] ∧ r.r.pageNum = 0 ∧ Barren r.pc)
      hstart (fun r h => barren_alone ht hs h) n).1
  rw [hbarren n] at hn
  exact hsent (List.map_eq_nil_iff.mp hn.symm)

/-- **The pages are a queue between a writer and a reader**, in runs of one process
in which new pages have room for the head of a frame and no sum of 32 bits wraps. -/
theorem fifo_of_fits (h0 : s0.Start) (ha : single.Admits s0 es)
    (hfits : AtEach (fun pre e => (single.exec s0 pre).Fits e) es) : (single.exec s0 es).Fifo := by
  have hstep : ∀ s e, (∃ fss, World.Single fss s) → single.ok s e → s.Fits e →
      ∃ fss, World.Single fss (single.next s e) := by
    rintro s e ⟨fss, h⟩ ⟨hable, hexcl, hlives⟩ hfits
    have hdies : s.DiesHeaded e := by
      cases e with
      | die i => exact hlives.elim
      | _ => trivial
    obtain ⟨fss', h', -⟩ := h.next hable hexcl hfits hdies
    exact ⟨fss', h'⟩
  obtain ⟨fss, h⟩ := single.invariant_atEach hstep s0 es ⟨[], single_start h0⟩ ha hfits
  exact h.inv.delivers

/-- A frame, written and read. -/
def oneFrame : List Turn :=
  .init 0 5 :: (List.replicate 9 .store ++ (writing [1] 5 ++ .ask .read :: List.replicate 8 .load))

theorem fifo_of_fits_oneFrame : (single.exec (fresh 66) oneFrame).Fifo ∧
    (single.exec (fresh 66) oneFrame).reading.got.length = 1 := by
  refine ⟨fifo_of_fits (fresh_start (by decide)) ?_ (atEach_iff_getElem.mpr (by decide +kernel)), by decide +kernel⟩
  exact single_of_mortal (mortal_of_able (by decide +kernel) (by decide) fun _ _ => rfl) (by decide)

/-- Two frames, each of which has room in an empty page of the largest size: the
second one ends where 32 bits end. -/
def wrapping : List Turn :=
  .init 0 5 :: (List.replicate 9 .store ++
    (writing (List.replicate (2 ^ 31 - 85) 0) 5 ++ writing (List.replicate (2 ^ 31) 0) 5))

theorem wrapping_lost : (fresh maxSize).Start ∧ single.Admits (fresh maxSize) wrapping ∧
    ¬(single.exec (fresh maxSize) wrapping).Fifo := by
  have hlen₁ : (List.replicate (2 ^ 31 - 85) (0 : UInt8)).length = 2 ^ 31 - 85 := List.length_replicate
  have hlen₂ : (List.replicate (2 ^ 31) (0 : UInt8)).length = 2 ^ 31 := List.length_replicate
  unfold wrapping
  generalize List.replicate (2 ^ 31 - 85) (0 : UInt8) = data₁ at hlen₁ ⊢
  generalize List.replicate (2 ^ 31) (0 : UInt8) = data₂ at hlen₂ ⊢
  obtain ⟨hadm₀, hexec₀⟩ := exec_stores (s := (fresh maxSize).next (.init 0 5)) _ rfl
  have hopened : single.Admits (fresh maxSize) (.init 0 5 :: List.replicate 9 .store) :=
    ⟨⟨rfl, fun _ _ => rfl, trivial⟩, hadm₀⟩
  obtain ⟨s₀, hs₀⟩ : ∃ s₀, s₀ = single.exec (fresh maxSize) (.init 0 5 :: List.replicate 9 .store) :=
    ⟨_, rfl⟩
  have hexec : s₀ = _ := hs₀.trans hexec₀
  have halone : s₀.Alone (newPage maxSize 5) := by
    rw [hexec]
    exact ⟨rfl, rfl, rfl, rfl, rfl⟩
  have hreading : s₀.reading = {} := by
    rw [hexec]
    rfl
  -- the first frame ends at 2 ^ 31 - 20, and the second at 2 ^ 32
  have hsum₁ : tailBehind (newPage maxSize 5) data₁.length = 2 ^ 31 - 20 := by
    rw [hlen₁]
    decide
  obtain ⟨hadm₁, halone₁, hsent₁, hreading₁⟩ := halone.write data₁ 5
    (by rw [hlen₁]; decide) (by rw [hsum₁]; decide)
  rw [hsum₁] at halone₁
  have hsum₂ : tailBehind (put data₁ (5 % 2 ^ 64) (2 ^ 31 - 20) (newPage maxSize 5)) data₂.length = 0 := by
    have htail : (put data₁ (5 % 2 ^ 64) (2 ^ 31 - 20) (newPage maxSize 5)).tail = 2 ^ 31 - 20 := rfl
    rw [tailBehind, htail, hlen₂]
    decide
  obtain ⟨hadm₂, halone₂, hsent₂, hreading₂⟩ := halone₁.write data₂ 5
    (by rw [hlen₂]; decide) (by rw [hsum₂]; exact Nat.zero_le _)
  rw [hsum₂] at halone₂
  have hrun : single.exec (fresh maxSize) (.init 0 5 :: (List.replicate 9 .store ++
      (writing data₁ 5 ++ writing data₂ 5))) =
        single.exec (single.exec s₀ (writing data₁ 5)) (writing data₂ 5) := by
    rw [← List.cons_append, single.exec_append, single.exec_append, ← hs₀]
  refine ⟨fresh_start (by decide), ?_, ?_⟩
  · rw [← List.cons_append, single.admits_append, single.admits_append, ← hs₀]
    exact ⟨hopened, hadm₁, hadm₂⟩
  · rw [hrun]
    refine lost_of_wrap halone₂.group rfl nofun (hreading₂.trans (hreading₁.trans hreading)) ?_
    rw [hsent₂]
    simp

/-! ## Several processes -/

/-- The process that called last has the pages open, once one has called. -/
structure Shared (fss : List (List Frame)) (s : World) : Prop where
  inv : s.Inv fss
  opened : s.group.pages = [] ∧ s.stores = [] ∨ (s.writers s.holder).fd = true

theorem Shared.standing {i : Nat} (h : s.Shared fss) (hidle : s.stores = [])
    (hfd : (s.writers i).fd = true) (hlast : (s.writers i).pageNum = s.group.getTailNum) :
    ∃ ps p fss₀ fs, Standing maxSize (s.log fss) (s.view i) ps p fss₀ fs := by
  obtain ⟨hnil, -⟩ | hholder := h.opened
  · rcases eq_or_ne i s.holder with rfl | hi
    · exact h.inv.standing hidle hfd hfd hlast
    · obtain ⟨k, p, -, hp, -, -⟩ := h.inv.maps i hi hfd
      rw [hnil] at hp
      cases hp
  · exact h.inv.standing hidle hholder hfd hlast

theorem Shared.next (h : s.Shared fss) (hable : s.Able e) (hlives : e.Lives) (hfits : s.Fits e)
    (hdate : s.UpToDate e) : ∃ fss', (s.next e).Shared fss' ∧ s.group.Keeps (s.next e).group := by
  have hdies : s.DiesHeaded e := by
    cases e with
    | die i => exact hlives.elim
    | _ => trivial
  have hcaller : ∀ i op now, e = .call i op now →
      ∃ ps p fss₀ fs, Standing maxSize (s.log fss) (s.view i) ps p fss₀ fs := by
    rintro i op now rfl
    exact h.standing hable.1 hable.2.1 hdate
  obtain ⟨fss', hinv, hkeeps⟩ := h.inv.next ⟨hable, hfits, hdies, hcaller⟩
  refine ⟨fss', ⟨hinv, ?_⟩, hkeeps⟩
  cases e with
  | init i nano =>
    refine Or.inr ?_
    rw [World.next]
    dsimp only
    rw [Function.update_self]
    exact (h.inv.init i nano hable hfits).2
  | call i op now =>
    obtain ⟨ps, p, fss₀, fs, hst⟩ := hcaller i op now rfl
    refine Or.inr ?_
    rw [World.next]
    dsimp only
    rw [Function.update_self]
    exact (h.inv.call hable.1 hable.2.1 hst (hfits p hst.onLast.mapped)).2
  | store =>
    obtain ⟨e, es, hstores⟩ := List.exists_cons_of_ne_nil hable
    obtain ⟨-, hnil⟩ | hfd := h.opened
    · exact absurd hnil hable
    · refine Or.inr ?_
      rw [World.next, hstores]
      exact hfd
  | die i => exact hlives.elim
  | ask c => exact h.opened
  | load => exact h.opened

theorem shared_start (h : s.Start) : s.Shared [] := by
  refine ⟨inv_start h, ?_⟩
  obtain ⟨sizes, -, rfl⟩ := h
  exact Or.inl ⟨rfl, rfl⟩

/-- **Nothing is lost between processes**, in runs in which new pages have room for
the head of a frame, no sum of 32 bits wraps, and who calls has mapped the last page.
What has been written to a page stays, and a finished page is left. -/
theorem nothing_lost (h0 : s0.Start) (ha : shared.Admits s0 es)
    (hp : AtEach (fun pre e => (shared.exec s0 pre).Fits e ∧ (shared.exec s0 pre).UpToDate e) es) :
    (shared.exec s0 es).Fifo ∧
      ∀ pre post, es = pre ++ post → (shared.exec s0 pre).group.Keeps (shared.exec s0 es).group := by
  have hstep : ∀ s e, (∃ fss, World.Shared fss s) → shared.ok s e → s.Fits e ∧ s.UpToDate e →
      (∃ fss, World.Shared fss (shared.next s e)) ∧ s.group.Keeps (shared.next s e).group := by
    rintro s e ⟨fss, h⟩ ⟨hable, hlives⟩ ⟨hfits, hdate⟩
    obtain ⟨fss', h', hkeeps⟩ := h.next hable hlives hfits hdate
    exact ⟨⟨fss', h'⟩, hkeeps⟩
  obtain ⟨⟨fss, h⟩, hkeeps⟩ := shared.related_run (R := fun s t => s.group.Keeps t.group)
    (fun _ => .refl _) (fun h h' => h.trans h') hstep s0 es ⟨[], shared_start h0⟩ ha hp
  exact ⟨h.inv.delivers, hkeeps⟩

/-- Each of two processes fills a page; the first one opens the pages again before it
writes its second frame. -/
def inTurns : List Turn :=
  .init 0 5 :: (List.replicate 9 .store ++ .init 1 5 :: (writing [1] 5 ++
    (.call 1 (.write [2]) (fun _ => 6) :: List.replicate 17 .store ++
      (.init 0 7 :: .call 0 (.write [3]) (fun _ => 7) :: List.replicate 17 .store))))

theorem nothing_lost_inTurns : (shared.exec (fresh 66) inTurns).Fifo ∧
    (shared.exec (fresh 66) inTurns).sent.length = 3 :=
  ⟨(nothing_lost (fresh_start (by decide)) (by decide +kernel)
    (atEach_iff_getElem.mpr (by decide +kernel))).1, by decide +kernel⟩

/-- The first process goes on to a second page, and then the second one, which has
mapped the first page, writes. -/
def stale : List Turn :=
  .init 0 5 :: (List.replicate 9 .store ++ .init 1 5 :: (writing [1] 5 ++
    (.call 0 (.write [2]) (fun _ => 6) :: List.replicate 17 .store ++
      (.call 1 (.write [3]) (fun _ => 7) :: List.replicate 15 .store ++
        (.ask .read :: List.replicate 8 .load ++ .ask .read :: List.replicate 10 .load)))))

/-- The head of the second page is made anew, and the second frame is lost. -/
theorem stale_lost : (fresh 66).Start ∧ shared.Admits (fresh 66) stale ∧
    ¬(shared.exec (fresh 66) stale).Fifo := by
  refine ⟨fresh_start (by decide), by decide +kernel, fun h => ?_⟩
  exact absurd h.returned (by decide +kernel)

/-! ## Processes that die -/

/-- Whoever comes next can open the pages. -/
def Recovers (s : World) : Prop :=
  s.stores = [] → ∀ (w : CRawIOWriter) (nano : Nat), w.group = s.group →
    sizeofPageHead + sizeofFrameHead ≤ w.pageSize → w.pageSize < 2 ^ 32 → (w.init true nano).2 = true

theorem Inv.opens (h : s.Inv fss) : s.Recovers := by
  intro hidle w nano hgroup hge hlt
  obtain ⟨hnone, hrests, -⟩ := h.rested hidle
  have hs : Sized maxSize w := ⟨by decide, hge, Nat.le_sub_one_of_lt hlt⟩
  exact (runs_init nano hrests hs hgroup hnone).1

theorem sent_next (s : World) (e : Turn) : s.sent <+: (s.next e).sent := by
  cases e with
  | store =>
    rw [World.next]
    split
    · exact List.prefix_refl _
    · dsimp only
      split
      · exact List.prefix_append _ _
      · exact List.prefix_refl _
  | die i =>
    rw [World.next]
    split
    · exact List.prefix_refl _
    · exact List.prefix_refl _
  | _ => exact List.prefix_refl _

/-- **The pages survive a process that dies**, in runs in which new pages have room
for the head of a frame, no sum of 32 bits wraps, and nobody dies before a new file
has its version. What has been sent before comes first. -/
theorem recovers (h0 : s0.Start) (ha : mortal.Admits s0 es)
    (hp : AtEach (fun pre e => (mortal.exec s0 pre).Fits e ∧ (mortal.exec s0 pre).DiesHeaded e) es) :
    (mortal.exec s0 es).Recovers ∧ (mortal.exec s0 es).Fifo ∧
      ∀ pre post, es = pre ++ post → (mortal.exec s0 pre).sent <+: (mortal.exec s0 es).sent ∧
        (mortal.exec s0 pre).group.Keeps (mortal.exec s0 es).group := by
  have hstep : ∀ s e, (∃ fss, World.Single fss s) → mortal.ok s e → s.Fits e ∧ s.DiesHeaded e →
      (∃ fss, World.Single fss (mortal.next s e)) ∧ s.sent <+: (mortal.next s e).sent ∧
        s.group.Keeps (mortal.next s e).group := by
    rintro s e ⟨fss, h⟩ ⟨hable, hexcl⟩ ⟨hfits, hdies⟩
    obtain ⟨fss', h', hkeeps⟩ := h.next hable hexcl hfits hdies
    exact ⟨⟨fss', h'⟩, sent_next s e, hkeeps⟩
  obtain ⟨⟨fss, h⟩, hkeeps⟩ := mortal.related_run
    (R := fun s t => s.sent <+: t.sent ∧ s.group.Keeps t.group) (fun _ => ⟨List.prefix_refl _, .refl _⟩)
    (fun h h' => ⟨h.1.trans h'.1, h.2.trans h'.2⟩) hstep s0 es ⟨[], single_start h0⟩ ha hp
  exact ⟨h.inv.opens, h.inv.delivers, hkeeps⟩

/-- A process dies in the midst of its second frame, and opens the pages again. -/
def midFrame : List Turn :=
  .init 0 5 :: (List.replicate 9 .store ++ (writing [1] 5 ++
    .call 0 (.write [2]) (fun _ => 6) :: (List.replicate 14 .store ++
      .die 0 :: .init 0 7 :: .call 0 (.write [3]) (fun _ => 7) :: List.replicate 6 .store)))

theorem recovers_midFrame : (mortal.exec (fresh 66) midFrame).Fifo ∧
    (mortal.exec (fresh 66) midFrame).sent.map Prod.snd = [⟨5, [1]⟩, ⟨7, [3]⟩] :=
  ⟨(recovers (fresh_start (by decide)) (mortal_of_able (by decide +kernel) (by decide) fun _ _ => rfl)
    (atEach_iff_getElem.mpr (by decide +kernel))).2.1, by decide +kernel⟩

/-- A process dies when the file of the first page has its size and no head. -/
def headless : List Turn := [.init 0 5, .store, .store, .die 0]

theorem headless_refused : (fresh 66).Start ∧ mortal.Admits (fresh 66) headless ∧
    ¬(mortal.exec (fresh 66) headless).Recovers := by
  refine ⟨fresh_start (by decide), mortal_of_able (by decide) (by decide) fun _ _ => rfl, fun h => ?_⟩
  have hinit := h rfl ((mortal.exec (fresh 66) headless).view 0) 6 rfl (by decide) (by decide)
  exact absurd hinit (by decide)

end World

end NatFramework.Io
