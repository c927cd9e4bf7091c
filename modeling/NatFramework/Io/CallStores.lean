import NatFramework.Io.PageLog

/-!
# The calls of a writer, store by store

What can be met in the pages while a call of a writer runs that stands on the
last page, or opens the group: every store keeps what readers have seen, and the
call ends with the writer on the last page and its frame there.

* `runs_write`, `runs_prefetch`: the calls; `runs_init`: opening.
* `WriterOp.runs`: any of them, with `apply` at the end.
-/
namespace NatFramework.Io

open Lib

namespace Log

/-- What the stores lead through, and to. -/
abbrev Runs (bound : Nat) (Q : Log → Prop) (es : List (Nat × Store)) (l : Log) : Prop :=
  Along exec (Ok bound) Grows Q es l

variable {bound : Nat} {l l' : Log} {ps : List Page} {p p' : Page} {fss₀ : List (List Frame)}
  {fs : List Frame} {es : List Store} {num : Int} {Q : Log → Prop}

/-! ## Stores to the last page -/

theorem inPage_append (num : Int) (es fs : List Store) :
    inPage num (es ++ fs) = inPage num es ++ inPage num fs := List.map_append

theorem runs_inert (h : Open bound l ps p fss₀ fs) (he : ∀ e ∈ es, e.inert = true)
    (hnum : num.toNat = l.group.first + ps.length) :
    Runs bound (fun l' => l'.group.first = l.group.first ∧ l'.next = l.next ∧
      Open bound l' ps (es.foldl Page.exec p) fss₀ fs) (inPage num es) l := by
  induction es generalizing l p with
  | nil => exact ⟨h.ok, rfl, rfl, h⟩
  | cons e es ih =>
    have hi := he e List.mem_cons_self
    obtain ⟨hg, ho⟩ := h.inert hi
    have hnext := (exec_ghost l (l.group.first + ps.length) (Or.inl hi)).2
    rw [← hnum] at hg ho hnext
    refine ⟨h.ok, hg, (ih ho (fun e he' => he e (List.mem_cons_of_mem _ he')) ?_).mono fun l' _ hl => ?_⟩
    · rw [hg.first]
      exact hnum
    · exact ⟨hl.1.trans hg.first, hl.2.1.trans hnext, hl.2.2⟩

theorem runs_toHead (h : Raw bound l ps p) (he : ∀ e ∈ es, e.toHead = true)
    (hnum : num.toNat = l.group.first + ps.length) :
    Runs bound (fun l' => l'.group.first = l.group.first ∧ l'.next = l.next ∧ l'.fss = l.fss ∧
      Raw bound l' ps (es.foldl Page.exec p)) (inPage num es) l := by
  induction es generalizing l p with
  | nil => exact ⟨h.ok, rfl, rfl, rfl, h⟩
  | cons e es ih =>
    have hi := he e List.mem_cons_self
    obtain ⟨hsize, hversion⟩ := Page.exec_toHead hi p
    have hghost := exec_ghost l (l.group.first + ps.length) (Or.inr hi)
    have hle := h.sizes p (List.mem_append_right _ (List.mem_singleton_self p))
    obtain ⟨hg, ho⟩ := h.step (Store.ne_create (Or.inr hi)) hghost hversion (fun _ => hsize)
      (by rw [hsize]; exact hle)
    rw [← hnum] at hg ho hghost
    refine ⟨h.ok, hg, (ih ho (fun e he' => he e (List.mem_cons_of_mem _ he')) ?_).mono fun l' _ hl => ?_⟩
    · rw [hg.first]
      exact hnum
    · exact ⟨hl.1.trans hg.first, hl.2.1.trans hghost.2, hl.2.2.1.trans hghost.1, hl.2.2.2⟩

theorem foldl_inert (he : ∀ e ∈ es, e.inert = true) (p : Page) :
    (es.foldl Page.exec p).tail = p.tail ∧ (es.foldl Page.exec p).status = p.status ∧
      (es.foldl Page.exec p).fileSize = p.fileSize := by
  induction es generalizing p with
  | nil => exact ⟨rfl, rfl, rfl⟩
  | cons e es ih =>
    obtain ⟨h1, h2, h3, -, -⟩ := Page.exec_inert (he e List.mem_cons_self) p
    obtain ⟨h4, h5, h6⟩ := ih (fun e he' => he e (List.mem_cons_of_mem _ he')) (p.exec e)
    exact ⟨h4.trans h1, h5.trans h2, h6.trans h3⟩

theorem inert_dataStores (data : List UInt8) : ∀ e ∈ dataStores data, e.inert = true := by
  intro e he
  obtain ⟨x, -, rfl⟩ := List.mem_map.mp he
  rfl

/-- A frame: what it is made of, and the tail behind it. -/
theorem runs_frame {f : Frame} (h : Open bound l ps p fss₀ fs) (hs : p.status ≠ pageStatusFinish)
    (he : ∀ e ∈ es, e.inert = true) (hnum : num.toNat = l.group.first + ps.length)
    (hnext : l.next = some f) (hf : Stands (es.foldl Page.exec p).mem p.tail f)
    (hroom : p.tail + f.extent ≤ p.fileSize) :
    Runs bound (fun l' => l'.group.first = l.group.first ∧ l'.next = none ∧
      Open bound l' ps ((es ++ [Store.tail (p.tail + f.extent)]).foldl Page.exec p) fss₀ (fs ++ [f]))
      (inPage num (es ++ [Store.tail (p.tail + f.extent)])) l := by
  rw [inPage_append]
  refine along_append ((runs_inert h he hnum).mono fun l' _ hl => ?_)
  obtain ⟨hfirst, hn, ho⟩ := hl
  obtain ⟨htail, hstatus, hsize⟩ := foldl_inert he p
  obtain ⟨hg, ho'⟩ := Open.tail ho (by rw [hstatus]; exact hs) (hn.trans hnext)
    (by rw [htail]; exact hf) (by rw [htail, hsize]; exact hroom)
  rw [htail, hfirst, ← hnum] at hg ho'
  refine ⟨ho.ok, hg, ho'.ok, hg.first.trans hfirst, rfl, ?_⟩
  rw [List.foldl_append]
  exact ho'

theorem runs_close (nano : Nat) (h : Open bound l ps p fss₀ fs)
    (hnum : num.toNat = l.group.first + ps.length) :
    Runs bound (fun l' => l'.group.first = l.group.first ∧ l'.next = l.next ∧ l'.fss = l.fss ∧
      Closed bound l' ∧ l'.group.pages = ps ++ [p.close nano]) (inPage num (closeStores nano)) l := by
  obtain ⟨hg, ho⟩ := h.inert (e := .stopNano (toLong nano)) rfl
  obtain ⟨hg', hc, hpages⟩ := ho.finish
  rw [hg.first] at hg' hc hpages
  rw [← hnum] at hg ho hg' hc hpages
  exact ⟨h.ok, hg, ho.ok, hg', hc.ok, hg'.first.trans hg.first, rfl, rfl, hc, hpages⟩

/-- A new page: its file, its size and its head. -/
theorem runs_create {size : Nat} (nano : Nat) (h : Closed bound l) (hge : sizeofPageHead ≤ size)
    (hle : size ≤ bound) (hnum : num.toNat = l.group.first + l.group.pages.length) :
    Runs bound (fun l' => l'.group.first = l.group.first ∧ l'.next = l.next ∧
      Open bound l' l.group.pages (CRawIOWriter.newPage size nano) l.fss [])
      (inPage num ([.create, .truncate size] ++ headStores size nano)) l := by
  have hstores : inPage num ([.create, .truncate size] ++ headStores size nano) =
      (num.toNat, .create) :: (num.toNat, .truncate size) ::
        (inPage num (headFields size nano) ++ inPage num [.version pageHeadVer1]) := by
    rw [headStores, ← inPage_append]
    rfl
  rw [hstores]
  obtain ⟨hg, hr⟩ := h.create
  rw [← hnum] at hg hr
  obtain ⟨hg', hr'⟩ := hr.step (e := .truncate size) nofun ⟨rfl, rfl⟩ rfl
    (fun hle => absurd hle (by decide)) hle
  rw [hg.first, ← hnum] at hg' hr'
  have hfirst := hg'.first.trans hg.first
  refine ⟨h.ok, hg, hr.ok, hg', ?_⟩
  have hhead : ∀ e ∈ headFields size nano, e.toHead = true := by simp [headFields, Store.toHead]
  have hraw := runs_toHead hr' hhead (show num.toNat = _ by rw [hfirst]; exact hnum)
  refine along_append (hraw.mono fun l' _ hl => ?_)
  obtain ⟨hf, hn, hfss, hr''⟩ := hl
  have hbears : (((headFields size nano).foldl Page.exec
      (Page.exec { fileSize := 0 } (.truncate size))).exec (.version pageHeadVer1)).Bears [] := by
    refine ⟨?_, rfl, hge⟩
    rw [Page.checkPageHead, decide_eq_true_eq]
    exact ⟨rfl, rfl⟩
  obtain ⟨hg'', ho⟩ := hr''.version_store hbears
  rw [hf, hfirst, ← hnum] at hg'' ho
  exact ⟨hr''.ok, hg'', ho.ok, hg''.first.trans (hf.trans hfirst), hn, by rw [hfss] at ho; exact ho⟩

end Log

/-! ## Where a writer stands -/

open CRawIOWriter

/-- The writer has mapped the last page, which goes on. -/
structure Standing (bound : Nat) (l : Log) (w : CRawIOWriter) (ps : List Page) (p : Page)
    (fss₀ : List (List Frame)) (fs : List Frame) : Prop where
  pages : l.Open bound ps p fss₀ fs
  going : p.status ≠ pageStatusFinish
  onLast : OnLast w ps p
  group : w.group = l.group

/-- Sizes of 32 bits, and new pages with room for the head of a frame. -/
structure Sized (bound : Nat) (w : CRawIOWriter) : Prop where
  bound_lt : bound < 2 ^ 32
  pageSize_ge : sizeofPageHead + sizeofFrameHead ≤ w.pageSize
  pageSize_le : w.pageSize ≤ bound

variable {bound : Nat} {l l' : Log} {w w' : CRawIOWriter} {ps : List Page} {p p' : Page}
  {fss₀ : List (List Frame)} {fs : List Frame} {data : List UInt8} {now : Nat → Nat} {len : Nat}

theorem PageGroup.eq_of_pages {g g' : PageGroup} (hfirst : g.first = g'.first)
    (hpages : g.pages = g'.pages) : g = g' := by
  cases g
  cases g'
  simp only at hfirst hpages
  rw [hfirst, hpages]

theorem Standing.of_open (ho : l.Open bound ps p fss₀ fs) (hgoing : p.status ≠ pageStatusFinish)
    (hon : OnLast w ps p) (hfirst : w.group.first = l.group.first) : Standing bound l w ps p fss₀ fs :=
  ⟨ho, hgoing, hon, PageGroup.eq_of_pages hfirst (hon.pages.trans ho.pages.symm)⟩

theorem Standing.toNat_pageNum (h : Standing bound l w ps p fss₀ fs) :
    w.pageNum.toNat = l.group.first + ps.length := by
  rw [h.onLast.pageNum, h.group, Int.toNat_natCast]

theorem Standing.size_lt (h : Standing bound l w ps p fss₀ fs) (hs : Sized bound w) :
    p.fileSize < 2 ^ 32 := Nat.lt_of_le_of_lt h.pages.size_le hs.bound_lt

theorem Standing.tailBehind (h : Standing bound l w ps p fss₀ fs) (hs : Sized bound w)
    (hwrap : ¬Wraps p.tail len p.fileSize) (hfit : tailBehind p len ≤ p.fileSize) :
    tailBehind p len = p.tail + sizeofFrameHead + len :=
  tailBehind_of_le (h.size_lt hs) ((tailBehind_le_iff (h.size_lt hs) hwrap).mp hfit)

/-- What `prefetch` adds to a tail does not wrap, neither here nor in a new page. -/
structure NoWrap (len : Nat) (p : Page) (w : CRawIOWriter) : Prop where
  here : ¬Wraps p.tail len p.fileSize
  next : ¬Wraps sizeofPageHead len w.pageSize

/-- No sum of a call wraps. Before `write` goes to a new page it looks at the length. -/
def WriterOp.NoWrap (p : Page) (w : CRawIOWriter) : WriterOp → Prop
  | write data => ¬Wraps p.tail data.length p.fileSize
  | commit data => Io.NoWrap data.length p w
  | discard len _ => Io.NoWrap len p w

instance wrapsDecidable (tail len size : Nat) : Decidable (Wraps tail len size) :=
  inferInstanceAs (Decidable (_ ∧ _))

instance noWrapDecidable (len : Nat) (p : Page) (w : CRawIOWriter) : Decidable (Io.NoWrap len p w) :=
  decidable_of_iff (¬Wraps p.tail len p.fileSize ∧ ¬Wraps sizeofPageHead len w.pageSize)
    ⟨fun h => ⟨h.1, h.2⟩, fun h => ⟨h.here, h.next⟩⟩

instance opNoWrapDecidable (p : Page) (w : CRawIOWriter) : (op : WriterOp) → Decidable (op.NoWrap p w)
  | .write data => inferInstanceAs (Decidable ¬Wraps p.tail data.length p.fileSize)
  | .commit data => inferInstanceAs (Decidable (Io.NoWrap data.length p w))
  | .discard len _ => inferInstanceAs (Decidable (Io.NoWrap len p w))

/-- What a call of the writer leads to. -/
def Stays (bound : Nat) (w : CRawIOWriter) (l : Log) : Prop :=
  l.next = none ∧ ∃ ps p fss₀ fs, Standing bound l w ps p fss₀ fs

/-! ## The stores of a call -/

namespace Log

theorem frameStores_eq (data : List UInt8) (nano tail : Nat) : frameStores data nano tail =
    (dataStores data ++ [.len data.length, .magic frameHeadMagic, .nano nano,
      .lastNano (toLong nano)]) ++ [.tail tail] := by
  rw [frameStores, stampStores, List.append_assoc]
  rfl

/-- Stores behind the tail that make a frame, and its tail. -/
theorem runs_adds {q : Page} {f : Frame} {es : List Store} (h : Standing bound l w ps p fss₀ fs)
    (he : ∀ e ∈ es, e.inert = true)
    (hq : (es ++ [Store.tail (p.tail + f.extent)]).foldl Page.exec p = q) (hadds : p.Adds f q)
    (hon : OnLast w' ps q) (hfirst : w'.group.first = w.group.first) (hnext : l.next = some f) :
    Runs bound (Stays bound w') (inPage w.pageNum (es ++ [Store.tail (p.tail + f.extent)])) l := by
  have hfold : (es ++ [Store.tail (p.tail + f.extent)]).foldl Page.exec p =
      (es.foldl Page.exec p).exec (.tail (p.tail + f.extent)) := List.foldl_append
  have hstands : Stands (es.foldl Page.exec p).mem p.tail f := by
    have hmem : q.mem = (es.foldl Page.exec p).mem := by
      rw [← hq, hfold]
      rfl
    rw [← hmem]
    exact hadds.stands
  have hgoing : q.status ≠ pageStatusFinish := by
    have hstatus : q.status = p.status := by
      rw [← hq, hfold]
      exact (foldl_inert he p).2.1
    rw [hstatus]
    exact h.going
  have hroom : p.tail + f.extent ≤ p.fileSize := by
    rw [← hadds.fileSize, ← hadds.tail]
    exact hadds.room
  refine (runs_frame h.pages h.going he h.toNat_pageNum hnext hstands hroom).mono fun l' _ hl => ?_
  obtain ⟨hfirst', hnone, ho⟩ := hl
  rw [hq] at ho
  refine ⟨hnone, ps, q, fss₀, _, .of_open ho hgoing hon ?_⟩
  rw [hfirst, hfirst', h.group]

/-- A frame to the page that is mapped. -/
theorem runs_put (h : Standing bound l w ps p fss₀ fs) (hs : Sized bound w) (nano : Nat)
    (hroom : p.tail + sizeofFrameHead + data.length ≤ p.fileSize)
    (hnext : l.next = some ⟨nano % 2 ^ 64, data⟩) :
    Runs bound (Stays bound
      (w.store (put data (nano % 2 ^ 64) (p.tail + sizeofFrameHead + data.length))))
      (inPage w.pageNum (frameStores data (nano % 2 ^ 64) (p.tail + sizeofFrameHead + data.length))) l := by
  have hsize := h.size_lt hs
  have hlen : data.length < 2 ^ 32 := by omega
  have hadds := put_adds nano hlen hroom
  have hput := frameStores_put data (nano % 2 ^ 64) (p.tail + sizeofFrameHead + data.length) p
  rw [frameStores_eq] at hput ⊢
  rw [Nat.add_assoc] at hadds hput ⊢
  refine runs_adds h (fun e he => ?_) hput hadds (h.onLast.store rfl) rfl hnext
  rcases List.mem_append.mp he with he | he
  · exact inert_dataStores data e he
  · simp only [List.mem_cons, List.not_mem_nil, or_false] at he
    rcases he with rfl | rfl | rfl | rfl <;> rfl

theorem createStores_new (nano : Nat)
    (hnum : w.pageNum + 1 = (w.group.first + w.group.pages.length : Nat)) :
    createStores nano w =
      inPage (w.pageNum + 1) ([.create, .truncate w.pageSize] ++ headStores w.pageSize nano) := by
  have hfile : w.group.file (w.pageNum + 1).toNat = none := by
    rw [hnum, Int.toNat_natCast, PageGroup.file_add]
    exact List.getElem?_eq_none (Nat.le_refl _)
  unfold createStores loadStores
  rw [load_new hnum, hfile]
  dsimp only
  rw [if_pos rfl, inPage_append]

theorem newPage_going {size nano : Nat} : (newPage size nano).status ≠ pageStatusFinish :=
  Nat.zero_ne_one

/-- The page behind the last one, where all are finished. -/
theorem runs_new (nano : Nat) (h : Closed bound l) (hs : Sized bound w) (hgroup : w.group = l.group)
    (hnum : w.pageNum + 1 = (w.group.first + w.group.pages.length : Nat)) :
    (createNextPage true nano w).2 = true ∧
      (createNextPage true nano w).1.pageSize = w.pageSize ∧
      Runs bound (fun l' => l'.next = l.next ∧ Standing bound l' (createNextPage true nano w).1
        l.group.pages (newPage w.pageSize nano) l.fss []) (createStores nano w) l := by
  obtain ⟨w', hw', hsize, hfirst, hon⟩ := createNextPage_new nano hnum
  rw [createStores_new nano hnum, hw']
  refine ⟨rfl, hsize, ?_⟩
  have hge := hs.pageSize_ge
  simp only [sizeofFrameHead] at hge
  have hrun := runs_create nano h (by omega) hs.pageSize_le
    (show (w.pageNum + 1).toNat = _ by rw [hnum, hgroup, Int.toNat_natCast])
  refine hrun.mono fun l' _ hl => ⟨hl.2.1, .of_open hl.2.2 newPage_going ?_ ?_⟩
  · rw [← hgroup]
    exact hon
  · rw [hfirst, hl.1, hgroup]

/-- The page is closed and the next one made. -/
theorem runs_rollOver (h : Standing bound l w ps p fss₀ fs) (hs : Sized bound w) (now : Nat → Nat) :
    (w.rollOver true now).2 = true ∧ (w.rollOver true now).1.pageSize = w.pageSize ∧
      Runs bound (fun l' => l'.next = l.next ∧ Standing bound l' (w.rollOver true now).1
        (ps ++ [p.close (now 0)]) (newPage w.pageSize (now 1)) (fss₀ ++ [fs]) [])
        (rollOverStores now w) l := by
  have hclosed := h.onLast.store (f := Page.close (now 0)) rfl
  have hnum : (w.store (Page.close (now 0))).unload.pageNum + 1 =
      ((w.store (Page.close (now 0))).unload.group.first +
        (w.store (Page.close (now 0))).unload.group.pages.length : Nat) := by
    have hlast := hclosed.pageNum
    simp only [unload, hclosed.pages, List.length_append, List.length_singleton]
    omega
  have hs' : Sized bound (w.store (Page.close (now 0))).unload :=
    ⟨hs.bound_lt, hs.pageSize_ge, hs.pageSize_le⟩
  have hclose := runs_close (now 0) h.pages h.toNat_pageNum
  have hnew : ∀ l' : Log, l'.group.first = l.group.first → l'.group.pages = ps ++ [p.close (now 0)] →
      (w.store (Page.close (now 0))).unload.group = l'.group := by
    intro l' hfirst hpages
    refine PageGroup.eq_of_pages ?_ (hclosed.pages.trans hpages.symm)
    rw [hfirst, ← h.group]
    rfl
  obtain ⟨w', hw', hsize, -, -⟩ := createNextPage_new (now 1) hnum
  refine ⟨congrArg Prod.snd hw', (congrArg (fun r => r.1.pageSize) hw').trans hsize, ?_⟩
  refine along_append (hclose.mono fun l' _ hl => ?_)
  obtain ⟨hfirst, hnext, hfss, hc, hpages⟩ := hl
  have hrun := (runs_new (now 1) hc hs' (hnew l' hfirst hpages) hnum).2.2
  refine hrun.mono fun l'' _ hl => ⟨hl.1.trans hnext, ?_⟩
  have hst := hl.2
  rw [hpages, hfss, h.pages.fss] at hst
  exact hst

/-! ## `write` -/

/-- Where the frame fits. -/
theorem runs_write_here {n : Nat} (h : Standing bound l w ps p fss₀ fs) (hs : Sized bound w)
    (hwrap : ¬Wraps p.tail data.length p.fileSize)
    (hfit : CRawIOWriter.tailBehind p data.length ≤ p.fileSize)
    (hnext : l.next = some ⟨now 0 % 2 ^ 64, data⟩) :
    Runs bound
      (Stays bound (w.store (put data (now 0 % 2 ^ 64) (CRawIOWriter.tailBehind p data.length))))
      (writeStores data (n + 1) now w) l := by
  have htail := h.tailBehind hs hwrap hfit
  have hrun := runs_put h hs (now 0) (by rw [← htail]; exact hfit) hnext
  rw [← htail] at hrun
  rw [writeStores, h.onLast.mapped]
  dsimp only
  rw [h.onLast.size, if_pos hfit]
  exact hrun

/-- Where it does not, the page is left. -/
theorem write_far (h : Standing bound l w ps p fss₀ fs) (hs : Sized bound w)
    (hgt : ¬CRawIOWriter.tailBehind p data.length ≤ p.fileSize) :
    (write true data 2 now w = if data.length ≤ w.pageSize - (sizeofPageHead + sizeofFrameHead)
      then write true data 1 (fun k => now (k + 2)) (w.rollOver true now).1
      else some ((w.rollOver true now).1, false)) ∧
    writeStores data 2 now w = rollOverStores now w ++
      if data.length ≤ w.pageSize - (sizeofPageHead + sizeofFrameHead)
      then writeStores data 1 (fun k => now (k + 2)) (w.rollOver true now).1 else [] := by
  obtain ⟨w', hw', hpageSize, -, hon⟩ := h.onLast.rollOver_true now
  have hmod : (w'.size + 2 ^ 64 - sizeofPageHead - sizeofFrameHead) % 2 ^ 64 =
      w.pageSize - (sizeofPageHead + sizeofFrameHead) := by
    have hsize : w'.size = w.pageSize := hon.size
    have hge := hs.pageSize_ge
    have hle := hs.pageSize_le
    have hbound := hs.bound_lt
    simp only [sizeofPageHead, sizeofFrameHead] at *
    omega
  constructor
  · rw [write, h.onLast.mapped]
    dsimp only
    rw [h.onLast.size, if_neg hgt, hw']
    dsimp only
    rw [if_neg (by decide), hmod]
  · rw [writeStores, h.onLast.mapped]
    dsimp only
    rw [h.onLast.size, if_neg hgt, hw']
    dsimp only
    rw [hmod]
    simp only [true_and]

theorem frameTime_eq (h : Standing bound l w ps p fss₀ fs) (now : Nat → Nat) (len : Nat) :
    WriterOp.frameTime now len w =
      (if CRawIOWriter.tailBehind p len ≤ p.fileSize then now 0 else now 2) % 2 ^ 64 := by
  rw [WriterOp.frameTime, h.onLast.mapped]
  dsimp only
  rw [h.onLast.size]

theorem runs_write (h : Standing bound l w ps p fss₀ fs) (hs : Sized bound w)
    (hwrap : ¬Wraps p.tail data.length p.fileSize)
    (hnext : l.next = ((WriterOp.write data).apply now w).2) :
    ((WriterOp.write data).apply now w).1.pageSize = w.pageSize ∧
      Runs bound (Stays bound ((WriterOp.write data).apply now w).1)
        ((WriterOp.write data).stores now w) l := by
  have htime := frameTime_eq h now data.length
  by_cases hfit : CRawIOWriter.tailBehind p data.length ≤ p.fileSize
  · rw [if_pos hfit] at htime
    have hwrite : write true data 2 now w = _ := write_here h.onLast hfit
    rw [WriterOp.apply, hwrite] at hnext ⊢
    rw [htime] at hnext
    exact ⟨rfl, runs_write_here h hs hwrap hfit hnext⟩
  · rw [if_neg hfit] at htime
    obtain ⟨hwrite, hstores⟩ := write_far h hs hfit
    obtain ⟨-, hsize, hrun⟩ := runs_rollOver h hs now
    obtain ⟨now', hnow⟩ : ∃ now' : Nat → Nat, now' = fun k => now (k + 2) := ⟨_, rfl⟩
    have hlater : now 2 = now' 0 := by rw [hnow]
    rw [← hnow] at hwrite hstores
    have hs' : Sized bound (w.rollOver true now).1 :=
      ⟨hs.bound_lt, by rw [hsize]; exact hs.pageSize_ge, by rw [hsize]; exact hs.pageSize_le⟩
    rw [WriterOp.stores, hstores]
    by_cases hnew : data.length ≤ w.pageSize - (sizeofPageHead + sizeofFrameHead)
    · rw [if_pos hnew] at hwrite ⊢
      have hge := hs.pageSize_ge
      have hroom : sizeofPageHead + sizeofFrameHead + data.length ≤ w.pageSize := by omega
      have hnext' : ¬Wraps sizeofPageHead data.length w.pageSize := by
        have hle := hs.pageSize_le
        have hbound := hs.bound_lt
        unfold Wraps
        omega
      have hfit' : CRawIOWriter.tailBehind (newPage w.pageSize (now 1)) data.length ≤
          (newPage w.pageSize (now 1)).fileSize := by
        exact (tailBehind_le_iff (hrun.last.2.size_lt hs') hnext').mpr hroom
      rw [write_here hrun.last.2.onLast hfit'] at hwrite
      rw [WriterOp.apply, hwrite] at hnext ⊢
      rw [htime] at hnext
      refine ⟨hsize, along_append (hrun.mono fun l' _ hl => ?_)⟩
      exact runs_write_here hl.2 hs' hnext' hfit' (by rw [hl.1, hnext, hlater]; rfl)
    · rw [if_neg hnew] at hwrite ⊢
      rw [List.append_nil, WriterOp.apply, hwrite]
      rw [WriterOp.apply, hwrite] at hnext
      exact ⟨hsize, hrun.mono fun l' _ hl => ⟨hl.1.trans hnext, _, _, _, _, hl.2⟩⟩

/-! ## `prefetch` -/

theorem standing_prefetchTail (h : Standing bound l w ps p fss₀ fs) (n : Nat) :
    Standing bound l { w with prefetchTail := n } ps p fss₀ fs :=
  ⟨h.pages, h.going, ⟨h.onLast.fd, h.onLast.pages, h.onLast.pageNum, h.onLast.size⟩, h.group⟩

/-- A page that the writer has come to is asked for room. -/
theorem prefetch_far (h : OnLast w ps p) (hgt : ¬CRawIOWriter.tailBehind p len ≤ p.fileSize)
    {w₀ w₁ : CRawIOWriter} {ps₁ : List Page} {p₁ : Page}
    (hw₀ : w₀ = { w with prefetchTail := CRawIOWriter.tailBehind p len })
    (hok : (w₀.rollOver true now).2 = true) (hon : OnLast (w₀.rollOver true now).1 ps₁ p₁)
    (hw₁ : w₁ = { (w₀.rollOver true now).1 with prefetchTail := CRawIOWriter.tailBehind p₁ len }) :
    prefetch true now len w = (if w₁.prefetchTail ≤ p₁.fileSize
        then (w₁.store (Page.setLen len), some (p₁.tail + sizeofFrameHead)) else (w₁, none)) ∧
      prefetchStores now len w = rollOverStores now w₀ ++ (if w₁.prefetchTail ≤ p₁.fileSize
        then inPage w₁.pageNum [.len len] else []) := by
  have hsize := hon.size
  constructor
  · rw [prefetch, h.mapped]
    dsimp only
    rw [if_neg (by rw [h.size]; exact hgt), ← hw₀, hok, hon.mapped]
    dsimp only
    rw [if_neg (by decide)]
    subst hw₁
    by_cases hle : CRawIOWriter.tailBehind p₁ len ≤ p₁.fileSize
    · rw [if_pos hle, if_pos (by rw [hsize]; exact hle)]
    · rw [if_neg hle, if_neg (by rw [hsize]; exact hle)]
  · rw [prefetchStores, h.mapped]
    dsimp only
    rw [if_neg (by rw [h.size]; exact hgt), ← hw₀, hok, hon.mapped]
    dsimp only
    rw [hsize, hw₁]
    simp only [true_and]

/-- First the page where the frame may go, then its length if it fits there. -/
theorem runs_prefetch (h : Standing bound l w ps p fss₀ fs) (hs : Sized bound w) (now : Nat → Nat)
    (hwrap : Io.NoWrap len p w) :
    ∃ (w₁ : CRawIOWriter) (ps₁ : List Page) (p₁ : Page) (fss₁ : List (List Frame)) (fs₁ : List Frame)
      (es : List (Nat × Store)), w₁.pageSize = w.pageSize ∧
      Runs bound (fun l' => l'.next = l.next ∧ Standing bound l' w₁ ps₁ p₁ fss₁ fs₁) es l ∧
      (w₁.prefetchTail ≤ p₁.fileSize → w₁.prefetchTail = p₁.tail + sizeofFrameHead + len) ∧
      prefetch true now len w = (if w₁.prefetchTail ≤ p₁.fileSize
        then (w₁.store (Page.setLen len), some (p₁.tail + sizeofFrameHead)) else (w₁, none)) ∧
      prefetchStores now len w = es ++ (if w₁.prefetchTail ≤ p₁.fileSize
        then inPage w₁.pageNum [.len len] else []) := by
  obtain ⟨w₀, hw₀⟩ : ∃ w₀ : CRawIOWriter,
      w₀ = { w with prefetchTail := CRawIOWriter.tailBehind p len } := ⟨_, rfl⟩
  have h₀ : Standing bound l w₀ ps p fss₀ fs := by
    rw [hw₀]
    exact standing_prefetchTail h _
  have hpage : w₀.pageSize = w.pageSize := by rw [hw₀]
  have htail : w₀.prefetchTail ≤ p.fileSize → w₀.prefetchTail = p.tail + sizeofFrameHead + len := by
    rw [hw₀]
    exact h.tailBehind hs hwrap.here
  by_cases hfit : CRawIOWriter.tailBehind p len ≤ p.fileSize
  · have hfit' : w₀.prefetchTail ≤ p.fileSize := by
      rw [hw₀]
      exact hfit
    refine ⟨w₀, ps, p, fss₀, fs, [], hpage, ⟨h.pages.ok, rfl, h₀⟩, htail, ?_, ?_⟩
    · rw [prefetch_here h.onLast hfit, if_pos hfit', hw₀]
    · rw [prefetchStores, h.onLast.mapped, List.nil_append]
      dsimp only
      rw [h.onLast.size, if_pos hfit, if_pos hfit', hw₀]
  · have hs₀ : Sized bound w₀ :=
      ⟨hs.bound_lt, by rw [hpage]; exact hs.pageSize_ge, by rw [hpage]; exact hs.pageSize_le⟩
    obtain ⟨hok, hsize, hrun⟩ := runs_rollOver h₀ hs₀ now
    have hs₁ : Sized bound (w₀.rollOver true now).1 :=
      ⟨hs.bound_lt, by rw [hsize]; exact hs₀.pageSize_ge, by rw [hsize]; exact hs₀.pageSize_le⟩
    obtain ⟨w₁, hw₁⟩ : ∃ w₁ : CRawIOWriter, w₁ = { (w₀.rollOver true now).1 with
        prefetchTail := CRawIOWriter.tailBehind (newPage w₀.pageSize (now 1)) len } := ⟨_, rfl⟩
    obtain ⟨hprefetch, hstores⟩ := prefetch_far h.onLast hfit hw₀ hok hrun.last.2.onLast hw₁
    refine ⟨w₁, ps ++ [p.close (now 0)], newPage w₀.pageSize (now 1), fss₀ ++ [fs], [],
      rollOverStores now w₀, by rw [hw₁]; exact hsize.trans hpage, hrun.mono fun l' _ hl => ⟨hl.1, ?_⟩, ?_, hprefetch, hstores⟩
    · rw [hw₁]
      exact standing_prefetchTail hl.2 _
    · rw [hw₁]
      exact hrun.last.2.tailBehind hs₁ (by rw [hpage]; exact hwrap.next)

theorem fetchedStores_eq (data : List UInt8) (nano tail : Nat) :
    .len data.length :: (dataStores data ++ stampStores nano tail) =
      (.len data.length :: (dataStores data ++ [.magic frameHeadMagic, .nano nano,
        .lastNano (toLong nano)])) ++ [Store.tail tail] := by
  rw [stampStores, List.cons_append, List.append_assoc]
  rfl

theorem fetchedStores_put (data : List UInt8) (nano tail : Nat) (p : Page) :
    (Store.len data.length :: (dataStores data ++ stampStores nano tail)).foldl Page.exec p =
      ((p.setLen data.length).fill data).stamp nano tail := by
  rw [List.foldl_cons, List.foldl_append, dataStores_fill, stampStores_stamp]
  rfl

/-- The room that has been offered is filled and committed. -/
theorem runs_fetched (h : Standing bound l w ps p fss₀ fs) (hs : Sized bound w) {nano : Nat}
    (hnano : nano < 2 ^ 64) (htail : w.prefetchTail = p.tail + sizeofFrameHead + data.length)
    (hroom : w.prefetchTail ≤ p.fileSize) (hnext : l.next = some ⟨nano, data⟩) :
    Runs bound
      (Stays bound (((w.store (Page.setLen data.length)).store (Page.fill data)).commit nano))
      (inPage w.pageNum (.len data.length :: (dataStores data ++ stampStores nano w.prefetchTail))) l := by
  have hsize := h.size_lt hs
  have hoffers : p.Offers data.length _ _ _ := setLen_offers (by omega) (by omega)
  rw [← htail] at hoffers
  have hadds := adds_of_offers nano hoffers
  have hput := fetchedStores_put data nano w.prefetchTail p
  have hon := ((h.onLast.store (f := Page.setLen data.length) rfl).store (f := Page.fill data) rfl).store
    (f := Page.stamp (nano % 2 ^ 64) w.prefetchTail) rfl
  rw [Nat.mod_eq_of_lt hnano] at hadds hon
  have hcommit : ((w.store (Page.setLen data.length)).store (Page.fill data)).commit nano =
      (((w.store (Page.setLen data.length)).store (Page.fill data)).store
        (Page.stamp nano w.prefetchTail)) := by
    rw [commit, Nat.mod_eq_of_lt hnano]
    rfl
  rw [hcommit]
  rw [fetchedStores_eq] at hput ⊢
  have hext : w.prefetchTail = p.tail + (Frame.mk nano data).extent := by
    rw [htail, Nat.add_assoc]
    rfl
  rw [hext] at hput hadds hon ⊢
  refine runs_adds h (fun e he => ?_) hput hadds hon rfl hnext
  rcases List.mem_cons.mp he with rfl | he
  · rfl
  rcases List.mem_append.mp he with he | he
  · exact inert_dataStores data e he
  · simp only [List.mem_cons, List.not_mem_nil, or_false] at he
    rcases he with rfl | rfl | rfl <;> rfl

theorem runs_commit (h : Standing bound l w ps p fss₀ fs) (hs : Sized bound w)
    (hwrap : Io.NoWrap data.length p w) (hnext : l.next = ((WriterOp.commit data).apply now w).2) :
    ((WriterOp.commit data).apply now w).1.pageSize = w.pageSize ∧
      Runs bound (Stays bound ((WriterOp.commit data).apply now w).1)
        ((WriterOp.commit data).stores now w) l := by
  obtain ⟨w₁, ps₁, p₁, fss₁, fs₁, es, hsize, hrun, htail, hprefetch, hstores⟩ :=
    runs_prefetch h hs now hwrap
  have hs₁ : Sized bound w₁ :=
    ⟨hs.bound_lt, by rw [hsize]; exact hs.pageSize_ge, by rw [hsize]; exact hs.pageSize_le⟩
  have hnano : WriterOp.frameTime now data.length w < 2 ^ 64 := by
    rw [frameTime_eq h]
    exact Nat.mod_lt _ (Nat.two_pow_pos 64)
  rw [WriterOp.apply] at hnext ⊢
  rw [WriterOp.stores]
  by_cases hroom : w₁.prefetchTail ≤ p₁.fileSize
  · rw [if_pos hroom] at hprefetch hstores
    rw [hprefetch] at hnext ⊢
    dsimp only [Option.isSome_some] at hnext ⊢
    rw [if_pos rfl, hstores, List.append_assoc, store_pageNum, store_prefetchTail, ← inPage_append]
    exact ⟨hsize, along_append (hrun.mono fun l' _ hl =>
      runs_fetched hl.2 hs₁ hnano (htail hroom) hroom (hl.1.trans hnext))⟩
  · rw [if_neg hroom] at hprefetch hstores
    rw [hprefetch] at hnext ⊢
    dsimp only [Option.isSome_none] at hnext ⊢
    rw [if_neg (by decide), hstores, List.append_nil, List.append_nil]
    exact ⟨hsize, hrun.mono fun l' _ hl => ⟨hl.1.trans hnext, _, _, _, _, hl.2⟩⟩

theorem runs_discard (h : Standing bound l w ps p fss₀ fs) (hs : Sized bound w) (hwrap : Io.NoWrap len p w)
    (hnext : l.next = none) :
    ((WriterOp.discard len data).apply now w).1.pageSize = w.pageSize ∧
      Runs bound (Stays bound ((WriterOp.discard len data).apply now w).1)
        ((WriterOp.discard len data).stores now w) l := by
  obtain ⟨w₁, ps₁, p₁, fss₁, fs₁, es, hsize, hrun, -, hprefetch, hstores⟩ :=
    runs_prefetch h hs now hwrap
  rw [WriterOp.apply, WriterOp.stores]
  by_cases hroom : w₁.prefetchTail ≤ p₁.fileSize
  · rw [if_pos hroom] at hprefetch hstores
    rw [hprefetch]
    dsimp only [Option.isSome_some]
    rw [if_pos rfl, if_pos rfl, hstores, List.append_assoc, store_pageNum, ← inPage_append]
    refine ⟨hsize, along_append (hrun.mono fun l' _ hl => ?_)⟩
    obtain ⟨hnext', hst⟩ := hl
    have hinert : ∀ e ∈ [Store.len len] ++ dataStores data, e.inert = true := by
      intro e he
      rcases List.mem_append.mp he with he | he
      · rw [List.mem_singleton.mp he]
        rfl
      · exact inert_dataStores data e he
    have hfold : ([Store.len len] ++ dataStores data).foldl Page.exec p₁ =
        (p₁.setLen len).fill data := by
      rw [List.foldl_append, dataStores_fill]
      rfl
    have hon := (hst.onLast.store (f := Page.setLen len) rfl).store (f := Page.fill data) rfl
    refine (runs_inert hst.pages hinert hst.toNat_pageNum).mono fun l'' _ hl => ?_
    obtain ⟨hfirst, hnone, ho⟩ := hl
    rw [hfold] at ho
    refine ⟨hnone.trans (hnext'.trans hnext), ps₁, _, fss₁, fs₁, .of_open ho hst.going hon ?_⟩
    rw [hfirst, ← hst.group]
    rfl
  · rw [if_neg hroom] at hprefetch hstores
    rw [hprefetch]
    dsimp only [Option.isSome_none]
    rw [if_neg (by decide), if_neg (by decide), hstores, List.append_nil, List.append_nil]
    exact ⟨hsize, hrun.mono fun l' _ hl => ⟨hl.1.trans hnext, _, _, _, _, hl.2⟩⟩

end Log

/-- A call of a writer that stands on the last page, store by store. -/
theorem WriterOp.runs {op : WriterOp} (h : Standing bound l w ps p fss₀ fs) (hs : Sized bound w)
    (hwrap : op.NoWrap p w) (hnext : l.next = (op.apply now w).2) :
    Sized bound (op.apply now w).1 ∧
      Log.Runs bound (Stays bound (op.apply now w).1) (op.stores now w) l := by
  have hcall : (op.apply now w).1.pageSize = w.pageSize ∧
      Log.Runs bound (Stays bound (op.apply now w).1) (op.stores now w) l := by
    cases op with
    | write data => exact Log.runs_write h hs hwrap hnext
    | commit data => exact Log.runs_commit h hs hwrap hnext
    | discard len data => exact Log.runs_discard h hs hwrap hnext
  refine ⟨⟨hs.bound_lt, ?_, ?_⟩, hcall.2⟩
  · rw [hcall.1]
    exact hs.pageSize_ge
  · rw [hcall.1]
    exact hs.pageSize_le

/-! ## `init` -/

/-- Pages that nobody stores to: the last one goes on, or all are finished. -/
def Log.Rests (bound : Nat) (l : Log) : Prop :=
  l.Closed bound ∨ ∃ ps p fss₀ fs, l.Open bound ps p fss₀ fs ∧ p.status ≠ pageStatusFinish

theorem Stays.rests (h : Stays bound w l) : l.Rests bound := by
  obtain ⟨-, ps, p, fss₀, fs, hst⟩ := h
  exact Or.inr ⟨ps, p, fss₀, fs, hst.pages, hst.going⟩

theorem Log.Rests.ok (h : l.Rests bound) : l.Ok bound := by
  obtain hc | ⟨ps, p, fss₀, fs, ho, -⟩ := h
  · exact hc.ok
  · exact ho.ok

theorem Log.front_of_carries {ps : List Page} {fss : List (List Frame)} (hlen : ps.length = fss.length)
    (h : ∀ (k : Nat) (p : Page) (fs : List Frame), ps[k]? = some p → fss[k]? = some fs →
      p.Bears fs ∧ p.status = pageStatusFinish) : Front ps fss :=
  List.forall₂_iff_get.mpr ⟨hlen, fun k hp hf =>
    h k _ _ (List.getElem?_eq_getElem hp) (List.getElem?_eq_getElem hf)⟩

/-- Pages that all have their heads may be left as they are. -/
theorem Log.Ok.rests (h : l.Ok bound) (hheaded : ∀ p ∈ l.group.pages, p.version = pageHeadVer1) :
    l.Rests bound := by
  have hlen : l.group.pages.length = l.fss.length := by
    refine Nat.le_antisymm ?_ h.carries.le_length
    by_contra hlt
    have hget : l.group.pages[l.fss.length]? = some _ := List.getElem?_eq_getElem (Nat.not_le.mp hlt)
    exact h.carries.raw hget (Nat.le_refl _) (hheaded _ (List.mem_of_getElem? hget))
  have hbears : ∀ (k : Nat) (p : Page) (fs : List Frame), l.group.pages[k]? = some p →
      l.fss[k]? = some fs → p.Bears fs := by
    intro k p fs hp hf
    obtain ⟨q, hq, hb⟩ := h.carries.bears hf
    obtain rfl : p = q := by rw [hp] at hq; simpa using hq
    exact hb
  rcases List.eq_nil_or_concat l.group.pages with hnil | ⟨ps, p, hp⟩
  · refine Or.inl ⟨Log.front_of_carries hlen fun k q fs hq _ => ?_, h.sizes, h.first⟩
    rw [hnil] at hq
    cases hq
  · rw [List.concat_eq_append] at hp
    by_cases hs : p.status = pageStatusFinish
    · refine Or.inl ⟨Log.front_of_carries hlen fun k q fs hq hf => ⟨hbears k q fs hq hf, ?_⟩, h.sizes,
        h.first⟩
      rcases Nat.lt_or_ge (k + 1) l.group.pages.length with hk | hk
      · exact h.carries.finished hq hk
      · have hlt := (List.getElem?_eq_some_iff.mp hq).1
        have hkeq : k = ps.length := by
          rw [hp, List.length_append, List.length_singleton] at hk hlt
          omega
        rw [hp, hkeq] at hq
        obtain rfl : p = q := by simpa using hq
        exact hs
    · have hne : l.fss ≠ [] := by
        intro hnil
        rw [hp, hnil] at hlen
        simp at hlen
      obtain ⟨fss₀, fs, hf⟩ : ∃ fss₀ fs, l.fss = fss₀ ++ [fs] :=
        ⟨_, _, (List.dropLast_append_getLast hne).symm⟩
      have hlen' : ps.length = fss₀.length := by
        rw [hp, hf] at hlen
        simpa using hlen
      refine Or.inr ⟨ps, p, fss₀, fs, ⟨hp, hf, Log.front_of_carries hlen' fun k q gs hq hg => ?_, ?_, ?_⟩, hs⟩
      · have hk := (List.getElem?_eq_some_iff.mp hq).1
        have hk' := (List.getElem?_eq_some_iff.mp hg).1
        have hq' : l.group.pages[k]? = some q := by
          rw [hp, List.getElem?_append_left hk]
          exact hq
        refine ⟨hbears k q gs hq' ?_, h.carries.finished hq' ?_⟩
        · rw [hf, List.getElem?_append_left hk']
          exact hg
        · rw [hp, List.length_append, List.length_singleton]
          omega
      · refine hbears ps.length p fs ?_ ?_
        · rw [hp]
          simp
        · rw [hf, hlen']
          simp
      · rw [← hp]
        exact h.sizes

/-- Opening the last page, which is there with its head. -/
theorem load_last (hp : w.group.pages = ps ++ [p]) (hb : p.Bears fs) :
    w.load true (w.group.first + ps.length : Nat) = ({ w with fd := true, size := p.fileSize }, true) ∧
      w.loadStores (w.group.first + ps.length : Nat) = [] := by
  have hsize : ¬p.fileSize < sizeofPageHead := Nat.not_lt.mpr hb.fileSize_ge
  constructor
  · rw [load, Int.toNat_natCast, file_last hp]
    dsimp only
    rw [if_neg (by decide), if_neg hsize, if_neg (by rw [hb.head]; decide)]
  · rw [loadStores, Int.toNat_natCast, file_last hp]
    dsimp only
    rw [if_neg hsize]

theorem getTailNum_last {g : PageGroup} (hp : g.pages = ps ++ [p]) :
    g.getTailNum = (g.first + ps.length : Nat) := by
  rw [PageGroup.getTailNum, if_neg (by rw [hp]; simp), hp, List.length_append, List.length_singleton]
  omega

/-- `init` where there is a page. -/
theorem init_last (nano : Nat) (hp : w.group.pages = ps ++ [p]) (hb : p.Bears fs) :
    let w₁ : CRawIOWriter :=
      { w with pageNum := (w.group.first + ps.length : Nat), fd := true, size := p.fileSize }
    OnLast w₁ ps p ∧
    init true nano w = (if p.status = pageStatusFinish then createNextPage true nano w₁.unload
      else (w₁, true)) ∧
    initStores nano w = if p.status = pageStatusFinish then createStores nano w₁.unload else [] := by
  intro w₁
  have hon : OnLast w₁ ps p := ⟨rfl, hp, rfl, rfl⟩
  obtain ⟨w₀, hw₀⟩ : ∃ w₀ : CRawIOWriter,
      w₀ = { w.unload with pageNum := (w.group.first + ps.length : Nat) } := ⟨_, rfl⟩
  have hlast : w₀.load true (w.group.first + ps.length : Nat) = (w₁, true) ∧
      w₀.loadStores (w.group.first + ps.length : Nat) = [] := by
    have hl := load_last (w := w₀) (by rw [hw₀]; exact hp) hb
    rw [hw₀] at hl ⊢
    exact hl
  have hnum : (0 : Int) ≤ (w.group.first + ps.length : Nat) := Int.natCast_nonneg _
  have hstatus : ((w₁.mapped).map Page.status).getD 0 = p.status := by
    rw [hon.mapped]
    rfl
  refine ⟨hon, ?_, ?_⟩
  · have hinit : init true nano w =
        let res := w₀.load true (w.group.first + ps.length : Nat)
        if !res.2 then (res.1, false)
        else if (res.1.mapped.map Page.status).getD 0 = pageStatusFinish then
          createNextPage true nano res.1.unload
        else (res.1, true) := by
      rw [init, getTailNum_last (g := w.group) hp, hw₀]
      exact if_pos hnum
    rw [hinit, hlast.1]
    dsimp only
    rw [if_neg (by decide), hstatus]
  · have hinit : initStores nano w =
        let res := w₀.load true (w.group.first + ps.length : Nat)
        w₀.loadStores (w.group.first + ps.length : Nat) ++
          if res.2 ∧ (res.1.mapped.map Page.status).getD 0 = pageStatusFinish then
            createStores nano res.1.unload
          else [] := by
      rw [initStores, getTailNum_last (g := w.group) hp, hw₀]
      exact if_pos hnum
    rw [hinit, hlast.1, hlast.2]
    dsimp only
    rw [hstatus, List.nil_append]
    simp only [true_and]

/-- Opening the pages as they have been left. -/
theorem runs_init (nano : Nat) (h : l.Rests bound) (hs : Sized bound w) (hgroup : w.group = l.group)
    (hnext : l.next = none) :
    (init true nano w).2 = true ∧ Sized bound (init true nano w).1 ∧
      Log.Runs bound (Stays bound (init true nano w).1) (initStores nano w) l := by
  have hsized : ∀ w' : CRawIOWriter, w'.pageSize = w.pageSize → Sized bound w' := by
    intro w' hw'
    exact ⟨hs.bound_lt, by rw [hw']; exact hs.pageSize_ge, by rw [hw']; exact hs.pageSize_le⟩
  obtain hc | ⟨ps, p, fss₀, fs, ho, hgoing⟩ := h
  · have hnew : ∀ w' : CRawIOWriter, w'.group = l.group → w'.pageSize = w.pageSize →
        w'.pageNum + 1 = (w'.group.first + w'.group.pages.length : Nat) →
        (createNextPage true nano w').2 = true ∧ Sized bound (createNextPage true nano w').1 ∧
          Log.Runs bound (Stays bound (createNextPage true nano w').1) (createStores nano w') l := by
      intro w' hgroup' hsize hnum
      obtain ⟨hok, hsize', hrun⟩ := Log.runs_new nano hc (hsized w' hsize) hgroup' hnum
      exact ⟨hok, hsized _ (hsize'.trans hsize),
        hrun.mono fun l' _ hl => ⟨hl.1.trans hnext, _, _, _, _, hl.2⟩⟩
    rcases List.eq_nil_or_concat l.group.pages with hnil | ⟨ps, p, hp⟩
    · have htail : w.group.getTailNum = -1 := by rw [hgroup, PageGroup.getTailNum, if_pos hnil]
      have hfirst := hc.first hnil
      rw [init, initStores, htail]
      dsimp only
      rw [if_neg (by decide), if_neg (by decide)]
      refine hnew _ hgroup rfl ?_
      dsimp only [unload]
      rw [hgroup, hnil, hfirst]
      rfl
    · rw [List.concat_eq_append] at hp
      obtain ⟨fs, -, hb, hstatus⟩ := Log.front_get hc.front (k := ps.length) (p := p) (by rw [hp]; simp)
      obtain ⟨hon, hinit, hstores⟩ := init_last nano (by rw [hgroup]; exact hp) hb
      rw [if_pos hstatus] at hinit hstores
      rw [hinit, hstores]
      refine hnew _ hgroup rfl ?_
      dsimp only [unload]
      rw [hgroup, hp, List.length_append, List.length_singleton]
      omega
  · obtain ⟨hon, hinit, hstores⟩ := init_last nano (by rw [hgroup]; exact ho.pages) ho.bears
    rw [if_neg hgoing] at hinit hstores
    rw [hinit, hstores]
    refine ⟨rfl, hsized _ rfl, ho.ok, hnext, ps, p, fss₀, fs, .of_open ho hgoing hon ?_⟩
    rw [hgroup]

end NatFramework.Io
