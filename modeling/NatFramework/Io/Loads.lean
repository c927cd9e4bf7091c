import Mathlib.Logic.Function.Iterate
import NatFramework.Io.CRawIOReader

/-!
# The single loads of a reader

The calls of `io/CRawIOReader`, one load from the pages after the other, in
program order. Between two of them the pages may change.

* `Pc`: what a call loads next. `Reading`: a reader in the midst of a call.
* `Reading.ask`, `Reading.load`: the start of a call, and its next load.
* `PageGroup.frame`: what a pointer that `read` has returned leads to.
* `ends_read`, `ends_getCurFrame`, `ends_passFrame`: where the pages stay, the loads
  of a call make what the call makes at once.
-/
namespace NatFramework.Io

open Lib

inductive ReaderOp where
  | read
  | getCurFrame
  | passFrame
  deriving DecidableEq, Repr

/-- What a call loads next: of the mapped page its status, its tail, the magic of
the frame at the cursor, the tail behind a bad one, the length; of the next file
whether it is there, how large it is, its version, and the size in its head. -/
inductive Pc where
  | idle
  | status (c : ReaderOp)
  | tail (c : ReaderOp) (status : Nat)
  | magic (c : ReaderOp)
  | skip
  | len (c : ReaderOp)
  | file (c : ReaderOp)
  | stat (c : ReaderOp)
  | version (c : ReaderOp) (size : Nat)
  | size (c : ReaderOp) (size : Nat)
  deriving DecidableEq, Repr

/-- Where a frame is, and how long `read` has said it is. -/
structure FramePtr where
  page : Nat
  off : Nat
  len : Nat
  deriving DecidableEq, Repr

/-- What is found behind a pointer, at any time after it has been returned. -/
def PageGroup.frame (g : PageGroup) (x : FramePtr) : Option Frame :=
  (g.file x.page).map fun p => ⟨frameNano p.mem x.off, slice p.mem (x.off + sizeofFrameHead) x.len⟩

/-- `got` are the frames that the cursor has gone past; `looked` those that
`getCurFrame` has returned, each with the number of frames gone past before. -/
structure Reading where
  r : CRawIOReader := {}
  pc : Pc := .idle
  got : List FramePtr := []
  looked : List (Nat × Nat × Nat) := []

namespace Reading

variable (g : PageGroup)

/-- Where `read`, `getCurFrame` and `passFrame` begin. -/
def start (c : ReaderOp) (r : CRawIOReader) : Pc := if r.fd then .status c else .file c

def ask (c : ReaderOp) (s : Reading) : Reading := { s with pc := start c s.r }

/-- A load from the page that is mapped.
mirrors io/CRawIOReader.h:63-133 -/
def loadMapped (p : Page) (s : Reading) : Reading :=
  match s.pc with
  | .status c => { s with pc := .tail c p.status }
  | .tail c status =>
    if s.r.cursor < p.tail then { s with pc := if c = .passFrame then .len c else .magic c }
    else if status = pageStatusFinish then
      { s with r := { s.r.unload with pageNum := s.r.pageNum + 1 }, pc := .file c }
    else { s with pc := .idle }
  | .magic c =>
    if frameMagic p.mem s.r.cursor ≠ frameHeadMagic then { s with pc := .skip }
    else if c = .getCurFrame then
      { s with pc := .idle, looked := s.looked ++ [(s.got.length, s.r.pageNum, s.r.cursor)] }
    else { s with pc := .len c }
  | .skip => { s with r := { s.r with cursor := p.tail }, pc := .idle }
  | .len _ =>
    let len := frameLen p.mem s.r.cursor
    { s with
      r := { s.r with cursor := s.r.cursor + sizeofFrameHead + len }
      pc := .idle
      got := s.got ++ [⟨s.r.pageNum, s.r.cursor, len⟩] }
  | _ => s

/-- A load from the file `page_num_`, which `load` opens.
mirrors io/CRawIOReader.cpp:138-202 -/
def loadFile (p : Page) (s : Reading) : Reading :=
  match s.pc with
  | .file c => { s with pc := .stat c }
  | .stat c => { s with pc := if p.fileSize < sizeofPageHead then .idle else .version c p.fileSize }
  | .version c size => { s with pc := if p.version = pageHeadVer1 then .size c size else .idle }
  | .size c size =>
    if p.size = size then
      { s with
        r := { s.r with fd := true, cursor := sizeofPageHead }
        pc := if c = .passFrame then .idle else .status c }
    else { s with pc := .idle }
  | _ => s

/-- The next load. A file that is not there ends the call. -/
def load (s : Reading) : Reading :=
  match s.pc with
  | .idle => s
  | .status _ | .tail _ _ | .magic _ | .skip | .len _ =>
    match s.r.mapped g with
    | none => { s with pc := .idle }
    | some p => s.loadMapped p
  | .file _ | .stat _ | .version _ _ | .size _ _ =>
    match g.file s.r.pageNum with
    | none => { s with pc := .idle }
    | some p => s.loadFile p

/-- The reader goes on by itself and reads on and on. -/
def alone (s : Reading) : Reading := if s.pc = .idle then s.ask .read else s.load g

variable {g} {s : Reading} {c : ReaderOp} {p : Page}

/-! ## A call that nobody disturbs -/

theorem load_mapped (hm : s.r.mapped g = some p)
    (hpc : (∃ c, s.pc = .status c) ∨ (∃ c st, s.pc = .tail c st) ∨ (∃ c, s.pc = .magic c) ∨
      s.pc = .skip ∨ ∃ c, s.pc = .len c) : s.load g = s.loadMapped p := by
  obtain ⟨c, hs⟩ | ⟨c, st, hs⟩ | ⟨c, hs⟩ | hs | ⟨c, hs⟩ := hpc
  all_goals
    rw [Reading.load, hs]
    dsimp only
    rw [hm]

theorem load_file (hp : g.file s.r.pageNum = some p)
    (hpc : (∃ c, s.pc = .file c) ∨ (∃ c, s.pc = .stat c) ∨ (∃ c n, s.pc = .version c n) ∨
      ∃ c n, s.pc = .size c n) : s.load g = s.loadFile p := by
  obtain ⟨c, hs⟩ | ⟨c, hs⟩ | ⟨c, n, hs⟩ | ⟨c, n, hs⟩ := hpc
  all_goals
    rw [Reading.load, hs]
    dsimp only
    rw [hp]

/-- Where a call goes on when a page has been opened for it. -/
def opened (c : ReaderOp) : Pc := if c = .passFrame then .idle else .status c

/-- The loads of `load` make what it makes. -/
theorem loads_file (hpc : s.pc = .file c) (hfd : s.r.fd = false) :
    ∃ n, (CRawIOReader.load g s.r = ({ s.r with fd := true, cursor := sizeofPageHead }, true) ∧
        (Reading.load g)^[n] s =
          { s with r := { s.r with fd := true, cursor := sizeofPageHead }, pc := opened c }) ∨
      CRawIOReader.load g s.r = (s.r, false) ∧ (Reading.load g)^[n] s = { s with pc := .idle } := by
  have hr : { s.r with fd := false } = s.r := by rw [← hfd]
  rw [CRawIOReader.load, hr]
  cases hp : g.file s.r.pageNum with
  | none =>
    refine ⟨1, Or.inr ⟨rfl, ?_⟩⟩
    rw [Function.iterate_one, Reading.load, hpc]
    dsimp only
    rw [hp]
  | some p =>
    dsimp only
    have h1 : s.load g = { s with pc := .stat c } := by
      rw [load_file hp (Or.inl ⟨c, hpc⟩), loadFile, hpc]
    have h2 : Reading.load g { s with pc := .stat c } =
        { s with pc := if p.fileSize < sizeofPageHead then .idle else .version c p.fileSize } :=
      load_file hp (Or.inr (Or.inl ⟨c, rfl⟩))
    by_cases hsmall : p.fileSize < sizeofPageHead
    · rw [if_pos hsmall] at h2 ⊢
      refine ⟨2, Or.inr ⟨rfl, ?_⟩⟩
      rw [Function.iterate_succ_apply, h1, Function.iterate_one, h2]
    · rw [if_neg hsmall] at h2 ⊢
      have h3 : Reading.load g { s with pc := .version c p.fileSize } =
          { s with pc := if p.version = pageHeadVer1 then .size c p.fileSize else .idle } :=
        load_file hp (Or.inr (Or.inr (Or.inl ⟨c, _, rfl⟩)))
      have h4 : Reading.load g { s with pc := .size c p.fileSize } =
          if p.size = p.fileSize then
            { s with r := { s.r with fd := true, cursor := sizeofPageHead }, pc := opened c }
          else { s with pc := .idle } :=
        load_file hp (Or.inr (Or.inr (Or.inr ⟨c, _, rfl⟩)))
      by_cases hv : p.version = pageHeadVer1
      · rw [if_pos hv] at h3
        refine ⟨4, ?_⟩
        rw [Function.iterate_succ_apply, h1, Function.iterate_succ_apply, h2,
          Function.iterate_succ_apply, h3, Function.iterate_one, h4]
        by_cases hsize : p.size = p.fileSize
        · have hhead : p.checkPageHead = true := by
            rw [Page.checkPageHead, decide_eq_true_eq]
            exact ⟨hv, hsize⟩
          rw [if_pos hsize, if_neg (by rw [hhead]; decide)]
          exact Or.inl ⟨rfl, rfl⟩
        · have hhead : p.checkPageHead = false := by
            rw [Page.checkPageHead, decide_eq_false_iff_not]
            exact fun h => hsize h.2
          rw [if_neg hsize, if_pos (by rw [hhead]; rfl)]
          exact Or.inr ⟨rfl, rfl⟩
      · rw [if_neg hv] at h3
        have hhead : p.checkPageHead = false := by
          rw [Page.checkPageHead, decide_eq_false_iff_not]
          exact fun h => hv h.1
        refine ⟨3, ?_⟩
        rw [Function.iterate_succ_apply, h1, Function.iterate_succ_apply, h2, Function.iterate_one, h3,
          if_pos (by rw [hhead]; rfl)]
        exact Or.inr ⟨rfl, rfl⟩

/-- The call ends with the reader at `r`. -/
def EndsAt (g : PageGroup) (s : Reading) (r : CRawIOReader) : Prop :=
  ∃ n, ((Reading.load g)^[n] s).pc = .idle ∧ ((Reading.load g)^[n] s).r = r

theorem EndsAt.after {r : CRawIOReader} {t : Reading} {n : Nat} (ht : (Reading.load g)^[n] s = t)
    (h : EndsAt g t r) : EndsAt g s r := by
  obtain ⟨m, hm⟩ := h
  refine ⟨m + n, ?_⟩
  rw [Function.iterate_add_apply, ht]
  exact hm

/-- Status and tail. -/
theorem loads_status (hpc : s.pc = .status c) (hm : s.r.mapped g = some p) :
    (Reading.load g)^[2] s = loadMapped p { s with pc := .tail c p.status } := by
  have h1 : s.load g = { s with pc := .tail c p.status } := by
    rw [load_mapped hm (Or.inl ⟨c, hpc⟩), loadMapped, hpc]
  rw [Function.iterate_succ_apply, h1, Function.iterate_one]
  exact load_mapped hm (Or.inr (Or.inl ⟨c, _, rfl⟩))

theorem loads_frame (hpc : s.pc = .status c) (hm : s.r.mapped g = some p) (hlt : s.r.cursor < p.tail) :
    (Reading.load g)^[2] s = { s with pc := if c = .passFrame then .len c else .magic c } :=
  (loads_status hpc hm).trans (if_pos hlt)

theorem loads_leave (hpc : s.pc = .status c) (hm : s.r.mapped g = some p) (hlt : ¬s.r.cursor < p.tail)
    (hfin : p.status = pageStatusFinish) : (Reading.load g)^[2] s =
      { s with r := { s.r.unload with pageNum := s.r.pageNum + 1 }, pc := .file c } :=
  (loads_status hpc hm).trans ((if_neg hlt).trans (if_pos hfin))

theorem loads_wait (hpc : s.pc = .status c) (hm : s.r.mapped g = some p) (hlt : ¬s.r.cursor < p.tail)
    (hfin : p.status ≠ pageStatusFinish) : (Reading.load g)^[2] s = { s with pc := .idle } :=
  (loads_status hpc hm).trans ((if_neg hlt).trans (if_neg hfin))

theorem fd_of_mapped {r : CRawIOReader} (hm : r.mapped g = some p) : r.fd = true := by
  by_contra hfd
  rw [CRawIOReader.mapped, if_neg hfd] at hm
  cases hm

theorem mapped_of_load {r : CRawIOReader} (h : (CRawIOReader.load g r).2 = true) :
    (CRawIOReader.load g r).1.fd = true ∧ ∃ p, (CRawIOReader.load g r).1.mapped g = some p := by
  obtain ⟨hr, -, p, hp⟩ := CRawIOReader.load_true h
  rw [hr]
  exact ⟨rfl, p, hp⟩

theorem fd_of_not_mapped {r : CRawIOReader} (hm : r.mapped g = none)
    (hmap : r.fd = true → ∃ p, r.mapped g = some p) : r.fd = false := by
  by_contra hfd
  obtain ⟨p, hp⟩ := hmap (by simpa using hfd)
  rw [hm] at hp
  cases hp

/-- From the file that is opened next on. -/
theorem ends_load {r' : CRawIOReader} (hpc : s.pc = .file c) (hfd : s.r.fd = false)
    (hgo : ∀ t : Reading, (CRawIOReader.load g s.r).2 = true → t.r = (CRawIOReader.load g s.r).1 →
      t.pc = opened c → EndsAt g t r')
    (hend : ¬(CRawIOReader.load g s.r).2 = true → (CRawIOReader.load g s.r).1 = r') : EndsAt g s r' := by
  obtain ⟨n, ⟨hload, hn⟩ | ⟨hload, hn⟩⟩ := loads_file (g := g) hpc hfd
  · exact EndsAt.after hn (hgo _ (by rw [hload]) (by rw [hload]) rfl)
  · refine EndsAt.after hn ⟨0, rfl, ?_⟩
    rw [hload] at hend
    exact hend nofun

/-- What `read` and `getCurFrame` share, where `f` is what they do at a frame. -/
theorem ends_atFrame {α : Type} {f : Page → CRawIOReader → CRawIOReader × Option α} {r : CRawIOReader}
    (c : ReaderOp) (hc : c ≠ .passFrame)
    (hf : ∀ (p : Page) (s : Reading), s.pc = .magic c → s.r.mapped g = some p →
      frameMagic p.mem s.r.cursor = frameHeadMagic → EndsAt g s (f p s.r).1)
    (hr : s.r = r) (hpc : s.pc = start c r) (hmap : r.fd = true → ∃ p, r.mapped g = some p) :
    EndsAt g s (CRawIOReader.atFrame g f r).1 := by
  have hopened : opened c = .status c := if_neg hc
  fun_induction CRawIOReader.atFrame g f r generalizing s with
  | case1 r p hm hlt hbad =>
    subst hr
    rw [start, if_pos (fd_of_mapped hm)] at hpc
    have h2 := loads_frame hpc hm hlt
    rw [if_neg hc] at h2
    refine EndsAt.after h2 ⟨2, ?_⟩
    have h3 : Reading.load g { s with pc := .magic c } = { s with pc := .skip } := by
      have hload : Reading.load g { s with pc := .magic c } = loadMapped p { s with pc := .magic c } :=
        load_mapped hm (Or.inr (Or.inr (Or.inl ⟨c, rfl⟩)))
      rw [hload, loadMapped]
      exact if_pos hbad
    have h4 : Reading.load g { s with pc := .skip } =
        { s with r := { s.r with cursor := p.tail }, pc := .idle } :=
      load_mapped (p := p) hm (Or.inr (Or.inr (Or.inr (Or.inl rfl))))
    rw [Function.iterate_succ_apply, h3, Function.iterate_one, h4]
    exact ⟨rfl, rfl⟩
  | case2 r p hm hlt hok =>
    subst hr
    rw [start, if_pos (fd_of_mapped hm)] at hpc
    have h2 := loads_frame hpc hm hlt
    rw [if_neg hc] at h2
    exact EndsAt.after h2 (hf p { s with pc := .magic c } rfl hm (not_not.mp hok))
  | case3 r p hm hlt hfin hl ih =>
    subst hr
    rw [start, if_pos (fd_of_mapped hm)] at hpc
    refine EndsAt.after (loads_leave hpc hm hlt hfin) (ends_load rfl rfl (fun t _ ht hpc' => ?_) fun hno => absurd hl hno)
    obtain ⟨hfd', hm'⟩ := mapped_of_load hl
    refine ih ht ?_ fun _ => hm'
    rw [hpc', hopened, start]
    exact (if_pos hfd').symm
  | case4 r p hm hlt hfin hl =>
    subst hr
    rw [start, if_pos (fd_of_mapped hm)] at hpc
    exact EndsAt.after (loads_leave hpc hm hlt hfin)
      (ends_load rfl rfl (fun t hyes _ _ => absurd hyes hl) fun _ => rfl)
  | case5 r p hm hlt hfin =>
    subst hr
    rw [start, if_pos (fd_of_mapped hm)] at hpc
    exact EndsAt.after (loads_wait hpc hm hlt hfin) ⟨0, rfl, rfl⟩
  | case6 r hm hl ih =>
    subst hr
    have hfd := fd_of_not_mapped hm hmap
    rw [start, if_neg (by rw [hfd]; decide)] at hpc
    refine ends_load hpc hfd (fun t _ ht hpc' => ?_) fun hno => absurd hl hno
    obtain ⟨hfd', hm'⟩ := mapped_of_load hl
    refine ih ht ?_ fun _ => hm'
    rw [hpc', hopened, start]
    exact (if_pos hfd').symm
  | case7 r hm hl =>
    subst hr
    have hfd := fd_of_not_mapped hm hmap
    rw [start, if_neg (by rw [hfd]; decide)] at hpc
    exact ends_load hpc hfd (fun t hyes _ _ => absurd hyes hl) fun _ => rfl

/-- **The loads of a `read` make what `read` makes**, where the pages stay. -/
theorem ends_read (hmap : s.r.fd = true → ∃ p, s.r.mapped g = some p) :
    EndsAt g (s.ask .read) (CRawIOReader.read g s.r).1 := by
  refine ends_atFrame .read nofun (fun p s hpc hm hok => ?_) rfl rfl hmap
  have h1 : s.load g = { s with pc := .len .read } := by
    rw [load_mapped hm (Or.inr (Or.inr (Or.inl ⟨_, hpc⟩))), loadMapped, hpc]
    dsimp only
    rw [if_neg (not_not.mpr hok), if_neg nofun]
  have h2 : ({ s with pc := .len .read } : Reading).load g = loadMapped p { s with pc := .len .read } :=
    load_mapped hm (Or.inr (Or.inr (Or.inr (Or.inr ⟨_, rfl⟩))))
  refine ⟨2, ?_⟩
  rw [Function.iterate_succ_apply, h1, Function.iterate_one, h2]
  exact ⟨rfl, rfl⟩

/-- And so those of `getCurFrame`. -/
theorem ends_getCurFrame (hmap : s.r.fd = true → ∃ p, s.r.mapped g = some p) :
    EndsAt g (s.ask .getCurFrame) (CRawIOReader.getCurFrame g s.r).1 := by
  refine ends_atFrame .getCurFrame nofun (fun p s hpc hm hok => ⟨1, ?_⟩) rfl rfl hmap
  rw [Function.iterate_one, load_mapped hm (Or.inr (Or.inr (Or.inl ⟨_, hpc⟩))), loadMapped, hpc]
  dsimp only
  rw [if_neg (not_not.mpr hok), if_pos rfl]
  exact ⟨rfl, rfl⟩

/-- And those of `passFrame`. -/
theorem ends_passFrame (hmap : s.r.fd = true → ∃ p, s.r.mapped g = some p) :
    EndsAt g (s.ask .passFrame) (CRawIOReader.passFrame g s.r) := by
  rw [CRawIOReader.passFrame]
  cases hm : s.r.mapped g with
  | none =>
    have hfd := fd_of_not_mapped hm hmap
    have hpc : (s.ask .passFrame).pc = .file .passFrame := if_neg (by rw [hfd]; decide)
    exact ends_load hpc hfd (fun t _ ht hpc' => ⟨0, hpc', ht⟩) fun _ => rfl
  | some p =>
    dsimp only
    have hpc : (s.ask .passFrame).pc = .status .passFrame := if_pos (fd_of_mapped hm)
    by_cases hlt : s.r.cursor < p.tail
    · rw [if_pos hlt]
      refine EndsAt.after (loads_frame hpc hm hlt) ⟨1, ?_⟩
      have hlen : ({ s.ask .passFrame with pc := .len .passFrame } : Reading).load g =
          loadMapped p { s.ask .passFrame with pc := .len .passFrame } :=
        load_mapped hm (Or.inr (Or.inr (Or.inr (Or.inr ⟨_, rfl⟩))))
      rw [if_pos rfl, Function.iterate_one, hlen]
      refine ⟨rfl, ?_⟩
      rw [loadMapped]
      dsimp only
      rw [Reading.ask, Nat.add_assoc, Nat.add_comm sizeofFrameHead]
    · rw [if_neg hlt]
      by_cases hfin : p.status = pageStatusFinish
      · rw [if_pos hfin]
        exact EndsAt.after (loads_leave hpc hm hlt hfin)
          (ends_load rfl rfl (fun t _ ht hpc' => ⟨0, hpc', ht⟩) fun _ => rfl)
      · rw [if_neg hfin]
        exact EndsAt.after (loads_wait hpc hm hlt hfin) ⟨0, rfl, rfl⟩

end Reading

end NatFramework.Io
