import NatFramework.Io.CRawIOWriter

/-!
# The single stores of a writer

What the calls of `io/CRawIOWriter` store into the pages, in program order, one
by one. A call computes all it stores from the pages as it finds them: nobody
else stores while it runs.

* `Store`, `PageGroup.exec`: a store and what it does.
* `WriterOp.stores`: the stores of a call; `WriterOp.apply`: the call at once.
* `frameStores_put`, `headStores_fillHead`: one by one they make what the call
  makes of a page.
-/
namespace NatFramework.Io

open Lib

/-- A store into a page, or a step at its file. `pageTail` is the tail a new page
gets, `tail` the one behind a new frame. `byte`, `magic`, `len` and `nano` go to
the frame at the tail. -/
inductive Store where
  | create
  | truncate (size : Nat)
  | status (n : Nat)
  | size (n : Nat)
  | pageTail (n : Nat)
  | startNano (n : Int)
  | stopNano (n : Int)
  | reserved (n : Nat)
  | version (n : Nat)
  | byte (k : Nat) (b : UInt8)
  | len (n : Nat)
  | magic (n : Nat)
  | nano (n : Nat)
  | lastNano (n : Int)
  | tail (n : Nat)
  deriving DecidableEq, Repr

def Page.exec (p : Page) : Store → Page
  | .create => p
  | .truncate n => { p with fileSize := n }
  | .status n => { p with status := n }
  | .size n => { p with size := n }
  | .pageTail n => { p with tail := n }
  | .startNano n => { p with startNano := n }
  | .stopNano n => { p with stopNano := n }
  | .reserved n => { p with reserved := n }
  | .version n => { p with version := n }
  | .byte k b => { p with mem := blit p.mem (p.tail + sizeofFrameHead + k) [b] }
  | .len n => { p with mem := blit p.mem (p.tail + 4) (leBytes 4 n) }
  | .magic n => { p with mem := blit p.mem p.tail (leBytes 4 n) }
  | .nano n => { p with mem := blit p.mem (p.tail + 8) (leBytes 8 n) }
  | .lastNano n => { p with lastNano := n }
  | .tail n => { p with tail := n }

namespace PageGroup

/-- `open` with `O_CREAT`. -/
def create (num : Nat) (g : PageGroup) : PageGroup :=
  if (g.file num).isSome then g
  else if g.pages = [] then { first := num, pages := [{ fileSize := 0 }] }
  else { g with pages := g.pages ++ [{ fileSize := 0 }] }

/-- A store into the page of a number. -/
def exec (g : PageGroup) (e : Nat × Store) : PageGroup :=
  if e.2 = .create then g.create e.1
  else { g with pages := g.pages.modify (e.1 - g.first) (·.exec e.2) }

end PageGroup

/-! ## The stores of a call -/

/-- `memcpy` to the data of a frame. -/
def dataStores (data : List UInt8) : List Store := data.zipIdx.map fun x => .byte x.2 x.1

/-- mirrors io/CRawIOWriter.cpp:103-106 and io/CRawIOWriter.cpp:160-164 -/
def stampStores (nano tail : Nat) : List Store :=
  [.magic frameHeadMagic, .nano nano, .lastNano (toLong nano), .tail tail]

/-- mirrors io/CRawIOWriter.cpp:101-106 -/
def frameStores (data : List UInt8) (nano tail : Nat) : List Store :=
  dataStores data ++ .len data.length :: stampStores nano tail

/-- mirrors io/CRawIOWriter.cpp:109-110 and io/CRawIOWriter.cpp:138-139 -/
def closeStores (nano : Nat) : List Store := [.stopNano (toLong nano), .status pageStatusFinish]

/-- mirrors io/CRawIOWriter.cpp:46-51 -/
def headFields (size nano : Nat) : List Store :=
  [.status pageStatusWritting, .size size, .pageTail sizeofPageHead, .startNano (toLong nano),
    .stopNano (-1), .reserved 0]

/-- mirrors io/CRawIOWriter.cpp:46-52 -/
def headStores (size nano : Nat) : List Store := headFields size nano ++ [.version pageHeadVer1]

/-- All to the page of a number. -/
def inPage (num : Int) (es : List Store) : List (Nat × Store) := es.map (num.toNat, ·)

namespace CRawIOWriter

/-- mirrors io/CRawIOWriter.cpp:167-215 -/
def loadStores (num : Int) (w : CRawIOWriter) : List (Nat × Store) :=
  match w.group.file num.toNat with
  | none => inPage num [.create, .truncate w.pageSize]
  | some p => if p.fileSize < sizeofPageHead then inPage num [.truncate w.pageSize] else []

/-- mirrors io/CRawIOWriter.cpp:38-55 -/
def createStores (nano : Nat) (w : CRawIOWriter) : List (Nat × Store) :=
  let res := w.load true (w.pageNum + 1)
  w.loadStores (w.pageNum + 1) ++
    if res.2 then inPage (w.pageNum + 1) (headStores res.1.size nano) else []

/-- mirrors io/CRawIOWriter.cpp:61-92 -/
def initStores (nano : Nat) (w : CRawIOWriter) : List (Nat × Store) :=
  let w := { w.unload with pageNum := w.group.getTailNum }
  if 0 ≤ w.pageNum then
    let res := w.load true w.pageNum
    w.loadStores w.pageNum ++
      if res.2 ∧ (res.1.mapped.map Page.status).getD 0 = pageStatusFinish then
        createStores nano res.1.unload
      else []
  else createStores nano w

/-- mirrors io/CRawIOWriter.cpp:109-116 and io/CRawIOWriter.cpp:138-145 -/
def rollOverStores (now : Nat → Nat) (w : CRawIOWriter) : List (Nat × Store) :=
  inPage w.pageNum (closeStores (now 0)) ++ createStores (now 1) (store (Page.close (now 0)) w).unload

/-- mirrors io/CRawIOWriter.cpp:97-123 -/
def writeStores (data : List UInt8) : Nat → (Nat → Nat) → CRawIOWriter → List (Nat × Store)
  | 0, _, _ => []
  | n + 1, now, w =>
    match w.mapped with
    | none => []
    | some p =>
      let tail := tailBehind p data.length
      if tail ≤ w.size then inPage w.pageNum (frameStores data (now 0 % 2 ^ 64) tail)
      else
        let res := w.rollOver true now
        rollOverStores now w ++
          if res.2 ∧ data.length ≤ (res.1.size + 2 ^ 64 - sizeofPageHead - sizeofFrameHead) % 2 ^ 64 then
            writeStores data n (fun k => now (k + 2)) res.1
          else []

/-- mirrors io/CRawIOWriter.cpp:131-155 -/
def prefetchStores (now : Nat → Nat) (len : Nat) (w : CRawIOWriter) : List (Nat × Store) :=
  match w.mapped with
  | none => []
  | some p =>
    if tailBehind p len ≤ w.size then inPage w.pageNum [.len len]
    else
      let res := rollOver true now { w with prefetchTail := tailBehind p len }
      rollOverStores now { w with prefetchTail := tailBehind p len } ++
        match res.1.mapped with
        | none => []
        | some q =>
          if res.2 ∧ tailBehind q len ≤ res.1.size then inPage res.1.pageNum [.len len] else []

end CRawIOWriter

/-! ## The calls -/

/-- What is done with a writer that has been opened. `commit` and `discard` are
`prefetch`, the storing of data to the frame, and what may follow where it has not
given `NULL`; `discard` may have stored less than the frame. -/
inductive WriterOp where
  | write (data : List UInt8)
  | commit (data : List UInt8)
  | discard (len : Nat) (data : List UInt8)
  deriving DecidableEq, Repr

namespace WriterOp

/-- The length that is given to `write` or `prefetch`. -/
def len : WriterOp → Nat
  | write data => data.length
  | commit data => data.length
  | discard len _ => len

/-- The reading of the clock that a frame gets. -/
def frameTime (now : Nat → Nat) (len : Nat) (w : CRawIOWriter) : Nat :=
  match w.mapped with
  | none => 0
  | some p => (if CRawIOWriter.tailBehind p len ≤ w.size then now 0 else now 2) % 2 ^ 64

/-- The call at once, and the frame it has written: where `write` returns true, and
after `commit`. -/
def apply (now : Nat → Nat) (w : CRawIOWriter) : WriterOp → CRawIOWriter × Option Frame
  | write data =>
    match CRawIOWriter.write true data 2 now w with
    | none => (w, none)
    | some (w', ok) => (w', if ok then some ⟨frameTime now data.length w, data⟩ else none)
  | commit data =>
    let res := w.prefetch true now data.length
    match res.2 with
    | none => (res.1, none)
    | some _ => ((res.1.store (Page.fill data)).commit (frameTime now data.length w),
        some ⟨frameTime now data.length w, data⟩)
  | discard len data =>
    let res := w.prefetch true now len
    (if res.2.isSome then res.1.store (Page.fill data) else res.1, none)

def stores (now : Nat → Nat) (w : CRawIOWriter) : WriterOp → List (Nat × Store)
  | write data => w.writeStores data 2 now
  | commit data =>
    let res := w.prefetch true now data.length
    w.prefetchStores now data.length ++
      if res.2.isSome then
        inPage res.1.pageNum
          (dataStores data ++ stampStores (frameTime now data.length w) res.1.prefetchTail)
      else []
  | discard len data =>
    let res := w.prefetch true now len
    w.prefetchStores now len ++
      if res.2.isSome then inPage res.1.pageNum (dataStores data) else []

end WriterOp

/-! ## What they make of a page -/

variable {p : Page} {data : List UInt8}

/-- `memcpy` byte by byte. -/
theorem dataStores_fill (data : List UInt8) (p : Page) :
    (dataStores data).foldl Page.exec p = p.fill data := by
  have hgen : ∀ (k : Nat) (q : Page), ((data.zipIdx k).map fun x => Store.byte x.2 x.1).foldl Page.exec q =
      { q with mem := blit q.mem (q.tail + sizeofFrameHead + k) data } := by
    induction data with
    | nil => intro k q; simp
    | cons b bs ih =>
      intro k q
      rw [List.zipIdx_cons, List.map_cons, List.foldl_cons, ih]
      simp only [Page.exec]
      rw [blit_cons q.mem _ b bs, Nat.add_assoc _ k 1]
  exact hgen 0 p

theorem stampStores_stamp (nano tail : Nat) (p : Page) :
    (stampStores nano tail).foldl Page.exec p = p.stamp nano tail := rfl

theorem frameStores_put (data : List UInt8) (nano tail : Nat) (p : Page) :
    (frameStores data nano tail).foldl Page.exec p =
      ((p.fill data).setLen data.length).stamp nano tail := by
  rw [frameStores, List.foldl_append, dataStores_fill, List.foldl_cons, stampStores_stamp]
  rfl

theorem closeStores_close (nano : Nat) (p : Page) :
    (closeStores nano).foldl Page.exec p = p.close nano := rfl

theorem headStores_fillHead (nano : Nat) (p : Page) :
    (headStores p.fileSize nano).foldl Page.exec p = p.fillHead nano := rfl

end NatFramework.Io
