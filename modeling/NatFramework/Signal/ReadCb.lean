import NatFramework.Lib.Resumable
import NatFramework.Signal.CService

/-!
# The reading callback

`CService::read_cb` over the virtual functions of any service. The socket has the
bytes of a stream; a `read` gets as many of them as it asks for, or fewer, and a
callback ends when a `read` says `EAGAIN`.

* `got`: what follows a `read` that has got something. `readCb`: one callback,
  given how much its reads get; `callbacks`: one after the other.
* `resumable`: a service is a `Resumable`; `callbacks_reaches`.
-/
namespace NatFramework.Signal

open Lib

/-- The virtual functions of an object. `processHead` says what it passes to
`setPkgSize`, if it calls it, and both whether they return 0 or more.
mirrors server_utils/CService.h:40-46 -/
structure Handler (σ : Type) where
  processHead : List UInt8 → σ → σ × Option Nat × Bool
  processPkg : List UInt8 → σ → σ × Bool

/-- What a callback has done. -/
inductive Called where
  | processHead (p : List UInt8)
  | processPkg (p : List UInt8)
  | close
  deriving DecidableEq, Repr

/-- A service with the object behind it; `closed` once `close` has been called. -/
structure Served (σ : Type) extends CService where
  obj : σ
  closed : Bool := false

namespace CService

/-- mirrors server_utils/CService.cpp:59-66 -/
def setPkgSize (size : Nat) (s : CService) : CService :=
  if size ≤ s.readSize then { s with pkgSize := size } else s

end CService

namespace Served

variable {σ : Type} (H : Handler σ)

/-- mirrors server_utils/CService.cpp:34-39 -/
def close (c : Served σ) : Served σ :=
  { c with readBody := false, readBuf := [], writeBuf := { c.writeBuf with head := 0, tail := 0 }, closed := true }

/-- `len` at the start of a callback. -/
def askLen (c : Served σ) : Nat := if c.readBody then c.pkgSize else c.headSize

/-- The second test, in the state `READ_BODY`.
mirrors server_utils/CService.cpp:87-96 -/
def body (len : Nat) (c : Served σ) : Served σ × Nat × List Called :=
  if c.readBuf.length ≥ len then
    let r := H.processPkg c.readBuf c.obj
    let c' := { c with obj := r.1 }
    if !r.2 then (c'.close, len, [.processPkg c.readBuf, .close])
    else ({ c' with readBody := false, readBuf := [] }, c'.headSize, [.processPkg c.readBuf])
  else (c, len, [])

/-- After a `read` that has got `bytes`: the new `len`, and what has been called.
mirrors server_utils/CService.cpp:75-97 -/
def got (len : Nat) (bytes : List UInt8) (c : Served σ) : Served σ × Nat × List Called :=
  let c := { c with readBuf := c.readBuf ++ bytes }
  if c.readBuf.length = len then
    if !c.readBody then
      let r := H.processHead c.readBuf c.obj
      let s := (r.2.1.map fun n => c.toCService.setPkgSize n).getD c.toCService
      let c' := { c with toCService := s, obj := r.1 }
      if !r.2.2 then (c'.close, len, [.processHead c.readBuf, .close])
      else
        let res := body H c'.pkgSize { c' with readBody := true }
        (res.1, res.2.1, .processHead c.readBuf :: res.2.2)
    else body H len c
  else (c, len, [])

/-- The loop of `read_cb` with the bytes that are there; the next `read` gets `n + 1`
of them, or as many as there are or are asked for, and after the last it is `EAGAIN`.
mirrors server_utils/CService.cpp:71-110 -/
def readLoop : List Nat → List UInt8 → Nat → Served σ → Served σ × List Called × List UInt8
  | [], bs, _, c => (c, [], bs)
  | n :: ns, bs, len, c =>
    if c.readBuf.length < len then
      let bytes := bs.take (min (n + 1) (len - c.readBuf.length))
      if bytes = [] then (c, [], bs)
      else
        let r := got H len bytes c
        if r.1.closed then (r.1, r.2.2, bs.drop bytes.length)
        else
          let rest := readLoop ns (bs.drop bytes.length) r.2.1 r.1
          (rest.1, r.2.2 ++ rest.2.1, rest.2.2)
    else (c, [], bs)

/-- mirrors server_utils/CService.cpp:69-112 -/
def readCb (ns : List Nat) (bs : List UInt8) (c : Served σ) : Served σ × List Called × List UInt8 :=
  readLoop H ns bs c.askLen c

/-- A callback for each list, as long as the socket is open. -/
def callbacks : List (List Nat) → List UInt8 → Served σ → Served σ × List Called × List UInt8
  | [], bs, c => (c, [], bs)
  | ns :: cbs, bs, c =>
    if c.closed then (c, [], bs)
    else
      let r := readCb H ns bs c
      let rest := callbacks cbs r.2.2 r.1
      (rest.1, r.2.1 ++ rest.2.1, rest.2.2)

/-- The whole stream is there: one callback whose reads get all that they ask for. -/
def atOnce (bs : List UInt8) (c : Served σ) : Served σ × List Called × List UInt8 :=
  callbacks H [List.replicate bs.length bs.length] bs c

/-! ## A service can be resumed -/

/-- What the next `read` asks for, 0 if there is none. -/
def asks (c : Served σ) : Nat := if c.closed then 0 else c.askLen - c.readBuf.length

variable {H} {c : Served σ} {len : Nat} {bytes bs : List UInt8}

theorem body_len (hlen : len = c.askLen) (hopen : (body H len c).1.closed = false) :
    (body H len c).2.1 = (body H len c).1.askLen := by
  unfold body at hopen ⊢
  dsimp only at hopen ⊢
  split
  · rename_i hfull
    rw [if_pos hfull] at hopen
    split
    · rename_i hbad
      rw [if_pos hbad] at hopen
      cases hopen
    · rfl
  · exact hlen

/-- `len` keeps to the state of the reader. -/
theorem got_len (hlen : len = c.askLen) (hopen : (got H len bytes c).1.closed = false) :
    (got H len bytes c).2.1 = (got H len bytes c).1.askLen := by
  unfold got at hopen ⊢
  dsimp only at hopen ⊢
  split
  · rename_i hfull
    rw [if_pos hfull] at hopen
    split
    · rename_i hhead
      rw [if_pos hhead] at hopen
      split
      · rename_i hbad
        rw [if_pos hbad] at hopen
        cases hopen
      · rename_i hok
        rw [if_neg hok] at hopen
        exact body_len rfl hopen
    · rename_i hbody
      rw [if_neg hbody] at hopen
      exact body_len hlen hopen
  · exact hlen

/-- Fewer bytes than asked for are kept, and that is all. -/
theorem got_part (h : (c.readBuf ++ bytes).length ≠ len) :
    got H len bytes c = ({ c with readBuf := c.readBuf ++ bytes }, len, []) := if_neg h

theorem got_append {a b : List UInt8} (h : (c.readBuf ++ a).length ≠ len) :
    got H len b (got H len a c).1 = got H len (a ++ b) c := by
  rw [got_part h]
  unfold got
  simp only [List.append_assoc]

variable (H) in
/-- A service as a reader of its stream. -/
def resumable : Resumable UInt8 (Served σ) Called where
  want := asks
  step bytes c := ((got H c.askLen bytes c).1, (got H c.askLen bytes c).2.2)
  Good _ := True
  good := fun _ _ _ => trivial
  part := by
    intro c a b _ ha hb hle
    have hpos : 0 < b.length := List.length_pos_of_ne_nil hb
    have hopen : c.closed = false := by
      cases hc : c.closed with
      | false => rfl
      | true =>
        rw [asks, hc, if_pos rfl] at hle
        omega
    rw [asks, hopen, if_neg (by decide)] at hle
    have hne : (c.readBuf ++ a).length ≠ c.askLen := by
      rw [List.length_append]
      omega
    have hask : (got H c.askLen a c).1.askLen = c.askLen := by
      rw [got_part hne]
      rfl
    refine ⟨by rw [got_part hne], ?_, ?_⟩
    · rw [asks, hask, got_part hne]
      dsimp only
      rw [hopen, if_neg (by decide), List.length_append]
      omega
    · rw [hask, got_append hne]

/-- The loop reads the stream, however much each `read` gets. -/
theorem readLoop_reaches (ns : List Nat) (bs : List UInt8) (hopen : c.closed = false)
    (hlen : len = c.askLen) : (resumable H).Reaches bs c (readLoop H ns bs len c) := by
  induction ns generalizing bs len c with
  | nil => exact Resumable.reaches_refl trivial bs
  | cons n ns ih =>
    rw [readLoop]
    split
    · rename_i hlt
      have hasks : (resumable H).want c = len - c.readBuf.length := by
        have hwant : (resumable H).want c = asks c := rfl
        rw [hwant, asks, hopen, if_neg (by decide), hlen]
      have hpre := List.take_prefix (min (n + 1) (len - c.readBuf.length)) bs
      have hle : (bs.take (min (n + 1) (len - c.readBuf.length))).length ≤ (resumable H).want c := by
        rw [hasks, List.length_take]
        omega
      generalize bs.take (min (n + 1) (len - c.readBuf.length)) = bytes at hpre hle ⊢
      dsimp only
      split
      · exact Resumable.reaches_refl trivial bs
      · rename_i hne
        have hstep := Resumable.reaches_read (M := resumable H) trivial hne hle hpre
        have hout : (resumable H).step bytes c = ((got H len bytes c).1, (got H len bytes c).2.2) := by
          rw [hlen]
          rfl
        rw [hout] at hstep
        split
        · exact hstep
        · rename_i hstill
          have hstill' : (got H len bytes c).1.closed = false := by simpa using hstill
          exact hstep.trans (ih _ hstill' (got_len hlen hstill'))
    · exact Resumable.reaches_refl trivial bs

/-- And so do callbacks one after the other. -/
theorem callbacks_reaches (cbs : List (List Nat)) (bs : List UInt8) (c : Served σ) :
    (resumable H).Reaches bs c (callbacks H cbs bs c) := by
  induction cbs generalizing bs c with
  | nil => exact Resumable.reaches_refl trivial bs
  | cons ns cbs ih =>
    rw [callbacks]
    split
    · exact Resumable.reaches_refl trivial bs
    · rename_i hopen
      exact (readLoop_reaches ns bs (by simpa using hopen) rfl).trans (ih _ _)

/-- With as many reads as there are bytes nothing is left that is asked for. -/
theorem readLoop_done {ns : List Nat} (hn : bs.length ≤ ns.length) (hopen : c.closed = false)
    (hlen : len = c.askLen) : (resumable H).Done (readLoop H ns bs len c) := by
  induction ns generalizing bs len c with
  | nil => exact Or.inl (List.eq_nil_of_length_eq_zero (Nat.le_zero.mp hn))
  | cons n ns ih =>
    rw [readLoop]
    split
    · rename_i hlt
      dsimp only
      split
      · rename_i hnil
        refine Or.inl ?_
        rcases List.take_eq_nil_iff.mp hnil with h | h
        · omega
        · exact h
      · rename_i hne
        generalize bs.take (min (n + 1) (len - c.readBuf.length)) = bytes at hne ⊢
        have hpos : 0 < bytes.length := List.length_pos_of_ne_nil hne
        split
        · rename_i hclosed
          exact Or.inr (if_pos hclosed)
        · rename_i hstill
          have hstill' : (got H len bytes c).1.closed = false := by simpa using hstill
          refine ih ?_ hstill' (got_len hlen hstill')
          rw [List.length_drop]
          rw [List.length_cons] at hn
          omega
    · rename_i hlt
      refine Or.inr ?_
      have hwant : (resumable H).want c = asks c := rfl
      dsimp only
      rw [hwant, asks, hopen, if_neg (by decide)]
      omega

theorem atOnce_done (bs : List UInt8) (c : Served σ) : (resumable H).Done (atOnce H bs c) := by
  unfold atOnce callbacks
  split
  · rename_i hclosed
    exact Or.inr (if_pos hclosed)
  · rename_i hopen
    exact readLoop_done (Nat.le_of_eq List.length_replicate.symm) (by simpa using hopen) rfl

end Served

end NatFramework.Signal
