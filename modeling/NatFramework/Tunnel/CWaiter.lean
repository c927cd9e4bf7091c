import NatFramework.Lib.Bytes
import NatFramework.Signal.ReadCb

/-!
# The reader of a waiter

`CWaiter::read_cb` and `CWaiter::process` of the tunnel agent, for read events. A
message is a head, which tells how much follows, and the rest; a call of `process`
reads at most one message and hands it to `processPkg`.

* `readLoop`: the loop of `read_cb`. `process`, `processes`: one event, and one
  after the other until the waiter is released.
* `resumable`: a waiter is a `Resumable`; `processes_reaches`.
* `cuts`: neither a service nor a waiter notices how its stream is cut.
-/
namespace NatFramework.Tunnel

open Lib

/-- mirrors tunnel_agent/protocol.h:76-81 -/
inductive EmState where
  | pending
  | next
  | abort
  | finish
  deriving DecidableEq, Repr

/-- `sizeof(tMetaHead)` -/
def sizeofMetaHead : Nat := 8

/-- `MAX_DATA_LEN` -/
def maxDataLen : Nat := 100 * 1024 * 1024

/-- What `process` has done; `release` with the state it ended in. -/
inductive Handled where
  | processPkg (p : List UInt8)
  | release (ret : EmState)
  deriving DecidableEq, Repr

/-- `readBuf` is `read_buf_` up to `read_cur_`, `bufSize` its size, 0 when it is
empty; `obj` is what `processPkg` works on.
mirrors tunnel_agent/CWaiter.h:72-96 -/
structure CWaiter (σ : Type) where
  readBuf : List UInt8 := []
  bufSize : Nat := 0
  obj : σ
  released : Bool := false

namespace CWaiter

variable {σ : Type} (processPkg : List UInt8 → σ → σ × EmState)

/-- mirrors tunnel_agent/CWaiter.cpp:126-129 -/
def start (w : CWaiter σ) : CWaiter σ :=
  if w.bufSize = 0 then { w with readBuf := [], bufSize := sizeofMetaHead } else w

/-- The size of the message that a head announces.
mirrors tunnel_agent/CWaiter.cpp:152-160 -/
def checkHead (p : List UInt8) : Option Nat :=
  let len := ofLe ((p.drop 4).take 4)
  if p[0]? = some 0x68 ∧ p[1]? = some 0x01 ∧ len ≤ maxDataLen ∧ len ≠ 0 then some (len + sizeofMetaHead)
  else none

/-- After a `read` that has got `bytes`: what `read_cb` returns, if it does.
mirrors tunnel_agent/CWaiter.cpp:147-164 -/
def got (bytes : List UInt8) (w : CWaiter σ) : CWaiter σ × Option EmState :=
  let w := { w with readBuf := w.readBuf ++ bytes }
  if w.readBuf.length = sizeofMetaHead then
    match checkHead w.readBuf with
    | none => (w, some .abort)
    | some size => ({ w with bufSize := size }, none)
  else if w.readBuf.length = w.bufSize then (w, some .next)
  else (w, none)

/-- The loop of `read_cb`; how much each `read` gets is as for a service. The `true`
behind the loop is `STATE_NEXT`.
mirrors tunnel_agent/CWaiter.cpp:131-166 -/
def readLoop : List Nat → List UInt8 → CWaiter σ → CWaiter σ × EmState × List UInt8
  | [], bs, w => (w, if w.readBuf.length < w.bufSize then .pending else .next, bs)
  | n :: ns, bs, w =>
    if w.readBuf.length < w.bufSize then
      let bytes := bs.take (min (n + 1) (w.bufSize - w.readBuf.length))
      if bytes = [] then (w, .pending, bs)
      else
        match got bytes w with
        | (w, some ret) => (w, ret, bs.drop bytes.length)
        | (w, none) => readLoop ns (bs.drop bytes.length) w
    else (w, .next, bs)

/-- mirrors tunnel_agent/CWaiter.cpp:125-167 -/
def readCb (ns : List Nat) (bs : List UInt8) (w : CWaiter σ) : CWaiter σ × EmState × List UInt8 :=
  readLoop ns bs w.start

/-- What `process` does with the answer of `read_cb`.
mirrors tunnel_agent/CWaiter.cpp:187-202 -/
def settle (w : CWaiter σ) (ret : EmState) : CWaiter σ × List Handled :=
  match ret with
  | .pending => (w, [])
  | .next =>
    let r := processPkg w.readBuf w.obj
    let w' := { w with obj := r.1, bufSize := 0 }
    if r.2 = .abort ∨ r.2 = .finish then
      ({ w' with released := true }, [.processPkg w.readBuf, .release r.2])
    else (w', [.processPkg w.readBuf])
  | .abort => ({ w with released := true }, [.release .abort])
  | .finish => ({ w with released := true }, [.release .finish])

/-- A read event.
mirrors tunnel_agent/CWaiter.cpp:172-205 -/
def process (ns : List Nat) (bs : List UInt8) (w : CWaiter σ) : CWaiter σ × List Handled × List UInt8 :=
  let r := readCb ns bs w
  let t := settle processPkg r.1 r.2.1
  (t.1, t.2, r.2.2)

/-- Events until the waiter is released. -/
def processes : List (List Nat) → List UInt8 → CWaiter σ → CWaiter σ × List Handled × List UInt8
  | [], bs, w => (w, [], bs)
  | ns :: events, bs, w =>
    if w.released then (w, [], bs)
    else
      let r := process processPkg ns bs w
      let rest := processes events r.2.2 r.1
      (rest.1, r.2.1 ++ rest.2.1, rest.2.2)

/-- The whole stream is there: event after event, each read getting all it asks for. -/
def atOnce (bs : List UInt8) (w : CWaiter σ) : CWaiter σ × List Handled × List UInt8 :=
  processes processPkg (List.replicate bs.length (List.replicate bs.length bs.length)) bs w

/-! ## A waiter can be resumed -/

variable {processPkg} {w : CWaiter σ} {bytes bs : List UInt8}

/-- Between two reads: within the head, or behind it and within the message. -/
def Good (w : CWaiter σ) : Prop :=
  w.released = true ∨ (w.bufSize = sizeofMetaHead ∧ w.readBuf.length < sizeofMetaHead) ∨
    (sizeofMetaHead ≤ w.readBuf.length ∧ w.readBuf.length < w.bufSize)

/-- What the next `read` asks for, 0 if there is none. -/
def asks (w : CWaiter σ) : Nat := if w.released then 0 else w.bufSize - w.readBuf.length

theorem start_of_pos (h : 0 < w.bufSize) : w.start = w := if_neg (by omega)

theorem good_start (h : w.bufSize = 0) : Good w.start := by
  rw [start, if_pos h]
  exact Or.inr (Or.inl ⟨rfl, Nat.succ_pos 7⟩)

theorem Good.inside (h : Good w) (hopen : w.released = false) :
    w.readBuf.length < w.bufSize ∧ sizeofMetaHead ≤ w.bufSize := by
  obtain hr | ⟨h1, h2⟩ | ⟨h1, h2⟩ := h
  · rw [hopen] at hr
    cases hr
  · omega
  · omega

theorem Good.start_eq (h : Good w) (hopen : w.released = false) : w.start = w :=
  start_of_pos (by have := h.inside hopen; omega)

theorem checkHead_gt {p : List UInt8} {n : Nat} (h : checkHead p = some n) : sizeofMetaHead < n := by
  unfold checkHead at h
  dsimp only at h
  split at h
  · rename_i hok
    obtain rfl := Option.some.inj h
    have := hok.2.2.2
    omega
  · cases h

/-- What is left after a read that `read_cb` goes on from. -/
theorem got_none (h : Good w) (hopen : w.released = false) (hle : bytes.length ≤ w.bufSize - w.readBuf.length)
    (hne : bytes ≠ []) (hgot : (got bytes w).2 = none) :
    Good (got bytes w).1 ∧ (got bytes w).1.released = false := by
  have hpos : 0 < bytes.length := List.length_pos_of_ne_nil hne
  have hin := h.inside hopen
  unfold got at hgot ⊢
  dsimp only at hgot ⊢
  split
  · rename_i hhead
    rw [if_pos hhead] at hgot
    cases hc : checkHead (w.readBuf ++ bytes) with
    | none =>
      rw [hc] at hgot
      cases hgot
    | some n =>
      have hgt := checkHead_gt hc
      exact ⟨Or.inr (Or.inr ⟨Nat.le_of_eq hhead.symm, by dsimp only; omega⟩), hopen⟩
  · rename_i hhead
    rw [if_neg hhead] at hgot
    split
    · rename_i hfull
      rw [if_pos hfull] at hgot
      cases hgot
    · rename_i hfull
      refine ⟨?_, hopen⟩
      rw [List.length_append] at hhead hfull
      obtain hr | ⟨h1, h2⟩ | ⟨h1, h2⟩ := h
      · exact Or.inl hr
      · refine Or.inr (Or.inl ⟨h1, ?_⟩)
        dsimp only
        rw [List.length_append]
        omega
      · refine Or.inr (Or.inr ⟨?_, ?_⟩) <;> dsimp only <;> rw [List.length_append] <;> omega

/-- Fewer bytes than asked for are kept, and that is all. -/
theorem got_part (h : Good w) (hopen : w.released = false) (hne : bytes ≠ [])
    (hlt : bytes.length < w.bufSize - w.readBuf.length) :
    got bytes w = ({ w with readBuf := w.readBuf ++ bytes }, none) := by
  have hpos : 0 < bytes.length := List.length_pos_of_ne_nil hne
  have hlen : (w.readBuf ++ bytes).length ≠ sizeofMetaHead := by
    rw [List.length_append]
    obtain hr | ⟨h1, h2⟩ | ⟨h1, h2⟩ := h
    · rw [hopen] at hr
      cases hr
    · omega
    · omega
  have hfull : (w.readBuf ++ bytes).length ≠ w.bufSize := by
    rw [List.length_append]
    omega
  unfold got
  dsimp only
  rw [if_neg hlen, if_neg hfull]

variable (processPkg) in
/-- A read and, when `read_cb` returns with it, the rest of `process` and the start
of the next call. -/
def after (bytes : List UInt8) (w : CWaiter σ) : CWaiter σ × List Handled :=
  match got bytes w with
  | (w, none) => (w, [])
  | (w, some ret) => ((settle processPkg w ret).1.start, (settle processPkg w ret).2)

theorem good_settle (w : CWaiter σ) {ret : EmState} (hret : ret ≠ .pending) :
    Good (settle processPkg w ret).1.start := by
  have hreleased : ∀ w : CWaiter σ, w.released = true → Good w.start := by
    intro w hw
    refine Or.inl ?_
    unfold start
    split <;> exact hw
  cases ret with
  | pending => exact absurd rfl hret
  | next =>
    unfold settle
    dsimp only
    split
    · exact hreleased _ rfl
    · exact good_start rfl
  | abort => exact hreleased _ rfl
  | finish => exact hreleased _ rfl

theorem got_ne_pending (bytes : List UInt8) (w : CWaiter σ) : (got bytes w).2 ≠ some .pending := by
  unfold got
  dsimp only
  split
  · split <;> simp
  · split <;> simp

theorem open_of_asks {n : Nat} (h : n ≤ asks w) (hn : 0 < n) : w.released = false ∧
    asks w = w.bufSize - w.readBuf.length := by
  cases hr : w.released with
  | true =>
    rw [asks, if_pos hr] at h
    omega
  | false => exact ⟨rfl, if_neg (by rw [hr]; decide)⟩

variable (processPkg) in
/-- A waiter as a reader of its stream. -/
def resumable : Resumable UInt8 (CWaiter σ) Handled where
  want := asks
  step := after processPkg
  Good := Good
  good := by
    intro w a h ha hle
    obtain ⟨hopen, hasks⟩ := open_of_asks hle (List.length_pos_of_ne_nil ha)
    rw [hasks] at hle
    unfold after
    have hnone := got_none h hopen hle ha
    have hpend := got_ne_pending a w
    generalize got a w = r at hnone hpend
    obtain ⟨w', ret⟩ := r
    cases ret with
    | none => exact (hnone rfl).1
    | some ret => exact good_settle w' fun he => hpend (by rw [he])
  part := by
    intro w a b h ha hb hle
    have hpos : 0 < b.length := List.length_pos_of_ne_nil hb
    obtain ⟨hopen, hasks⟩ := open_of_asks hle (by omega)
    rw [hasks] at hle
    have hpart := got_part h hopen ha (by omega)
    have hafter : after processPkg a w = ({ w with readBuf := w.readBuf ++ a }, []) := by
      unfold after
      rw [hpart]
    rw [hafter]
    refine ⟨rfl, ?_, ?_⟩
    · rw [asks, if_neg (by rw [hopen]; decide)]
      dsimp only
      rw [List.length_append]
      omega
    · have hgot : got b { w with readBuf := w.readBuf ++ a } = got (a ++ b) w := by
        unfold got
        simp only [List.append_assoc]
      unfold after
      rw [hgot]

variable (processPkg) in
/-- What a call leaves, with the start of the next. -/
theorem readLoop_reaches (ns : List Nat) (bs : List UInt8) (h : Good w) (hopen : w.released = false) :
    (resumable processPkg).Reaches bs w
      ((settle processPkg (readLoop ns bs w).1 (readLoop ns bs w).2.1).1.start,
        (settle processPkg (readLoop ns bs w).1 (readLoop ns bs w).2.1).2, (readLoop ns bs w).2.2) := by
  have hrefl : ∀ {w : CWaiter σ} (bs : List UInt8), Good w → w.released = false →
      (resumable processPkg).Reaches bs w
        ((settle processPkg w .pending).1.start, (settle processPkg w .pending).2, bs) := by
    intro w bs h hopen
    have hs : (settle processPkg w .pending).1.start = w := h.start_eq hopen
    rw [hs]
    exact Resumable.reaches_refl h bs
  induction ns generalizing bs w with
  | nil =>
    rw [readLoop, if_pos (h.inside hopen).1]
    exact hrefl bs h hopen
  | cons n ns ih =>
    have hlt := (h.inside hopen).1
    rw [readLoop, if_pos hlt]
    have hasks : (resumable processPkg).want w = w.bufSize - w.readBuf.length :=
      if_neg (by rw [hopen]; decide)
    have hpre := List.take_prefix (min (n + 1) (w.bufSize - w.readBuf.length)) bs
    have hle : (bs.take (min (n + 1) (w.bufSize - w.readBuf.length))).length ≤
        (resumable processPkg).want w := by
      rw [hasks, List.length_take]
      omega
    generalize bs.take (min (n + 1) (w.bufSize - w.readBuf.length)) = bytes at hpre hle ⊢
    dsimp only
    by_cases hne : bytes = []
    · rw [if_pos hne]
      exact hrefl bs h hopen
    · rw [if_neg hne]
      have hstep := Resumable.reaches_read (M := resumable processPkg) h hne hle hpre
      have hout : (resumable processPkg).step bytes w = after processPkg bytes w := rfl
      rw [hout] at hstep
      have hnone := got_none h hopen (by rw [← hasks]; exact hle) hne
      unfold after at hstep
      generalize got bytes w = r at hnone hstep ⊢
      obtain ⟨w', ret⟩ := r
      cases ret with
      | none =>
        obtain ⟨h1, h2⟩ := hnone rfl
        exact hstep.trans (ih _ h1 h2)
      | some ret => exact hstep

theorem released_start (w : CWaiter σ) : w.start.released = w.released := by
  unfold start
  split <;> rfl

variable (processPkg) in
/-- Read events one after the other. -/
theorem processes_reaches (events : List (List Nat)) (bs : List UInt8) (h : Good w.start) :
    (resumable processPkg).Reaches bs w.start
      ((processes processPkg events bs w).1.start, (processes processPkg events bs w).2) := by
  induction events generalizing bs w with
  | nil => exact Resumable.reaches_refl h bs
  | cons ns events ih =>
    rw [processes]
    split
    · exact Resumable.reaches_refl h bs
    · rename_i hopen
      have hopen' : w.start.released = false := by
        rw [released_start]
        simpa using hopen
      have hone := readLoop_reaches processPkg ns bs h hopen'
      exact hone.trans (ih _ hone.1)

theorem readLoop_le (ns : List Nat) (bs : List UInt8) (w : CWaiter σ) :
    (readLoop ns bs w).2.2.length ≤ bs.length := by
  induction ns generalizing bs w with
  | nil => exact Nat.le_refl _
  | cons n ns ih =>
    rw [readLoop]
    split
    · dsimp only
      split
      · exact Nat.le_refl _
      · generalize bs.take (min (n + 1) (w.bufSize - w.readBuf.length)) = bytes
        have hdrop : (bs.drop bytes.length).length ≤ bs.length := by
          rw [List.length_drop]
          exact Nat.sub_le _ _
        split
        · exact hdrop
        · exact Nat.le_trans (ih _ _) hdrop
    · exact Nat.le_refl _

/-- An event with bytes there reads some. -/
theorem readLoop_lt {n : Nat} (ns : List Nat) (hbs : bs ≠ []) (h : Good w) (hopen : w.released = false) :
    (readLoop (n :: ns) bs w).2.2.length < bs.length := by
  have hlt := (h.inside hopen).1
  have hne : bs.take (min (n + 1) (w.bufSize - w.readBuf.length)) ≠ [] := by
    rw [Ne, List.take_eq_nil_iff, not_or]
    exact ⟨by omega, hbs⟩
  rw [readLoop, if_pos hlt]
  dsimp only
  rw [if_neg hne]
  generalize bs.take (min (n + 1) (w.bufSize - w.readBuf.length)) = bytes at hne ⊢
  have hpos : 0 < bytes.length := List.length_pos_of_ne_nil hne
  have hpos' : 0 < bs.length := List.length_pos_of_ne_nil hbs
  have hdrop : (bs.drop bytes.length).length < bs.length := by
    rw [List.length_drop]
    omega
  split
  · exact hdrop
  · exact Nat.lt_of_le_of_lt (readLoop_le _ _ _) hdrop

theorem processes_done {events : List (List Nat)} (hn : bs.length ≤ events.length)
    (hreads : ∀ ns ∈ events, ns ≠ []) (h : Good w.start) :
    (resumable processPkg).Done
      ((processes processPkg events bs w).1.start, (processes processPkg events bs w).2) := by
  induction events generalizing bs w with
  | nil => exact Or.inl (List.eq_nil_of_length_eq_zero (Nat.le_zero.mp hn))
  | cons ns events ih =>
    rw [processes]
    split
    · rename_i hr
      refine Or.inr (if_pos ?_)
      rw [released_start]
      exact hr
    · rename_i hopen
      have hopen' : w.start.released = false := by
        rw [released_start]
        simpa using hopen
      have hone := readLoop_reaches processPkg ns bs h hopen'
      refine ih ?_ (fun ns' hns' => hreads ns' (List.mem_cons_of_mem ns hns')) hone.1
      obtain ⟨n, ns', rfl⟩ := List.exists_cons_of_ne_nil (hreads ns List.mem_cons_self)
      rw [List.length_cons] at hn
      by_cases hbs : bs = []
      · have hle := readLoop_le (n :: ns') bs w.start
        have hz : bs.length = 0 := by rw [hbs]; rfl
        exact Nat.le_trans hle (by omega)
      · have hlt := readLoop_lt (n := n) ns' hbs h hopen'
        exact Nat.le_of_lt_succ (Nat.lt_of_lt_of_le hlt hn)

variable (processPkg) in
theorem atOnce_done (bs : List UInt8) (h : Good w.start) :
    (resumable processPkg).Done
      ((atOnce processPkg bs w).1.start, (atOnce processPkg bs w).2) := by
  refine processes_done (Nat.le_of_eq List.length_replicate.symm) (fun ns hns => ?_) h
  obtain ⟨hpos, rfl⟩ := List.mem_replicate.mp hns
  intro hnil
  exact hpos (by simpa using congrArg List.length hnil)

end CWaiter

open Signal in
/-- **Framing does not depend on the cuts.** Whatever its reads get and wherever a
callback ends, a service and a waiter call what they call with the whole stream
there, up to where they have got to; at the end of the stream, or once they have
given up, they have done the same and left the same bytes. -/
theorem cuts :
    (∀ {σ : Type} (H : Handler σ) (cbs : List (List Nat)) (bs : List UInt8) (c : Served σ),
      (Served.callbacks H cbs bs c).2.1 <+: (Served.atOnce H bs c).2.1 ∧
        ((Served.callbacks H cbs bs c).2.2 = [] ∨ (Served.callbacks H cbs bs c).1.closed = true →
          Served.callbacks H cbs bs c = Served.atOnce H bs c)) ∧
    ∀ {σ : Type} (processPkg : List UInt8 → σ → σ × EmState) (events : List (List Nat))
      (bs : List UInt8) (obj : σ),
      (CWaiter.processes processPkg events bs { obj := obj }).2.1 <+:
          (CWaiter.atOnce processPkg bs { obj := obj }).2.1 ∧
        ((CWaiter.processes processPkg events bs { obj := obj }).2.2 = [] ∨
            (CWaiter.processes processPkg events bs { obj := obj }).1.released = true →
          (CWaiter.processes processPkg events bs { obj := obj }).2 =
            (CWaiter.atOnce processPkg bs { obj := obj }).2) := by
  constructor
  · intro σ H cbs bs c
    have hr := Served.callbacks_reaches (H := H) cbs bs c
    have hw : (Served.resumable H).Reaches bs c (Served.atOnce H bs c) := Served.callbacks_reaches _ bs c
    have hd := Served.atOnce_done (H := H) bs c
    refine ⟨hr.prefix_of_done hw hd, fun hend => hr.unique hw ?_ hd⟩
    exact hend.imp_right fun hclosed => if_pos hclosed
  · intro σ processPkg events bs obj
    have hgood : CWaiter.Good (CWaiter.start { obj := obj }) := CWaiter.good_start rfl
    have hr := CWaiter.processes_reaches processPkg events bs hgood
    have hw : (CWaiter.resumable processPkg).Reaches bs (CWaiter.start { obj := obj })
        ((CWaiter.atOnce processPkg bs { obj := obj }).1.start,
          (CWaiter.atOnce processPkg bs { obj := obj }).2) := CWaiter.processes_reaches _ _ bs hgood
    have hd := CWaiter.atOnce_done processPkg bs hgood
    have hpre := hr.prefix_of_done hw hd
    refine ⟨hpre, fun hend => ?_⟩
    have hend' : (CWaiter.resumable processPkg).Done
        ((CWaiter.processes processPkg events bs { obj := obj }).1.start,
          (CWaiter.processes processPkg events bs { obj := obj }).2) := by
      refine hend.imp_right fun hreleased => if_pos ?_
      rw [CWaiter.released_start]
      exact hreleased
    exact (Prod.mk.inj (hr.unique hw hend' hd)).2

end NatFramework.Tunnel
