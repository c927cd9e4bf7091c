import Mathlib.Logic.Function.Basic
import NatFramework.Base
import NatFramework.Lib.DupFilter

/-!
# The trade engine

The part of `td/ITDEngine` its vendor callbacks and order requests share: the
request id counter and its range, the order tracks and duplicate filters by
slot, the writer of return messages, and the call of the risk account.

* The shared arrays are functions of the slot, `id & (MMAP_ORDER_TRACK_SIZE - 1)`.
* The writer hands out the memory behind its last frame. That memory is zero but
  for what a discarded frame has left there, and is not cleared.
* `passed` records the calls of `engine_on_rtn`, `sent` those of the front.
-/
namespace NatFramework.Td

open Lib

/-- mirrors include/IOCommon.h:96-100 -/
structure IOOrderRtn where
  to_ : Int := 0
  rtnMsg : RtnMsg := {}
  deriving DecidableEq, Repr

/-- `writer_`: the frames written, and the memory of the next one. -/
structure Writer where
  frames : List IOOrderRtn := []
  free : IOOrderRtn := {}

namespace Writer

/-- mirrors io/CRawIOWriter.cpp:131-155,266-271 -/
def prefetch (w : Writer) : IOOrderRtn := w.free

/-- mirrors io/CRawIOWriter.cpp:159-165,273-276 -/
def commit (p : IOOrderRtn) (w : Writer) : Writer := { frames := w.frames ++ [p], free := {} }

/-- What has been written to the frame stays there.
mirrors io/CRawIOWriter.cpp:278 -/
def discard (p : IOOrderRtn) (w : Writer) : Writer := { w with free := p }

end Writer

/-- mirrors include/ATStructure.h:278-279 -/
def mmapOrderTrackSize : Int := 256 * 1024

/-- `id & (MMAP_ORDER_TRACK_SIZE - 1)`. -/
def slot (id : Int) : Int := id % mmapOrderTrackSize

theorem slot_eq_iff {i j : Int} : slot i = slot j ↔ (262144 : Int) ∣ i - j := by
  change i % 262144 = j % 262144 ↔ _
  omega

/-- mirrors td/ITDEngine.h:36-52; `front & (N - 1)` is `front % N` for the power
of two `N`. -/
abbrev CIDQueue := IdRing 4 Int

/-- A call of `engine_on_rtn`. -/
structure Passed where
  accIdx : Int
  track : OrderTrack
  msg : RtnMsg
  deriving DecidableEq, Repr

/-- The session of a trading account.
mirrors td/CTDEngineCtp.h (`AccountUnitCTP`) -/
structure AccountUnit where
  frontId : Int
  sessionId : Int
  deriving DecidableEq, Repr

/-- `sent` records the calls of `ReqOrderInsert`, the request id and the result
of each.
mirrors td/ITDEngine.h:135-176 -/
structure Engine where
  requestId : Int := 1
  requestIdStart : Int := 1
  requestIdEnd : Int := 1000000
  requestTrack : Int → OrderTrack := fun _ => {}
  otidfilter : Int → CIDQueue := fun _ => { ids := fun _ => 0 }
  writer : Writer := {}
  passed : List Passed := []
  sent : List (Int × Int) := []
  accountUnits : List AccountUnit := []
  intUserId : Int := 0
  nameHash : String → Hash := fun _ => 0

namespace Engine

/-- mirrors td/ITDEngine.h:84-86 -/
def checkRequestId (e : Engine) (id : Int) : Bool := e.requestIdStart ≤ id ∧ id ≤ e.requestIdEnd

/-- mirrors td/ITDEngine.h:90-92 -/
def getRequestTrack (e : Engine) (id : Int) : OrderTrack := e.requestTrack (slot id)

/-- A write through the reference `get_request_track` returns. -/
def setRequestTrack (id : Int) (t : OrderTrack) (e : Engine) : Engine :=
  { e with requestTrack := Function.update e.requestTrack (slot id) t }

/-- mirrors td/ITDEngine.h:94-100 -/
def testOtId (otid mid : Int) (e : Engine) : Engine × Bool :=
  let (q, res) := (e.otidfilter (slot otid)).test mid
  ({ e with otidfilter := Function.update e.otidfilter (slot otid) q }, res)

/-- mirrors td/ITDEngine.h:114-117 -/
def engineOnRtn (accIdx : Int) (ot : OrderTrack) (rtn : RtnMsg) (e : Engine) : Engine :=
  { e with passed := e.passed ++ [⟨accIdx, ot, rtn⟩] }

def commit (p : IOOrderRtn) (e : Engine) : Engine := { e with writer := e.writer.commit p }

def discard (p : IOOrderRtn) (e : Engine) : Engine := { e with writer := e.writer.discard p }

/-- The return a callback starts from, filled from the order's track.
mirrors td/ITDEngine.cpp:312-330 -/
def writeRtnFromTrack (t : OrderTrack) (e : Engine) : IOOrderRtn :=
  let p := e.writer.prefetch
  { p with
    to_ := t.from_
    rtnMsg :=
      { p.rtnMsg with
        localId := t.localId, instr := t.instr, instrHash := e.nameHash t.instr, price := t.price
        vol := t.vol, dir := t.dir, off := t.off, orderRef := t.orderRef, frontId := t.frontId
        sessionId := t.sessionId } }

/-- The last lines of a callback: the frame is committed, the risk account told. -/
def post (id : Int) (t : OrderTrack) (p : IOOrderRtn) (e : Engine) : Engine :=
  ((e.setRequestTrack id t).commit p).engineOnRtn t.accId t p.rtnMsg

section Views

variable (e : Engine) (id : Int) (t : OrderTrack) (p : IOOrderRtn)

@[simp] theorem getRequestTrack_set : (e.setRequestTrack id t).getRequestTrack id = t := by
  simp [getRequestTrack, setRequestTrack]

@[simp] theorem getRequestTrack_post : (e.post id t p).getRequestTrack id = t :=
  getRequestTrack_set e id t

@[simp] theorem passed_post : (e.post id t p).passed = e.passed ++ [⟨t.accId, t, p.rtnMsg⟩] := rfl

@[simp] theorem free_post : (e.post id t p).writer.free = {} := rfl

@[simp] theorem otidfilter_post : (e.post id t p).otidfilter = e.otidfilter := rfl

end Views

end Engine

end NatFramework.Td
