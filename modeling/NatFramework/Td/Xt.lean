import NatFramework.Td.Ctp

/-!
# The Xt engine

The order callbacks, `req_order_insert` and the start-up queries of
`td/CTDEngineXt`. The front names an order by its own order id; the engine keeps
that id in the track (`session_id`, with `front_id` 1) and in `order2request_`,
which a new process starts without.

* The vendor's header is not part of the repository: a status comes with the
  number it has there, which is returned as `errid`.
* `XtError` is `none` for success.
* The queries of the start have ids of the range.
-/
namespace NatFramework.Td

open Lib

/-! ## The vendor's structures -/

/-- `EOrderCommandStatus` -/
inductive OrderCommandStatus where
  | rejected | froceCompleted | checkFailed | finished | stopped | other
  deriving DecidableEq, Repr

/-- `EEntrustStatus` -/
inductive EntrustStatus where
  | waitEnd | unreported | waitReporting | reported | unknown | accept | confirmed | determined
  | prepareOrder | reportedCancel | partSuccCancel | partCancel | partSucc | succeeded
  | prepareCanceled | canceled | junk | other
  deriving DecidableEq, Repr

/-- `COrderInfo` -/
structure OrderInfo where
  orderId : Int
  status : OrderCommandStatus
  code : Int
  msg : String
  deriving DecidableEq, Repr

/-- `COrderDetail` -/
structure OrderDetail where
  orderId : Int
  orderStatus : EntrustStatus
  code : Int
  errorMsg : String
  instrumentId : String
  limitPrice : ℚ
  totalVolume : Int
  isBuy : Bool
  tradedVolume : Int
  deriving DecidableEq, Repr

/-- `CDealDetail` -/
structure DealDetail where
  orderId : Int
  tradeId : String
  averagePrice : ℚ
  volume : Int
  deriving DecidableEq, Repr

/-- `COrderError` and `CCancelError` -/
structure XtErrorField where
  requestId : Int
  errorId : Int
  errorMsg : String
  deriving DecidableEq, Repr

/-- mirrors td/CTDEngineXt.h:147 -/
structure XtEngine extends Engine where
  order2request : UMap Int Int := ∅

namespace XtEngine

/-! ## Order callbacks -/

/-- The common body of the callbacks: `type` is added to the status of `t` and
returned, after `f` has set further fields of the message. -/
def rtn (type : OrderRtnType) (id : Int) (t : OrderTrack) (f : OrderTrack → RtnMsg → RtnMsg)
    (e : XtEngine) : XtEngine :=
  let t := { t with status := t.status ||| ods type }
  let p := e.writeRtnFromTrack t
  { e with
    toEngine := e.post id t { p with rtnMsg := f t { p.rtnMsg with msgType := ods type } } }

def failed (errid : Int) (msg : String) (_ : OrderTrack) (m : RtnMsg) : RtnMsg := { m with errid, msg }

/-- What is left of the order. -/
def rest (errid : Int) (msg : String) (t : OrderTrack) (m : RtnMsg) : RtnMsg :=
  { m with vol := t.vol - t.volTraded, errid, msg }

/-- The success branch enters the order id; the other has no test for `REJECT`.
mirrors td/CTDEngineXt.cpp:416-446 -/
def onOrder (nRequestId orderId : Int) (error : Option RspInfoField) (e : XtEngine) : XtEngine :=
  if e.checkRequestId nRequestId then
    let t := e.getRequestTrack nRequestId
    match error with
    | none =>
      let e := e.rtn .accept nRequestId { t with frontId := 1, sessionId := orderId } fun _ m => m
      { e with order2request := e.order2request.insert orderId nRequestId }
    | some err => e.rtn .reject nRequestId t (failed err.errorId err.errorMsg)
  else e

/-- mirrors td/CTDEngineXt.cpp:448-464 -/
def onRtnOrderError (data : XtErrorField) (e : XtEngine) : XtEngine :=
  if e.checkRequestId data.requestId then
    let t := e.getRequestTrack data.requestId
    if t.status.has .reject then e
    else e.rtn .reject data.requestId t (failed data.errorId data.errorMsg)
  else e

/-- mirrors td/CTDEngineXt.cpp:466-525 -/
def onRtnOrder (data : OrderInfo) (e : XtEngine) : XtEngine :=
  match e.order2request.lookup data.orderId with
  | none => e
  | some id =>
    let t := e.getRequestTrack id
    match data.status with
    | .rejected | .froceCompleted | .checkFailed =>
      if t.status.has .reject then e else e.rtn .reject id t (failed data.code data.msg)
    | .finished =>
      if t.status.has .closed then e else e.rtn .closed id t (failed data.code data.msg)
    | .stopped =>
      if t.status.has .canceled then e else e.rtn .canceled id t (rest data.code data.msg)
    | .other => e

/-- `SUCCEEDED` marks the track without a message, `JUNK` has no test.
mirrors td/CTDEngineXt.cpp:527-586 -/
def onRtnOrderDetail (data : OrderDetail) (e : XtEngine) : XtEngine :=
  match e.order2request.lookup data.orderId with
  | none => e
  | some id =>
    let t := e.getRequestTrack id
    match data.orderStatus with
    | .waitEnd | .unreported | .waitReporting | .reported | .unknown | .reportedCancel
    | .partSuccCancel | .partCancel | .partSucc | .accept | .confirmed | .determined
    | .prepareOrder => e.rtn .marketAccept id t fun _ m => { m with errid := data.code }
    | .succeeded =>
      { e with
        toEngine := e.setRequestTrack id
          { t with status := t.status ||| (ods .execution ||| ods .closed) } }
    | .prepareCanceled | .canceled =>
      if t.status.has .canceled then e else e.rtn .canceled id t (rest data.code data.errorMsg)
    | .junk => e.rtn .marketReject id t fun _ m => { m with errid := data.code }
    | .other => e

/-- mirrors td/CTDEngineXt.cpp:588-609 -/
def onRtnDealDetail (data : DealDetail) (e : XtEngine) : XtEngine :=
  match e.order2request.lookup data.orderId with
  | none => e
  | some id =>
    match e.testOtId id (CString.strtoll data.tradeId) with
    | (e1, true) => { e with toEngine := e1 }
    | (e1, false) =>
      let t := Engine.filled data.volume data.averagePrice (e.getRequestTrack id)
      let p := e1.writeRtnFromTrack t
      { e with
        toEngine := e1.post id t
          { p with
            rtnMsg :=
              { p.rtnMsg with
                msgType := ods .execution, price := data.averagePrice, vol := data.volume } } }

/-- mirrors td/CTDEngineXt.cpp:611-629 -/
def onCancel (nRequestId : Int) (error : Option RspInfoField) (e : XtEngine) : XtEngine :=
  if e.checkRequestId nRequestId then
    match error with
    | none => e
    | some err =>
      e.rtn .cancelReject nRequestId (e.getRequestTrack nRequestId) (failed err.errorId err.errorMsg)
  else e

/-- mirrors td/CTDEngineXt.cpp:631-650 -/
def onRtnCancelError (data : XtErrorField) (e : XtEngine) : XtEngine :=
  if e.checkRequestId data.requestId then
    let t := e.getRequestTrack data.requestId
    if t.from_ ≠ 0 then e.rtn .cancelReject data.requestId t (failed data.errorId data.errorMsg)
    else e
  else e

/-! ## New orders -/

/-- mirrors td/CTDEngineXt.cpp:353-368 -/
def insertTrack (d : IOInputOrderField) (id : Int) (t : OrderTrack) : OrderTrack :=
  { t with
    status := ods .tdSend, instrHash := d.instrHash, instr := d.instr, price := d.price, vol := d.vol
    dir := d.dir, off := d.off, volTraded := 0, from_ := d.from_, localId := d.localId
    accId := d.accIdx, orderRef := id, frontId := 0, sessionId := 0, stgId := d.stgId }

/-- The vendor's `order` has no result. `riskRet` is what `util->check` returns.
mirrors td/CTDEngineXt.cpp:324-394 -/
def reqOrderInsert (info : TradeBaseInfo) (d : IOInputOrderField) (riskRet : Int) (e : XtEngine) :
    XtEngine :=
  match (if 0 ≤ d.accIdx then e.accountUnits[d.accIdx.toNat]? else none) with
  | none => { e with toEngine := e.writeErrRtn d (-1) "account idx err." }
  | some _ =>
    if riskRet ≠ 0 then { e with toEngine := e.writeErrRtn d riskRet "risk check failed" }
    else
      match info.find d.instrHash with
      | none =>
        { e with toEngine := e.writeErrRtn d (-1) "instrument not found in base info list" }
      | some _ =>
        let id := e.requestId
        let e1 := e.setRequestTrack id (insertTrack d id (e.getRequestTrack id))
        let p := e1.writer.prefetch
        let e1 := e1.commit
          { p with
            to_ := d.from_
            rtnMsg :=
              { p.rtnMsg with
                msgType := ods .tdSend, localId := d.localId, instrHash := d.instrHash
                instr := d.instr, price := d.price, vol := d.vol, dir := d.dir, off := d.off
                orderRef := id, frontId := 0, sessionId := 0 } }
        { e with toEngine := { e1 with requestId := id + 1, sent := e1.sent ++ [(id, 0)] } }

/-! ## The start of a process -/

/-- The first of `n` slots with the front's order id. -/
def findSlot (n : Nat) (orderId : Int) (e : Engine) : Option Nat :=
  (List.range n).find? fun i =>
    (e.requestTrack i).frontId = 1 ∧ (e.requestTrack i).sessionId = orderId

/-- `none` for `nullptr`.
mirrors td/CTDEngineXt.cpp:311-322 -/
def findOrderId (orderId : Int) (e : Engine) : Option Nat :=
  findSlot mmapOrderTrackSize.toNat orderId e

/-- The bits a reported order adds to its status. -/
def reportedBits : EntrustStatus → Status
  | .waitEnd | .unreported | .waitReporting | .reported | .unknown | .accept | .confirmed
  | .determined | .prepareOrder => ods .accept ||| ods .marketAccept
  | .reportedCancel | .partSuccCancel | .partCancel =>
    ods .accept ||| ods .marketAccept ||| ods .cxling
  | .succeeded => ods .closed ||| (ods .accept ||| ods .marketAccept ||| ods .execution)
  | .partSucc => ods .accept ||| ods .marketAccept ||| ods .execution
  | .canceled | .prepareCanceled => ods .canceled
  | .junk => ods .marketReject
  | .other => 0

/-- `f` at the slot of a track, nothing for `nullptr`. -/
def atSlot (f : Nat → XtEngine) (e : XtEngine) : Option Nat → XtEngine
  | none => e
  | some i => f i

/-- What a reported order writes to its slot.
mirrors td/CTDEngineXt.cpp:778-824 -/
def enterOrder (curAccountIdx : Int) (data : OrderDetail) (e : XtEngine) (i : Nat) : XtEngine :=
  let t := e.requestTrack i
  let t :=
    { t with
      status := t.status ||| ods .tdSend ||| reportedBits data.orderStatus
      instr := data.instrumentId, instrHash := e.nameHash data.instrumentId
      price := data.limitPrice, vol := data.totalVolume, dir := if data.isBuy then .buy else .sell
      volTraded := data.tradedVolume, accId := curAccountIdx, frontId := 1
      sessionId := data.orderId }
  { e with
    requestTrack := Function.update e.requestTrack i t
    order2request := e.order2request.insert data.orderId i }

/-- An order reported for the account `curAccountIdx_`.
mirrors td/CTDEngineXt.cpp:760-827 -/
def onReqOrderDetail (curAccountIdx : Int) (data : OrderDetail) (e : XtEngine) : XtEngine :=
  e.atSlot (e.enterOrder curAccountIdx data) (findOrderId data.orderId e.toEngine)

def addDeal (data : DealDetail) (e : XtEngine) (i : Nat) : XtEngine :=
  let t := e.requestTrack i
  { e with
    requestTrack := Function.update e.requestTrack i
      { t with amountTraded := t.amountTraded + data.averagePrice * data.volume } }

/-- mirrors td/CTDEngineXt.cpp:853-872 -/
def onReqDealDetail (data : DealDetail) (e : XtEngine) : XtEngine :=
  e.atSlot (e.addDeal data) (findOrderId data.orderId e.toEngine)

/-- mirrors td/CTDEngineXt.cpp:829-851 -/
def updateTradedAmount (deals : List DealDetail) (e : XtEngine) : XtEngine :=
  let e := { e with requestTrack := fun i => { e.requestTrack i with amountTraded := 0 } }
  deals.foldl (fun e d => e.onReqDealDetail d) e

/-- The tracks are of the same trading day, so that they are kept. `details` are
the reported orders with the index of their account.
mirrors td/CTDEngineXt.cpp:733-758 -/
def updateOrderTrack (details : List (Int × OrderDetail)) (deals : List DealDetail) (e : XtEngine) :
    XtEngine :=
  let e := details.foldl (fun e d => e.onReqOrderDetail d.1 d.2) e
  let e := { e with requestId := e.requestIdStart + e.order2request.entries.length }
  e.updateTradedAmount deals

/-- A new process: the tracks are in a file, the rest of the memory is new. -/
def newProcess (e : XtEngine) : XtEngine where
  requestId := e.requestIdStart
  requestIdStart := e.requestIdStart
  requestIdEnd := e.requestIdEnd
  requestTrack := e.requestTrack
  writer := { frames := e.writer.frames }
  passed := e.passed
  sent := e.sent
  accountUnits := e.accountUnits
  intUserId := e.intUserId
  nameHash := e.nameHash

end XtEngine

/-! ## Callbacks as events -/

inductive XtCallback where
  | order (nRequestId orderId : Int) (error : Option RspInfoField)
  | rtnOrderError (data : XtErrorField)
  | rtnOrder (data : OrderInfo)
  | rtnOrderDetail (data : OrderDetail)
  | rtnDealDetail (data : DealDetail)
  | cancel (nRequestId : Int) (error : Option RspInfoField)
  | rtnCancelError (data : XtErrorField)
  deriving DecidableEq, Repr

def XtCallback.apply : XtCallback → XtEngine → XtEngine
  | order r o err, e => e.onOrder r o err
  | rtnOrderError d, e => e.onRtnOrderError d
  | rtnOrder d, e => e.onRtnOrder d
  | rtnOrderDetail d, e => e.onRtnOrderDetail d
  | rtnDealDetail d, e => e.onRtnDealDetail d
  | cancel r err, e => e.onCancel r err
  | rtnCancelError d, e => e.onRtnCancelError d

end NatFramework.Td
