import NatFramework.Lib.CString
import NatFramework.Td.Engine

/-!
# The CTP engine

The order callbacks and `req_order_insert` of `td/CTDEngineCtp`. The vendor's
structures are given the fields these functions read. A callback names its order
by the request id or by the text of `OrderRef`, which is that id in decimal.

What the risk account and the front answer to a new order is an argument of
`reqOrderInsert`.
-/
namespace NatFramework.Td

open Lib

/-! ## The vendor's structures -/

/-- `THOST_FTDC_OST_*`. -/
inductive OrderStatus where
  | allTraded | partTradedQueueing | partTradedNotQueueing | noTradeQueueing | noTradeNotQueueing
  | canceled | unknown | notTouched | touched
  | other (code : Int)
  deriving DecidableEq, Repr

structure InputOrderField where
  userId : Int
  orderRef : String
  instrumentId : String
  deriving DecidableEq, Repr

structure OrderActionField where
  userId : Int
  orderRef : String
  instrumentId : String
  deriving DecidableEq, Repr

structure RspInfoField where
  errorId : Int
  errorMsg : String
  deriving DecidableEq, Repr

structure OrderField where
  userId : Int
  orderRef : String
  instrumentId : String
  orderStatus : OrderStatus
  volumeTotal : Int
  statusMsg : String
  deriving DecidableEq, Repr

structure TradeField where
  userId : Int
  orderRef : String
  tradeId : String
  instrumentId : String
  price : ℚ
  volume : Int
  direction : Dir
  offsetFlag : Off
  deriving DecidableEq, Repr

/-- mirrors include/IOCommon.h:69-82 -/
structure IOInputOrderField where
  from_ : Int
  localId : Int
  accIdx : Int
  instrHash : Hash
  instr : String
  price : ℚ
  vol : Int
  dir : Dir
  off : Off
  stgId : Int
  deriving DecidableEq, Repr

namespace Engine

/-! ## Order callbacks -/

/-- `CHK_USERID`.
mirrors td/CTDEngineCtp.cpp:17 -/
def chkUserId (e : Engine) (userId : Int) : Bool := userId = e.intUserId

/-- The fields every CTP callback fills first: those of the track, the
instrument of the vendor's structure, the request id. -/
def fillRtn (t : OrderTrack) (instrumentId : String) (id : Int) (e : Engine) : IOOrderRtn :=
  let p := e.writer.prefetch
  { p with
    to_ := t.from_
    rtnMsg :=
      { p.rtnMsg with
        localId := t.localId, instr := instrumentId, instrHash := e.nameHash instrumentId
        price := t.price, vol := t.vol, dir := t.dir, off := t.off, orderRef := id
        frontId := t.frontId, sessionId := t.sessionId } }

/-- The common body of the four error callbacks: `type` is added to the status
and returned with the vendor's error. -/
def errRtn (type : OrderRtnType) (id : Int) (instrumentId : String) (rspInfo : RspInfoField)
    (e : Engine) : Engine :=
  let t := e.getRequestTrack id
  let t := { t with status := t.status ||| ods type }
  let p := e.fillRtn t instrumentId id
  e.post id t
    { p with
      rtnMsg :=
        { p.rtnMsg with msgType := ods type, errid := rspInfo.errorId, msg := rspInfo.errorMsg } }

/-- mirrors td/CTDEngineCtp.cpp:495-527 -/
def onRspOrderInsert (pInputOrder : InputOrderField) (pRspInfo : Option RspInfoField)
    (nRequestId : Int) (e : Engine) : Engine :=
  if e.checkRequestId nRequestId then
    match pRspInfo with
    | none => e
    | some rspInfo =>
      if (e.getRequestTrack nRequestId).from_ ≠ 0 ∧ e.chkUserId pInputOrder.userId then
        -- a final state
        if (e.getRequestTrack nRequestId).status.has .reject then e
        else e.errRtn .reject nRequestId pInputOrder.instrumentId rspInfo
      else e
  else e

/-- mirrors td/CTDEngineCtp.cpp:532-564 -/
def onRspOrderAction (pInputOrderAction : OrderActionField) (pRspInfo : Option RspInfoField)
    (nRequestId : Int) (e : Engine) : Engine :=
  if e.checkRequestId nRequestId then
    match pRspInfo with
    | none => e
    | some rspInfo =>
      if (e.getRequestTrack nRequestId).from_ ≠ 0 ∧ e.chkUserId pInputOrderAction.userId then
        e.errRtn .cancelReject nRequestId pInputOrderAction.instrumentId rspInfo
      else e
  else e

/-- The cases of the switch that say the order is on the market.
mirrors td/CTDEngineCtp.cpp:617-623 -/
def marketAccept (id : Int) (t : OrderTrack) (p : IOOrderRtn) (e : Engine) : Engine :=
  if t.status.has .marketAccept then (e.setRequestTrack id t).discard p
  else
    e.post id { t with status := t.status ||| ods .marketAccept }
      { p with rtnMsg := { p.rtnMsg with msgType := ods .marketAccept } }

/-- A status the switch does not know leaves `msg_type` as the frame has it.
mirrors td/CTDEngineCtp.cpp:570-628 -/
def onRtnOrder (pOrder : OrderField) (e : Engine) : Engine :=
  let requestId := CString.atoi pOrder.orderRef
  if e.chkUserId pOrder.userId ∧ e.checkRequestId requestId then
    let t := e.getRequestTrack requestId
    let p := e.fillRtn t pOrder.instrumentId requestId
    match pOrder.orderStatus with
    | .unknown =>
      if t.status.has .accept then e.discard p
      else
        e.post requestId { t with status := t.status ||| ods .accept }
          { p with rtnMsg := { p.rtnMsg with msgType := ods .accept } }
    | .canceled | .partTradedNotQueueing =>
      if t.status.has .canceled then e.discard p
      else
        e.post requestId { t with status := t.status ||| ods .canceled }
          { p with
            rtnMsg :=
              { p.rtnMsg with
                msgType := ods .canceled, vol := pOrder.volumeTotal, msg := pOrder.statusMsg } }
    | .allTraded => e.marketAccept requestId { t with status := t.status ||| ods .closed } p
    | .noTradeQueueing | .partTradedQueueing => e.marketAccept requestId t p
    | _ => e.post requestId t p
  else e

/-- The track of an order after a fill. -/
def filled (volume : Int) (price : ℚ) (t : OrderTrack) : OrderTrack :=
  let t :=
    { t with
      status := t.status ||| ods .execution, volTraded := t.volTraded + volume
      amountTraded := t.amountTraded + price * volume }
  if t.volTraded ≥ t.vol then { t with status := t.status ||| ods .closed } else t

/-- mirrors td/CTDEngineCtp.cpp:630-662 -/
def onRtnTrade (pTrade : TradeField) (e : Engine) : Engine :=
  let requestId := CString.atoi pTrade.orderRef
  if e.chkUserId pTrade.userId ∧ e.checkRequestId requestId then
    match e.testOtId requestId (CString.strtoll pTrade.tradeId) with
    | (e, true) => e
    | (e, false) =>
      let t := e.getRequestTrack requestId
      if t.from_ ≠ 0 then
        let p := e.fillRtn t pTrade.instrumentId requestId
        e.post requestId (filled pTrade.volume pTrade.price t)
          { p with
            rtnMsg :=
              { p.rtnMsg with
                msgType := ods .execution, price := pTrade.price, vol := pTrade.volume
                dir := pTrade.direction, off := pTrade.offsetFlag } }
      else e
  else e

/-- mirrors td/CTDEngineCtp.cpp:669-702 -/
def onErrRtnOrderInsert (pInputOrder : InputOrderField) (rspInfo : RspInfoField) (e : Engine) :
    Engine :=
  let requestId := CString.atoi pInputOrder.orderRef
  if e.chkUserId pInputOrder.userId ∧ e.checkRequestId requestId then
    if (e.getRequestTrack requestId).from_ ≠ 0 then
      -- a final state
      if (e.getRequestTrack requestId).status.has .marketReject then e
      else e.errRtn .marketReject requestId pInputOrder.instrumentId rspInfo
    else e
  else e

/-- mirrors td/CTDEngineCtp.cpp:707-737 -/
def onErrRtnOrderAction (pOrderAction : OrderActionField) (rspInfo : RspInfoField) (e : Engine) :
    Engine :=
  let requestId := CString.atoi pOrderAction.orderRef
  if e.chkUserId pOrderAction.userId ∧ e.checkRequestId requestId then
    if (e.getRequestTrack requestId).from_ ≠ 0 then
      e.errRtn .cancelReject requestId pOrderAction.instrumentId rspInfo
    else e
  else e

/-! ## New orders -/

/-- mirrors td/ITDEngine.cpp:271-291 -/
def writeErrRtn (d : IOInputOrderField) (errid : Int) (msg : String) (e : Engine) : Engine :=
  let p := e.writer.prefetch
  e.commit
    { p with
      to_ := d.from_
      rtnMsg :=
        { p.rtnMsg with
          msgType := ods .err, localId := d.localId, instrHash := d.instrHash, instr := d.instr
          price := d.price, vol := d.vol, dir := d.dir, off := d.off, orderRef := -1, frontId := -1
          sessionId := -1, errid, msg } }

/-- The track of an accepted order; `amount_traded` is not among the fields set.
mirrors td/CTDEngineCtp.cpp:770-785 -/
def insertTrack (d : IOInputOrderField) (unit : AccountUnit) (id : Int) (t : OrderTrack) :
    OrderTrack :=
  { t with
    status := ods .tdSend, instrHash := d.instrHash, instr := d.instr, price := d.price, vol := d.vol
    dir := d.dir, off := d.off, volTraded := 0, from_ := d.from_, localId := d.localId
    accId := d.accIdx, orderRef := id, frontId := unit.frontId, sessionId := unit.sessionId
    stgId := d.stgId }

/-- `riskRet` is what `util->check` returns, `apiRet` what `ReqOrderInsert` does.
mirrors td/CTDEngineCtp.cpp:741-819 -/
def reqOrderInsert (d : IOInputOrderField) (riskRet apiRet : Int) (e : Engine) : Engine :=
  match (if 0 ≤ d.accIdx then e.accountUnits[d.accIdx.toNat]? else none) with
  | none => e.writeErrRtn d (-1) "account idx err."
  | some unit =>
    if riskRet ≠ 0 then e.writeErrRtn d riskRet "risk check failed"
    else
      let e := { e with sent := e.sent ++ [(e.requestId, apiRet)] }
      if apiRet = 0 then
        let id := e.requestId
        let e := e.setRequestTrack id (insertTrack d unit id (e.getRequestTrack id))
        let p := e.writer.prefetch
        let e := e.commit
          { p with
            to_ := d.from_
            rtnMsg :=
              { p.rtnMsg with
                msgType := ods .tdSend, localId := d.localId, instrHash := d.instrHash
                instr := d.instr, price := d.price, vol := d.vol, dir := d.dir, off := d.off
                orderRef := id, frontId := unit.frontId, sessionId := unit.sessionId } }
        { e with requestId := id + 1 }
      else e.writeErrRtn d apiRet "ctp ReqOrderInsert api failed."

end Engine

/-! ## Callbacks as events -/

inductive CtpCallback where
  | rspOrderInsert (p : InputOrderField) (rsp : Option RspInfoField) (nRequestId : Int)
  | rspOrderAction (p : OrderActionField) (rsp : Option RspInfoField) (nRequestId : Int)
  | rtnOrder (p : OrderField)
  | rtnTrade (p : TradeField)
  | errRtnOrderInsert (p : InputOrderField) (rsp : RspInfoField)
  | errRtnOrderAction (p : OrderActionField) (rsp : RspInfoField)
  deriving DecidableEq, Repr

namespace CtpCallback

/-- The request id a callback is about. -/
def requestId : CtpCallback → Int
  | rspOrderInsert _ _ id | rspOrderAction _ _ id => id
  | rtnOrder p => CString.atoi p.orderRef
  | rtnTrade p => CString.atoi p.orderRef
  | errRtnOrderInsert p _ => CString.atoi p.orderRef
  | errRtnOrderAction p _ => CString.atoi p.orderRef

def apply : CtpCallback → Engine → Engine
  | rspOrderInsert p rsp id, e => e.onRspOrderInsert p rsp id
  | rspOrderAction p rsp id, e => e.onRspOrderAction p rsp id
  | rtnOrder p, e => e.onRtnOrder p
  | rtnTrade p, e => e.onRtnTrade p
  | errRtnOrderInsert p rsp, e => e.onErrRtnOrderInsert p rsp
  | errRtnOrderAction p rsp, e => e.onErrRtnOrderAction p rsp

end CtpCallback

end NatFramework.Td
