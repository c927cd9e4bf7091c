import NatFramework.Td.Ctp

/-!
# The EES engine

The order callbacks of `td/CTDEngineEES`. The vendor's structures are given the
fields these functions read; an order is named by its client token, which is the
request id.
-/
namespace NatFramework.Td

open Lib

structure OrderAcceptField where
  clientOrderToken : Int
  marketOrderToken : Int
  deriving DecidableEq, Repr

structure OrderRejectField where
  clientOrderToken : Int
  reasonCode : Int
  deriving DecidableEq, Repr

structure OrderMarketAcceptField where
  clientOrderToken : Int
  marketOrderToken : Int
  deriving DecidableEq, Repr

structure OrderMarketRejectField where
  clientOrderToken : Int
  marketOrderToken : Int
  reasonText : String
  deriving DecidableEq, Repr

structure OrderExecutionField where
  clientOrderToken : Int
  marketOrderToken : Int
  executionId : Int
  quantity : Int
  price : ℚ
  deriving DecidableEq, Repr

structure OrderCxled where
  clientOrderToken : Int
  marketOrderToken : Int
  decrement : Int
  reason : Int
  deriving DecidableEq, Repr

namespace Engine

/-- mirrors td/CTDEngineEES.cpp:575-589 -/
def onOrderAccept (pAccept : OrderAcceptField) (e : Engine) : Engine :=
  let id := pAccept.clientOrderToken
  if e.checkRequestId id then
    let t := e.getRequestTrack id
    if t.status.has .accept then e
    else
      let t :=
        { t with
          status := t.status ||| ods .accept, frontId := pAccept.marketOrderToken, sessionId := 1 }
      let p := e.writeRtnFromTrack t
      e.post id t { p with rtnMsg := { p.rtnMsg with msgType := ods .accept } }
  else e

/-- mirrors td/CTDEngineEES.cpp:591-605 -/
def onOrderReject (pReject : OrderRejectField) (e : Engine) : Engine :=
  let id := pReject.clientOrderToken
  if e.checkRequestId id then
    let t := e.getRequestTrack id
    if t.status.has .reject then e
    else
      let t := { t with status := t.status ||| ods .reject }
      let p := e.writeRtnFromTrack t
      e.post id t
        { p with rtnMsg := { p.rtnMsg with msgType := ods .reject, errid := pReject.reasonCode } }
  else e

/-- mirrors td/CTDEngineEES.cpp:607-622 -/
def onOrderMarketAccept (pAccept : OrderMarketAcceptField) (e : Engine) : Engine :=
  let id := pAccept.clientOrderToken
  if e.checkRequestId id then
    let t := e.getRequestTrack id
    if t.status.has .marketAccept then e
    else
      let t :=
        { t with
          status := t.status ||| ods .marketAccept, frontId := pAccept.marketOrderToken
          sessionId := 1 }
      let p := e.writeRtnFromTrack t
      e.post id t { p with rtnMsg := { p.rtnMsg with msgType := ods .marketAccept } }
  else e

/-- mirrors td/CTDEngineEES.cpp:624-643 -/
def onOrderMarketReject (pReject : OrderMarketRejectField) (e : Engine) : Engine :=
  let id := pReject.clientOrderToken
  if e.checkRequestId id then
    let t := e.getRequestTrack id
    if t.status.has .marketReject then e
    else
      let t :=
        { t with
          status := t.status ||| ods .marketReject, frontId := pReject.marketOrderToken
          sessionId := 1 }
      let p := e.writeRtnFromTrack t
      e.post id t
        { p with
          rtnMsg :=
            { p.rtnMsg with msgType := ods .marketReject, errid := -1, msg := pReject.reasonText } }
  else e

/-- mirrors td/CTDEngineEES.cpp:645-664 -/
def onOrderExecution (pExec : OrderExecutionField) (e : Engine) : Engine :=
  let id := pExec.clientOrderToken
  if e.checkRequestId id then
    match e.testOtId id pExec.executionId with
    | (e, true) => e
    | (e, false) =>
      let t :=
        { filled pExec.quantity pExec.price (e.getRequestTrack id) with
          frontId := pExec.marketOrderToken, sessionId := 1 }
      let p := e.writeRtnFromTrack t
      e.post id t
        { p with
          rtnMsg :=
            { p.rtnMsg with
              msgType := ods .execution, price := pExec.price, vol := pExec.quantity } }
  else e

/-- mirrors td/CTDEngineEES.cpp:666-683 -/
def onOrderCxled (pCxled : OrderCxled) (e : Engine) : Engine :=
  let id := pCxled.clientOrderToken
  if e.checkRequestId id then
    let t := e.getRequestTrack id
    if t.status.has .canceled then e
    else
      let t :=
        { t with
          status := t.status ||| ods .canceled, frontId := pCxled.marketOrderToken, sessionId := 1 }
      let p := e.writeRtnFromTrack t
      e.post id t
        { p with
          rtnMsg :=
            { p.rtnMsg with
              msgType := ods .canceled, vol := pCxled.decrement, errid := pCxled.reason } }
  else e

end Engine

inductive EesCallback where
  | orderAccept (p : OrderAcceptField)
  | orderReject (p : OrderRejectField)
  | orderMarketAccept (p : OrderMarketAcceptField)
  | orderMarketReject (p : OrderMarketRejectField)
  | orderExecution (p : OrderExecutionField)
  | orderCxled (p : OrderCxled)
  deriving DecidableEq, Repr

namespace EesCallback

/-- The request id a callback is about. -/
def requestId : EesCallback → Int
  | orderAccept p => p.clientOrderToken
  | orderReject p => p.clientOrderToken
  | orderMarketAccept p => p.clientOrderToken
  | orderMarketReject p => p.clientOrderToken
  | orderExecution p => p.clientOrderToken
  | orderCxled p => p.clientOrderToken

def apply : EesCallback → Engine → Engine
  | orderAccept p, e => e.onOrderAccept p
  | orderReject p, e => e.onOrderReject p
  | orderMarketAccept p, e => e.onOrderMarketAccept p
  | orderMarketReject p, e => e.onOrderMarketReject p
  | orderExecution p, e => e.onOrderExecution p
  | orderCxled p, e => e.onOrderCxled p

end EesCallback

end NatFramework.Td
