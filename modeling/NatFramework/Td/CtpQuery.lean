import NatFramework.Lib.Writes
import NatFramework.Td.AccountUtilis
import NatFramework.Td.Ctp

/-!
# The queries of a restarted CTP engine

`updateOrderTrack` asks the front for the orders of each account and merges the
answers into the tracks of the file; `updateTradedAmount` asks for the trades and
sums their amounts up. An answer of the front is the list of its callbacks up to
the moment the engine looks at `query_complete_flag_`.

* `merged`: the reported order in a track. The status the front reports is overwritten
  before the switch reads it, so that no bit is merged.
* `Reported`, `Traded`: what the callbacks of one query leave.
* `restored_of_update`: the tracks and the ids after both queries.
-/
namespace NatFramework.Td

open Lib

/-! ## The vendor's structures -/

structure QryOrderField where
  userId : Int
  orderRef : String
  instrumentId : String
  orderStatus : OrderStatus
  limitPrice : ℚ
  volumeTotalOriginal : Int
  volumeTraded : Int
  direction : Dir
  frontId : Int
  sessionId : Int
  deriving DecidableEq, Repr

structure QryTradeField where
  userId : Int
  orderRef : String
  price : ℚ
  volume : Int
  deriving DecidableEq, Repr

/-- The order's reference as a number. -/
def QryOrderField.ref (p : QryOrderField) : Int := CString.atoi p.orderRef

def QryTradeField.ref (p : QryTradeField) : Int := CString.atoi p.orderRef

def QryTradeField.amount (p : QryTradeField) : ℚ := p.price * p.volume

/-- The arguments of one `OnRspQry` callback. -/
structure QryRsp (α : Type) where
  data : Option α
  nRequestId : Int
  bIsLast : Bool
  deriving DecidableEq, Repr

/-- What the front makes of a query: the result of the call, and the callbacks. -/
structure QryAnswer (α : Type) where
  ret : Int := 0
  rsps : List (QryRsp α)
  deriving DecidableEq, Repr

def QryAnswer.datas {α : Type} (a : QryAnswer α) : List α := a.rsps.filterMap (·.data)

/-! ## The callbacks -/

/-- The engine with the fields of a restart; `trackDay` is the trading day of the
track file.
mirrors td/CTDEngineCtp.h:136-146 and include/ATStructure.h:280-286 -/
structure CtpEngine extends Engine where
  maxRefId : Int := 0
  curAccountIdx : Int := 0
  queryComplete : Bool := false
  trackDay : String := ""

/-- The switch over the reported status.
mirrors td/CTDEngineCtp.cpp:935-956 -/
def OrderStatus.mergeStatus (s : Status) : OrderStatus → Status
  | .unknown => s ||| ods .accept
  | .canceled | .partTradedNotQueueing => s ||| ods .canceled
  | .noTradeQueueing => s ||| ods .marketAccept
  | .allTraded => s ||| ods .closed ||| ods .execution
  | .partTradedQueueing => s ||| ods .execution
  | _ => s

/-- The reported order in the track `t`. The status is overwritten first; `off` is
left as it is. -/
def QryOrderField.merged (nameHash : String → Hash) (accIdx : Int) (p : QryOrderField)
    (t : OrderTrack) : OrderTrack :=
  let p := { p with orderStatus := .other (ods .tdSend).toNat }
  { t with
    status := p.orderStatus.mergeStatus t.status, instr := p.instrumentId
    instrHash := nameHash p.instrumentId, price := p.limitPrice, vol := p.volumeTotalOriginal
    dir := p.direction, volTraded := p.volumeTraded, accId := accIdx, orderRef := p.ref
    frontId := p.frontId, sessionId := p.sessionId }

namespace CtpEngine

/-- A write through the reference `get_request_track` returns. -/
def setRequestTrack (id : Int) (t : OrderTrack) (e : CtpEngine) : CtpEngine :=
  { e with toEngine := e.toEngine.setRequestTrack id t }

/-- What the two callbacks share: the request id is tested, the last one of a
query completes it, the data may be missing. -/
def onRspQry {α : Type} (body : α → CtpEngine → CtpEngine) (data : Option α) (nRequestId : Int)
    (bIsLast : Bool) (e : CtpEngine) : CtpEngine :=
  if e.checkRequestId nRequestId then
    let e := { e with queryComplete := bIsLast || e.queryComplete }
    match data with
    | none => e
    | some p => body p e
  else e

/-- mirrors td/CTDEngineCtp.cpp:920-971 -/
def onRspQryOrder : Option QryOrderField → Int → Bool → CtpEngine → CtpEngine :=
  onRspQry fun p e =>
    if e.chkUserId p.userId ∧ e.checkRequestId p.ref then
      let e :=
        e.setRequestTrack p.ref (p.merged e.nameHash e.curAccountIdx (e.getRequestTrack p.ref))
      { e with maxRefId := if p.ref > e.maxRefId then p.ref else e.maxRefId }
    else e

/-- mirrors td/CTDEngineCtp.cpp:1004-1016 -/
def onRspQryTrade : Option QryTradeField → Int → Bool → CtpEngine → CtpEngine :=
  onRspQry fun p e =>
    if e.chkUserId p.userId ∧ e.checkRequestId p.ref then
      let t := e.getRequestTrack p.ref
      e.setRequestTrack p.ref { t with amountTraded := t.amountTraded + p.price * p.volume }
    else e

/-! ## The queries -/

/-- The body of the loop over the accounts. -/
def query {α : Type} (onRsp : Option α → Int → Bool → CtpEngine → CtpEngine) (idx : Int)
    (a : QryAnswer α) (e : CtpEngine) : CtpEngine × Bool :=
  let e := { e with queryComplete := false, curAccountIdx := idx }
  if a.ret ≠ 0 then (e, false)
  else
    let e := a.rsps.foldl (fun e r => onRsp r.data r.nRequestId r.bIsLast e) e
    (e, e.queryComplete)

/-- mirrors td/CTDEngineCtp.cpp:883-905 -/
def queryOrder (idx : Int) (a : QryAnswer QryOrderField) (e : CtpEngine) : CtpEngine × Bool :=
  query onRspQryOrder idx a { e with requestId := e.requestId + 1 }

/-- mirrors td/CTDEngineCtp.cpp:981-1001 -/
def queryTrade (idx : Int) (a : QryAnswer QryTradeField) (e : CtpEngine) : CtpEngine × Bool :=
  query onRspQryTrade idx a e

/-- The loop over the accounts, left at the first query that fails. -/
def queryAll {α : Type} (q : Int → QryAnswer α → CtpEngine → CtpEngine × Bool) :
    Int → List (QryAnswer α) → CtpEngine → CtpEngine × Bool
  | _, [], e => (e, true)
  | idx, a :: as, e =>
    match q idx a e with
    | (e, false) => (e, false)
    | (e, true) => queryAll q (idx + 1) as e

/-- mirrors td/CTDEngineCtp.cpp:973-1002 -/
def updateTradedAmount (trades : List (QryAnswer QryTradeField)) (e : CtpEngine) : CtpEngine × Bool :=
  let e := { e with requestTrack := fun s => { e.requestTrack s with amountTraded := 0 } }
  queryAll queryTrade 0 trades e

/-- `orders` and `trades` have an answer for each account.
mirrors td/CTDEngineCtp.cpp:870-918 -/
def updateOrderTrack (tradingDay : String) (orders : List (QryAnswer QryOrderField))
    (trades : List (QryAnswer QryTradeField)) (e : CtpEngine) : CtpEngine × Bool :=
  let e := if tradingDay ≠ e.trackDay then 
    { e with requestTrack := fun _ => { orderRef := 0, frontId := 0, sessionId := 0 } } else e
  let e := { e with trackDay := tradingDay }
  match queryAll queryOrder 0 orders e with
  | (e, false) => (e, false)
  | (e, true) => updateTradedAmount trades { e with requestId := e.maxRefId + 1 }

/-! ## What the callbacks of a query leave -/

/-- What no callback of a query changes. -/
structure Kept (e e' : CtpEngine) : Prop where
  start : e'.requestIdStart = e.requestIdStart
  end_ : e'.requestIdEnd = e.requestIdEnd
  user : e'.intUserId = e.intUserId
  nameHash : e'.nameHash = e.nameHash

theorem Kept.refl (e : CtpEngine) : Kept e e := ⟨rfl, rfl, rfl, rfl⟩

theorem Kept.trans {e e' e'' : CtpEngine} (h : Kept e e') (h' : Kept e' e'') : Kept e e'' :=
  ⟨h'.start.trans h.start, h'.end_.trans h.end_, h'.user.trans h.user, h'.nameHash.trans h.nameHash⟩

/-- The front answers to the query, about orders of the engine. -/
def Addressed {α : Type} (userId ref : α → Int) (e : CtpEngine) (as : List (QryAnswer α)) : Prop :=
  ∀ a ∈ as, ∀ r ∈ a.rsps, e.checkRequestId r.nRequestId = true ∧
    ∀ p, r.data = some p → e.chkUserId (userId p) = true ∧ e.checkRequestId (ref p) = true

theorem Addressed.kept {α : Type} {userId ref : α → Int} {e e' : CtpEngine} {as : List (QryAnswer α)}
    (h : Addressed userId ref e as) (hk : Kept e e') : Addressed userId ref e' as := by
  unfold Addressed Engine.checkRequestId Engine.chkUserId at h ⊢
  rwa [hk.start, hk.end_, hk.user]

/-- The orders `l` have been reported, each with the index of its account. -/
structure Reported (e : CtpEngine) (l : List (Int × QryOrderField)) (e' : CtpEngine) : Prop
    extends Kept e e' where
  tracks : e'.requestTrack =
    writes (fun p => slot p.2.ref) (fun p => p.2.merged e.nameHash p.1) l e.requestTrack
  maxRefId : e'.maxRefId = l.foldl (fun m p => max m p.2.ref) e.maxRefId

/-- The trades `l` have been reported. -/
structure Traded (e : CtpEngine) (l : List QryTradeField) (e' : CtpEngine) : Prop
    extends Kept e e' where
  tracks : e'.requestTrack =
    writes (fun p => slot p.ref)
      (fun p t => { t with amountTraded := t.amountTraded + p.price * p.volume }) l e.requestTrack
  requestId : e'.requestId = e.requestId

theorem Reported.append {e e' e'' : CtpEngine} {l l' : List (Int × QryOrderField)}
    (h : Reported e l e') (h' : Reported e' l' e'') : Reported e (l ++ l') e'' where
  toKept := h.toKept.trans h'.toKept
  tracks := by rw [h'.tracks, h.tracks, h.nameHash, writes_append]
  maxRefId := by rw [h'.maxRefId, h.maxRefId, List.foldl_append]

theorem Traded.append {e e' e'' : CtpEngine} {l l' : List QryTradeField} (h : Traded e l e')
    (h' : Traded e' l' e'') : Traded e (l ++ l') e'' where
  toKept := h.toKept.trans h'.toKept
  tracks := by rw [h'.tracks, h.tracks, writes_append]
  requestId := h'.requestId.trans h.requestId

section Callbacks

variable {e : CtpEngine}

theorem reported_one {r : QryRsp QryOrderField} (hr : e.checkRequestId r.nRequestId = true)
    (hp : ∀ p, r.data = some p → e.chkUserId p.userId = true ∧ e.checkRequestId p.ref = true) :
    Reported e (r.data.toList.map (e.curAccountIdx, ·))
        (e.onRspQryOrder r.data r.nRequestId r.bIsLast) ∧
      (e.onRspQryOrder r.data r.nRequestId r.bIsLast).curAccountIdx = e.curAccountIdx := by
  unfold onRspQryOrder onRspQry
  rw [if_pos hr]
  cases hd : r.data with
  | none => exact ⟨⟨⟨rfl, rfl, rfl, rfl⟩, rfl, rfl⟩, rfl⟩
  | some p =>
    have hmax : (if p.ref > e.maxRefId then p.ref else e.maxRefId) = max e.maxRefId p.ref := by
      split <;> omega
    dsimp only
    rw [if_pos (by exact hp p hd)]
    exact ⟨⟨⟨rfl, rfl, rfl, rfl⟩, rfl, hmax⟩, rfl⟩

theorem traded_one {r : QryRsp QryTradeField} (hr : e.checkRequestId r.nRequestId = true)
    (hp : ∀ p, r.data = some p → e.chkUserId p.userId = true ∧ e.checkRequestId p.ref = true) :
    Traded e r.data.toList (e.onRspQryTrade r.data r.nRequestId r.bIsLast) := by
  unfold onRspQryTrade onRspQry
  rw [if_pos hr]
  cases hd : r.data with
  | none => exact ⟨⟨rfl, rfl, rfl, rfl⟩, rfl, rfl⟩
  | some p =>
    dsimp only
    rw [if_pos (by exact hp p hd)]
    exact ⟨⟨rfl, rfl, rfl, rfl⟩, rfl, rfl⟩

theorem datas_cons {α : Type} (n : Int) (r : QryRsp α) (rs : List (QryRsp α)) :
    (⟨n, r :: rs⟩ : QryAnswer α).datas = r.data.toList ++ (⟨n, rs⟩ : QryAnswer α).datas := by
  unfold QryAnswer.datas
  cases hd : r.data with
  | none => rw [List.filterMap_cons_none hd]; rfl
  | some p => rw [List.filterMap_cons_some hd]; rfl

/-- The callbacks of one query. -/
theorem reported_rsps {a : QryAnswer QryOrderField}
    (ha : Addressed QryOrderField.userId QryOrderField.ref e [a]) :
    Reported e (a.datas.map (e.curAccountIdx, ·))
      (a.rsps.foldl (fun e r => e.onRspQryOrder r.data r.nRequestId r.bIsLast) e) := by
  obtain ⟨n, rs⟩ := a
  induction rs generalizing e with
  | nil => exact ⟨Kept.refl e, rfl, rfl⟩
  | cons r rs ih =>
    obtain ⟨hr, hp⟩ := ha _ (List.mem_singleton_self _) r List.mem_cons_self
    obtain ⟨h1, hidx⟩ := reported_one hr hp
    have hrest : Addressed QryOrderField.userId QryOrderField.ref
        (e.onRspQryOrder r.data r.nRequestId r.bIsLast) [⟨n, rs⟩] := by
      refine Addressed.kept (fun a ha' x hx => ?_) h1.toKept
      rw [List.mem_singleton.mp ha'] at hx
      exact ha _ (List.mem_singleton_self _) x (List.mem_cons_of_mem r hx)
    have h2 := ih hrest
    rw [hidx] at h2
    rw [datas_cons, List.map_append, List.foldl_cons]
    exact h1.append h2

theorem traded_rsps {a : QryAnswer QryTradeField}
    (ha : Addressed QryTradeField.userId QryTradeField.ref e [a]) :
    Traded e a.datas (a.rsps.foldl (fun e r => e.onRspQryTrade r.data r.nRequestId r.bIsLast) e) := by
  obtain ⟨n, rs⟩ := a
  induction rs generalizing e with
  | nil => exact ⟨Kept.refl e, rfl, rfl⟩
  | cons r rs ih =>
    obtain ⟨hr, hp⟩ := ha _ (List.mem_singleton_self _) r List.mem_cons_self
    have h1 := traded_one hr hp
    have hrest : Addressed QryTradeField.userId QryTradeField.ref
        (e.onRspQryTrade r.data r.nRequestId r.bIsLast) [⟨n, rs⟩] := by
      refine Addressed.kept (fun a ha' x hx => ?_) h1.toKept
      rw [List.mem_singleton.mp ha'] at hx
      exact ha _ (List.mem_singleton_self _) x (List.mem_cons_of_mem r hx)
    rw [datas_cons, List.foldl_cons]
    exact h1.append (ih hrest)

end Callbacks

/-! ## What both queries leave -/

/-- The orders of the answers, each with the index of its account. -/
def reportedOrders : Int → List (QryAnswer QryOrderField) → List (Int × QryOrderField)
  | _, [] => []
  | idx, a :: as => a.datas.map (idx, ·) ++ reportedOrders (idx + 1) as

def reportedTrades (as : List (QryAnswer QryTradeField)) : List QryTradeField :=
  as.flatMap QryAnswer.datas

section Queries

variable {e e' : CtpEngine}

theorem queryAll_cons {α : Type} {q : Int → QryAnswer α → CtpEngine → CtpEngine × Bool} {idx : Int}
    {a : QryAnswer α} {as : List (QryAnswer α)} (h : queryAll q idx (a :: as) e = (e', true)) :
    ∃ e1, q idx a e = (e1, true) ∧ queryAll q (idx + 1) as e1 = (e', true) := by
  rw [queryAll] at h
  rcases hq : q idx a e with ⟨e1, _ | _⟩ <;> rw [hq] at h
  · cases h
  · exact ⟨e1, rfl, h⟩

theorem query_true {α : Type} {onRsp : Option α → Int → Bool → CtpEngine → CtpEngine} {idx : Int}
    {a : QryAnswer α} (h : query onRsp idx a e = (e', true)) :
    e' = a.rsps.foldl (fun e r => onRsp r.data r.nRequestId r.bIsLast e)
      { e with queryComplete := false, curAccountIdx := idx } := by
  unfold query at h
  split at h
  · cases h
  · exact (Prod.mk.inj h).1.symm

theorem Addressed.head {α : Type} {userId ref : α → Int} {a : QryAnswer α} {as : List (QryAnswer α)}
    (h : Addressed userId ref e (a :: as)) : Addressed userId ref e [a] := by
  intro b hb
  rw [List.mem_singleton.mp hb]
  exact h a List.mem_cons_self

theorem Addressed.tail {α : Type} {userId ref : α → Int} {a : QryAnswer α} {as : List (QryAnswer α)}
    (h : Addressed userId ref e (a :: as)) : Addressed userId ref e as :=
  fun b hb => h b (List.mem_cons_of_mem a hb)

theorem reported_all {idx : Int} {as : List (QryAnswer QryOrderField)}
    (ha : Addressed QryOrderField.userId QryOrderField.ref e as)
    (h : queryAll queryOrder idx as e = (e', true)) : Reported e (reportedOrders idx as) e' := by
  induction as generalizing idx e with
  | nil =>
    cases h
    exact ⟨Kept.refl _, rfl, rfl⟩
  | cons a as ih =>
    obtain ⟨e1, hq, hrest⟩ := queryAll_cons h
    have h1 := reported_rsps (e := { e with
      requestId := e.requestId + 1, queryComplete := false, curAccountIdx := idx }) (ha.head.kept
        ⟨rfl, rfl, rfl, rfl⟩)
    have heq : e1 = _ := query_true hq
    have h2 : Reported e (a.datas.map (idx, ·)) e1 := by
      rw [heq]
      exact ⟨⟨h1.start, h1.end_, h1.user, h1.nameHash⟩, h1.tracks, h1.maxRefId⟩
    exact h2.append (ih (ha.tail.kept h2.toKept) hrest)

theorem traded_all {idx : Int} {as : List (QryAnswer QryTradeField)}
    (ha : Addressed QryTradeField.userId QryTradeField.ref e as)
    (h : queryAll queryTrade idx as e = (e', true)) : Traded e (reportedTrades as) e' := by
  induction as generalizing idx e with
  | nil =>
    cases h
    exact ⟨Kept.refl _, rfl, rfl⟩
  | cons a as ih =>
    obtain ⟨e1, hq, hrest⟩ := queryAll_cons h
    have h1 := traded_rsps (e := { e with queryComplete := false, curAccountIdx := idx })
      (ha.head.kept ⟨rfl, rfl, rfl, rfl⟩)
    have heq : e1 = _ := query_true hq
    have h2 : Traded e a.datas e1 := by
      rw [heq]
      exact ⟨⟨h1.start, h1.end_, h1.user, h1.nameHash⟩, h1.tracks, h1.requestId⟩
    exact h2.append (ih (ha.tail.kept h2.toKept) hrest)

/-- The trades reported for the slot of `s`. -/
def tradedAmount (l : List QryTradeField) (s : Int) : ℚ :=
  ((l.filter (slot ·.ref = s)).map QryTradeField.amount).sum

theorem foldl_amount (l : List QryTradeField) (t : OrderTrack) :
    l.foldl (fun t p => { t with amountTraded := t.amountTraded + p.price * p.volume }) t =
      { t with amountTraded := t.amountTraded + (l.map QryTradeField.amount).sum } := by
  induction l generalizing t with
  | nil => simp
  | cons p l ih =>
    rw [List.foldl_cons, ih, List.map_cons, List.sum_cons, ← add_assoc]
    rfl

/-- The engine after both queries. -/
structure Restored (e : CtpEngine) (l : List (Int × QryOrderField)) (l' : List QryTradeField)
    (e' : CtpEngine) : Prop where
  start : e'.requestIdStart = e.requestIdStart
  requestId : e'.requestId = l.foldl (fun m p => max m p.2.ref) e.maxRefId + 1
  track : ∀ s, e'.requestTrack s =
    { writes (fun p => slot p.2.ref) (fun p => p.2.merged e.nameHash p.1) l e.requestTrack s with
      amountTraded := tradedAmount l' s }

/-- On the trading day of the track file. -/
theorem restored_of_update {tradingDay : String} {orders : List (QryAnswer QryOrderField)}
    {trades : List (QryAnswer QryTradeField)} (hday : e.trackDay = tradingDay)
    (ho : Addressed QryOrderField.userId QryOrderField.ref e orders)
    (ht : Addressed QryTradeField.userId QryTradeField.ref e trades)
    (h : e.updateOrderTrack tradingDay orders trades = (e', true)) :
    Restored e (reportedOrders 0 orders) (reportedTrades trades) e' := by
  unfold updateOrderTrack at h
  rw [if_neg (not_not.mpr hday.symm)] at h
  dsimp only at h
  rcases hq : queryAll queryOrder 0 orders { e with trackDay := tradingDay } with ⟨e1, _ | _⟩ <;>
    rw [hq] at h
  · cases h
  · have h1 := reported_all (e := { e with trackDay := tradingDay })
      (ho.kept ⟨rfl, rfl, rfl, rfl⟩) hq
    have hk : Kept e e1 := ⟨h1.start, h1.end_, h1.user, h1.nameHash⟩
    have hzero : queryAll queryTrade 0 trades { e1 with
        requestId := e1.maxRefId + 1
        requestTrack := fun s => { e1.requestTrack s with amountTraded := 0 } } = (e', true) := h
    have h2 := traded_all (e := { e1 with
        requestId := e1.maxRefId + 1
        requestTrack := fun s => { e1.requestTrack s with amountTraded := 0 } })
      (ht.kept ⟨hk.start, hk.end_, hk.user, hk.nameHash⟩) hzero
    refine ⟨h2.start.trans h1.start, h2.requestId.trans ?_, fun s => ?_⟩
    · rw [h1.maxRefId]
    · rw [h2.tracks, writes_at, foldl_amount, h1.tracks]
      unfold tradedAmount
      simp only [zero_add]

end Queries

end CtpEngine

end NatFramework.Td
