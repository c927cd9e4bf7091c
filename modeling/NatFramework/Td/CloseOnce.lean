import NatFramework.Account.AccBase
import NatFramework.Lib.Run
import NatFramework.Td.Ees

/-!
# An order is closed once

What a callback can do to an order is `Evolves`: the messages it passes carry
the `CLOSED` bit at most once, only if the track was open before, and leave it
closed; nothing opens a track again. `Evolves` is kept by composition, so that
what holds of one callback (`ctp_step`, `ees_step`) holds of a run, and of every
part of a run.

The bits overlap: `REJECT`, `MARKET_REJECT` and `CANCELED` contain the bit of
`CLOSED`, so that each test for one of them stops the other two as well, and
`AllTraded` and the fill that completes an order stop all three.
-/
namespace NatFramework.Td

open Lib

/-- The message carries the `CLOSED` bit. -/
def Passed.closes (m : Passed) : Bool := m.msg.msgType.has .closed

/-! ## Tracks -/

/-- A completely filled order is closed. -/
def Full (t : OrderTrack) : Prop := t.vol ≤ t.volTraded → t.status.has .closed = true

/-- What no callback undoes. -/
structure Later (t t' : OrderTrack) : Prop where
  closed : t.status.has .closed = true → t'.status.has .closed = true
  full : Full t → Full t'

theorem Later.refl (t : OrderTrack) : Later t t := ⟨id, id⟩

theorem Later.trans {t t' t'' : OrderTrack} (h : Later t t') (h' : Later t' t'') : Later t t'' :=
  ⟨h'.closed ∘ h.closed, h'.full ∘ h.full⟩

/-- A track with bits added to its status. -/
theorem Later.or {t t' : OrderTrack} (s : Status) (hs : t'.status = t.status ||| s)
    (hv : t'.vol = t.vol) (ht : t'.volTraded = t.volTraded) : Later t t' where
  closed h := by simp [hs, h]
  full h hle := by
    rw [hv, ht] at hle
    simp [hs, h hle]

theorem full_filled (volume : Int) (price : ℚ) (t : OrderTrack) :
    Full (Engine.filled volume price t) := by
  unfold Engine.filled Full
  dsimp only
  split
  · intro _
    simp [show Status.has (ods .closed) .closed = true by decide]
  · intro hv
    exact absurd hv (by omega)

theorem later_filled (volume : Int) (price : ℚ) (t : OrderTrack) :
    Later t (Engine.filled volume price t) where
  closed h := by
    unfold Engine.filled
    dsimp only
    split <;> simp [h]
  full _ := full_filled volume price t

/-- A test for a type that contains the bit of `CLOSED` finds every closed order. -/
theorem open_of_has {s : Status} {type : OrderRtnType}
    (ht : Status.has (ods type) .closed = true) (h : s.has type = false) :
    s.has .closed = false := by
  have hm : ods .closed &&& ods type = ods .closed := by
    revert ht
    cases type <;> decide
  cases hs : s.has .closed with
  | false => rfl
  | true =>
    rw [Status.has, hasAny.mono hm hs] at h
    cases h

namespace Engine

/-- The memory of the next frame has no message type. -/
def Clean (e : Engine) : Prop := e.writer.free.rtnMsg.msgType = 0

/-- What callbacks for the order `id` may do between two engine states. -/
structure Evolves (id : Int) (e e' : Engine) (ms : List Passed) : Prop where
  clean : e'.Clean
  passed : e'.passed = e.passed ++ ms
  written : e'.writer.frames.map (·.rtnMsg) = e.writer.frames.map (·.rtnMsg) ++ ms.map (·.msg)
  types : ∀ m ∈ ms, m.msg.msgType.FromTypes
  once : ms.countP Passed.closes ≤ 1
  closes : ∀ m ∈ ms, m.closes = true →
    (e.getRequestTrack id).status.has .closed = false ∧
      (e'.getRequestTrack id).status.has .closed = true
  executes : ∀ m ∈ ms, m.msg.msgType.has .execution = true → Full (e'.getRequestTrack id)
  later : Later (e.getRequestTrack id) (e'.getRequestTrack id)
  user : e'.chkUserId = e.chkUserId
  range : e'.checkRequestId = e.checkRequestId

variable {id : Int} {e e' e'' : Engine}

theorem Evolves.refl (h : e.Clean) : Evolves id e e [] where
  clean := h
  passed := (List.append_nil _).symm
  written := by simp
  types := by simp
  once := by simp
  closes := by simp
  executes := by simp
  later := Later.refl _
  user := rfl
  range := rfl

theorem Evolves.trans {ms ms' : List Passed} (h : Evolves id e e' ms) (h' : Evolves id e' e'' ms') :
    Evolves id e e'' (ms ++ ms') where
  clean := h'.clean
  passed := by rw [h'.passed, h.passed, List.append_assoc]
  written := by rw [h'.written, h.written, List.map_append, List.append_assoc]
  types m hm := (List.mem_append.mp hm).elim (h.types m) (h'.types m)
  once := by
    rw [List.countP_append]
    have h1 := h.once
    have h2 := h'.once
    by_cases hc : ms'.countP Passed.closes = 0
    · omega
    · -- the second part closes, so it found the order open: the first part has not closed it
      obtain ⟨m', hm', hcl'⟩ := List.countP_pos_iff.mp (Nat.pos_of_ne_zero hc)
      have h0 : ms.countP Passed.closes = 0 := by
        rw [List.countP_eq_zero]
        intro m hm hcl
        have := (h.closes m hm hcl).2
        rw [(h'.closes m' hm' hcl').1] at this
        cases this
      omega
  closes m hm hcl := by
    rcases List.mem_append.mp hm with hm | hm
    · exact ⟨(h.closes m hm hcl).1, h'.later.closed (h.closes m hm hcl).2⟩
    · obtain ⟨h1, h2⟩ := h'.closes m hm hcl
      refine ⟨?_, h2⟩
      cases hs : (e.getRequestTrack id).status.has .closed with
      | false => rfl
      | true => rw [h.later.closed hs] at h1; cases h1
  executes m hm hx := (List.mem_append.mp hm).elim
    (fun hm => h'.later.full (h.executes m hm hx)) (fun hm => h'.executes m hm hx)
  later := h.later.trans h'.later
  user := h'.user.trans h.user
  range := h'.range.trans h.range

/-- No part of a run that starts with the order closed closes it. -/
theorem Evolves.closes_eq_false {ms : List Passed} (h : Evolves id e e' ms)
    (hc : (e.getRequestTrack id).status.has .closed = true) : ∀ m ∈ ms, m.closes = false := by
  intro m hm
  cases hcl : m.closes with
  | false => rfl
  | true => rw [(h.closes m hm hcl).1] at hc; cases hc

/-! ## The ends of a callback -/

section Ends

variable {t : OrderTrack} {p : IOOrderRtn}

theorem evolves_discard (ht : Later (e.getRequestTrack id) t) (hp : p.rtnMsg.msgType = 0) :
    Evolves id e ((e.setRequestTrack id t).discard p) [] where
  clean := hp
  passed := (List.append_nil _).symm
  written := by simp [Engine.discard, Writer.discard, setRequestTrack]
  types := by simp
  once := by simp
  closes := by simp
  executes := by simp
  later := by
    change Later _ ((e.setRequestTrack id t).getRequestTrack id)
    rwa [getRequestTrack_set]
  user := rfl
  range := rfl

theorem evolves_drop (hp : p.rtnMsg.msgType = 0) : Evolves id e (e.discard p) [] := by
  have h := evolves_discard (Later.refl (e.getRequestTrack id)) hp
  rwa [setRequestTrack, getRequestTrack, Function.update_eq_self] at h

theorem evolves_test (id : Int) (h : e.Clean) (otid mid : Int) :
    Evolves id e (e.testOtId otid mid).1 [] :=
  { Evolves.refl h with passed := (List.append_nil _).symm, clean := h, later := Later.refl _ }

theorem evolves_post (type : OrderRtnType) (ht : Later (e.getRequestTrack id) t)
    (hp : p.rtnMsg.msgType = ods type)
    (hc : Status.has (ods type) .closed = true →
      (e.getRequestTrack id).status.has .closed = false ∧ t.status.has .closed = true)
    (hx : type = .execution → Full t) :
    Evolves id e (e.post id t p) [⟨t.accId, t, p.rtnMsg⟩] where
  clean := by simp [Clean]
  passed := rfl
  written := by simp [Engine.post, Engine.commit, Writer.commit, engineOnRtn, setRequestTrack]
  types m hm := by
    rw [List.mem_singleton.mp hm]
    exact hp ▸ Status.fromTypes_ods type
  once := List.countP_le_length
  closes m hm hcl := by
    rw [List.mem_singleton.mp hm, Passed.closes, hp] at hcl
    rw [getRequestTrack_post]
    exact hc hcl
  executes m hm hex := by
    rw [List.mem_singleton.mp hm, hp] at hex
    rw [getRequestTrack_post]
    apply hx
    revert hex
    cases type <;> decide
  later := by rwa [getRequestTrack_post]
  user := rfl
  range := rfl

/-- The end of a callback that adds a type to the status and returns it. -/
theorem evolves_type (type : OrderRtnType) (hx : type ≠ .execution)
    (hs : t.status = (e.getRequestTrack id).status ||| ods type)
    (hv : t.vol = (e.getRequestTrack id).vol) (ht : t.volTraded = (e.getRequestTrack id).volTraded)
    (hp : p.rtnMsg.msgType = ods type)
    (hc : Status.has (ods type) .closed = true → (e.getRequestTrack id).status.has type = false) :
    Evolves id e (e.post id t p) [⟨t.accId, t, p.rtnMsg⟩] :=
  evolves_post type (Later.or (ods type) hs hv ht) hp
    (fun h => ⟨open_of_has h (hc h), by simp [hs, h]⟩) (fun h => absurd h hx)

/-- A callback that returns a type unless the status has it already. -/
theorem evolves_guarded (h : e.Clean) (type : OrderRtnType) (hx : type ≠ .execution)
    (hs : t.status = (e.getRequestTrack id).status ||| ods type)
    (hv : t.vol = (e.getRequestTrack id).vol) (ht : t.volTraded = (e.getRequestTrack id).volTraded)
    (hp : p.rtnMsg.msgType = ods type) :
    ∃ ms, Evolves id e (if (e.getRequestTrack id).status.has type then e else e.post id t p) ms := by
  split
  · exact ⟨[], Evolves.refl h⟩
  · rename_i hn
    exact ⟨_, evolves_type type hx hs hv ht hp fun _ => by simpa using hn⟩

end Ends

/-! ## CTP -/

section Ctp

theorem evolves_cancelReject (instrumentId : String) (rsp : RspInfoField) :
    ∃ ms, Evolves id e (e.errRtn .cancelReject id instrumentId rsp) ms :=
  ⟨_, evolves_type .cancelReject (by decide) rfl rfl rfl rfl fun hc => absurd hc (by decide)⟩

theorem evolves_marketAccept {t : OrderTrack} {p : IOOrderRtn}
    (ht : Later (e.getRequestTrack id) t) (hp : p.rtnMsg.msgType = 0) :
    ∃ ms, Evolves id e (e.marketAccept id t p) ms := by
  unfold marketAccept
  split
  · exact ⟨_, evolves_discard ht hp⟩
  · exact ⟨_, evolves_post .marketAccept
      (ht.trans (Later.or (ods .marketAccept) rfl rfl rfl)) rfl (fun hc => absurd hc (by decide))
      (fun hx => by cases hx)⟩

theorem evolves_onRspOrderInsert (h : e.Clean) (p : InputOrderField) (rsp : Option RspInfoField) :
    ∃ ms, Evolves id e (e.onRspOrderInsert p rsp id) ms := by
  unfold onRspOrderInsert
  split
  · cases rsp with
    | none => exact ⟨[], Evolves.refl h⟩
    | some rsp =>
      dsimp only
      split
      · exact evolves_guarded h .reject (by decide) rfl rfl rfl rfl
      · exact ⟨[], Evolves.refl h⟩
  · exact ⟨[], Evolves.refl h⟩

theorem evolves_onRspOrderAction (h : e.Clean) (p : OrderActionField) (rsp : Option RspInfoField) :
    ∃ ms, Evolves id e (e.onRspOrderAction p rsp id) ms := by
  unfold onRspOrderAction
  split
  · cases rsp with
    | none => exact ⟨[], Evolves.refl h⟩
    | some rsp =>
      dsimp only
      split
      · exact evolves_cancelReject _ rsp
      · exact ⟨[], Evolves.refl h⟩
  · exact ⟨[], Evolves.refl h⟩

theorem evolves_onRtnOrder (h : e.Clean) (p : OrderField) (hid : CString.atoi p.orderRef = id) :
    ∃ ms, Evolves id e (e.onRtnOrder p) ms := by
  subst hid
  unfold onRtnOrder
  dsimp only
  split
  · -- the branches set nothing but the type of the message
    generalize hf : e.fillRtn (e.getRequestTrack (CString.atoi p.orderRef)) p.instrumentId
      (CString.atoi p.orderRef) = r
    have hr : r.rtnMsg.msgType = 0 := by
      rw [← hf]
      exact h
    split
    · split
      · exact ⟨[], evolves_drop hr⟩
      · exact ⟨_, evolves_type .accept (by decide) rfl rfl rfl rfl fun hc => absurd hc (by decide)⟩
    · split
      · exact ⟨[], evolves_drop hr⟩
      · rename_i hs
        exact ⟨_, evolves_type .canceled (by decide) rfl rfl rfl rfl fun _ => by simpa using hs⟩
    · split
      · exact ⟨[], evolves_drop hr⟩
      · rename_i hs
        exact ⟨_, evolves_type .canceled (by decide) rfl rfl rfl rfl fun _ => by simpa using hs⟩
    · exact evolves_marketAccept (Later.or (ods .closed) rfl rfl rfl) hr
    · exact evolves_marketAccept (Later.refl _) hr
    · exact evolves_marketAccept (Later.refl _) hr
    · -- a status the switch does not know: the message has no type
      exact ⟨_, evolves_post .notSet (Later.refl _) hr (fun hc => absurd hc (by decide))
        (fun hx => by cases hx)⟩
  · exact ⟨[], Evolves.refl h⟩

theorem evolves_onRtnTrade (h : e.Clean) (p : TradeField) (hid : CString.atoi p.orderRef = id) :
    ∃ ms, Evolves id e (e.onRtnTrade p) ms := by
  subst hid
  unfold onRtnTrade
  dsimp only
  split
  · have ht := evolves_test (CString.atoi p.orderRef) h (CString.atoi p.orderRef)
      (CString.strtoll p.tradeId)
    generalize e.testOtId (CString.atoi p.orderRef) (CString.strtoll p.tradeId) = r at ht ⊢
    obtain ⟨e', b⟩ := r
    cases b with
    | true => exact ⟨[], ht⟩
    | false =>
      dsimp only
      split
      · exact ⟨_, ht.trans (evolves_post .execution (later_filled _ _ _) rfl
          (fun hc => absurd hc (by decide)) fun _ => full_filled _ _ _)⟩
      · exact ⟨[], ht⟩
  · exact ⟨[], Evolves.refl h⟩

theorem evolves_onErrRtnOrderInsert (h : e.Clean) (p : InputOrderField) (rsp : RspInfoField)
    (hid : CString.atoi p.orderRef = id) :
    ∃ ms, Evolves id e (e.onErrRtnOrderInsert p rsp) ms := by
  subst hid
  unfold onErrRtnOrderInsert
  dsimp only
  split
  · split
    · exact evolves_guarded h .marketReject (by decide) rfl rfl rfl rfl
    · exact ⟨[], Evolves.refl h⟩
  · exact ⟨[], Evolves.refl h⟩

theorem evolves_onErrRtnOrderAction (h : e.Clean) (p : OrderActionField) (rsp : RspInfoField)
    (hid : CString.atoi p.orderRef = id) :
    ∃ ms, Evolves id e (e.onErrRtnOrderAction p rsp) ms := by
  subst hid
  unfold onErrRtnOrderAction
  dsimp only
  split
  · split
    · exact evolves_cancelReject _ rsp
    · exact ⟨[], Evolves.refl h⟩
  · exact ⟨[], Evolves.refl h⟩

theorem ctp_step (h : e.Clean) (c : CtpCallback) (hid : c.requestId = id) :
    ∃ ms, Evolves id e (c.apply e) ms := by
  cases c with
  | rspOrderInsert p rsp i => exact hid ▸ evolves_onRspOrderInsert h p rsp
  | rspOrderAction p rsp i => exact hid ▸ evolves_onRspOrderAction h p rsp
  | rtnOrder p => exact evolves_onRtnOrder h p hid
  | rtnTrade p => exact evolves_onRtnTrade h p hid
  | errRtnOrderInsert p rsp => exact evolves_onErrRtnOrderInsert h p rsp hid
  | errRtnOrderAction p rsp => exact evolves_onErrRtnOrderAction h p rsp hid

theorem closed_of_allTraded {p : OrderField} (hid : CString.atoi p.orderRef = id)
    (hs : p.orderStatus = .allTraded)
    (hu : e.chkUserId p.userId = true ∧ e.checkRequestId id = true) :
    ((e.onRtnOrder p).getRequestTrack id).status.has .closed = true := by
  subst hid
  unfold onRtnOrder
  dsimp only
  rw [if_pos hu, hs]
  dsimp only
  unfold marketAccept
  have hc : Status.has (ods .closed) .closed = true := by decide
  split
  · change Status.has (((setRequestTrack _ _ e).getRequestTrack _).status) .closed = true
    rw [getRequestTrack_set]
    simp [hc]
  · rw [getRequestTrack_post]
    simp [hc]

end Ctp

/-! ## EES -/

section Ees

theorem evolves_onOrderAccept (h : e.Clean) (p : OrderAcceptField) (hid : p.clientOrderToken = id) :
    ∃ ms, Evolves id e (e.onOrderAccept p) ms := by
  subst hid
  unfold onOrderAccept
  dsimp only
  split
  · exact evolves_guarded h .accept (by decide) rfl rfl rfl rfl
  · exact ⟨[], Evolves.refl h⟩

theorem evolves_onOrderReject (h : e.Clean) (p : OrderRejectField) (hid : p.clientOrderToken = id) :
    ∃ ms, Evolves id e (e.onOrderReject p) ms := by
  subst hid
  unfold onOrderReject
  dsimp only
  split
  · exact evolves_guarded h .reject (by decide) rfl rfl rfl rfl
  · exact ⟨[], Evolves.refl h⟩

theorem evolves_onOrderMarketAccept (h : e.Clean) (p : OrderMarketAcceptField)
    (hid : p.clientOrderToken = id) : ∃ ms, Evolves id e (e.onOrderMarketAccept p) ms := by
  subst hid
  unfold onOrderMarketAccept
  dsimp only
  split
  · exact evolves_guarded h .marketAccept (by decide) rfl rfl rfl rfl
  · exact ⟨[], Evolves.refl h⟩

theorem evolves_onOrderMarketReject (h : e.Clean) (p : OrderMarketRejectField)
    (hid : p.clientOrderToken = id) : ∃ ms, Evolves id e (e.onOrderMarketReject p) ms := by
  subst hid
  unfold onOrderMarketReject
  dsimp only
  split
  · exact evolves_guarded h .marketReject (by decide) rfl rfl rfl rfl
  · exact ⟨[], Evolves.refl h⟩

theorem evolves_onOrderExecution (h : e.Clean) (p : OrderExecutionField)
    (hid : p.clientOrderToken = id) : ∃ ms, Evolves id e (e.onOrderExecution p) ms := by
  subst hid
  unfold onOrderExecution
  dsimp only
  split
  · have ht := evolves_test p.clientOrderToken h p.clientOrderToken p.executionId
    generalize e.testOtId p.clientOrderToken p.executionId = r at ht ⊢
    obtain ⟨e', b⟩ := r
    cases b with
    | true => exact ⟨[], ht⟩
    | false =>
      -- the market's order id is put into the track of the filled order
      have hf : ∀ t : OrderTrack, Later t { filled p.quantity p.price t with
          frontId := p.marketOrderToken, sessionId := 1 } := fun t =>
        ⟨(later_filled p.quantity p.price t).closed, fun _ => full_filled p.quantity p.price t⟩
      exact ⟨_, ht.trans (evolves_post .execution (hf _) rfl
        (fun hc => absurd hc (by decide)) fun _ => full_filled p.quantity p.price _)⟩
  · exact ⟨[], Evolves.refl h⟩

theorem evolves_onOrderCxled (h : e.Clean) (p : OrderCxled) (hid : p.clientOrderToken = id) :
    ∃ ms, Evolves id e (e.onOrderCxled p) ms := by
  subst hid
  unfold onOrderCxled
  dsimp only
  split
  · exact evolves_guarded h .canceled (by decide) rfl rfl rfl rfl
  · exact ⟨[], Evolves.refl h⟩

theorem ees_step (h : e.Clean) (c : EesCallback) (hid : c.requestId = id) :
    ∃ ms, Evolves id e (c.apply e) ms := by
  cases c with
  | orderAccept p => exact evolves_onOrderAccept h p hid
  | orderReject p => exact evolves_onOrderReject h p hid
  | orderMarketAccept p => exact evolves_onOrderMarketAccept h p hid
  | orderMarketReject p => exact evolves_onOrderMarketReject h p hid
  | orderExecution p => exact evolves_onOrderExecution h p hid
  | orderCxled p => exact evolves_onOrderCxled h p hid

end Ees

end Engine

/-! ## Runs -/

open Engine

/-- Nothing has been passed yet; the memory of the next frame has no message type. -/
def Engine.Starts (e : Engine) : Prop := e.passed = [] ∧ e.Clean

/-- The callbacks of CTP for one request id. -/
def ctp (id : Int) : Sys Engine CtpCallback where
  start := Engine.Starts
  ok _ c := c.requestId = id
  next e c := c.apply e

/-- The callbacks of EES for one request id. -/
def ees (id : Int) : Sys Engine EesCallback where
  start := Engine.Starts
  ok _ c := c.requestId = id
  next e c := c.apply e

/-- The engine sees the status `AllTraded`. -/
def CtpCallback.SeesAllTraded (e : Engine) : CtpCallback → Prop
  | rtnOrder p =>
    p.orderStatus = .allTraded ∧ e.chkUserId p.userId = true ∧
      e.checkRequestId (CString.atoi p.orderRef) = true
  | _ => False

section Run

variable {κ : Type} (S : Sys Engine κ) (sees : Engine → κ → Prop) (id : Int) (e : Engine)

/-- Fills have brought the traded volume up to the order's: it was below it at
the start, or a fill has been passed. -/
def Filled (cs : List κ) : Prop :=
  ((S.exec e cs).getRequestTrack id).vol ≤ ((S.exec e cs).getRequestTrack id).volTraded ∧
    ((e.getRequestTrack id).volTraded < (e.getRequestTrack id).vol ∨
      ∃ m ∈ (S.exec e cs).passed, m.msg.msgType.has .execution = true)

/-- What is passed to the risk account in a run closes the order at most once,
and not after it has been filled. -/
structure ClosedOnce (cs : List κ) : Prop where
  written : (S.exec e cs).writer.frames.map (·.rtnMsg) =
    e.writer.frames.map (·.rtnMsg) ++ (S.exec e cs).passed.map (·.msg)
  once : (S.exec e cs).passed.countP Passed.closes ≤ 1
  onCxl : ∀ m ∈ (S.exec e cs).passed, hasAny m.msg.msgType Account.AccBase.cxlMask = m.closes
  filled : ∀ pre post, cs = pre ++ post → (Filled S id e pre ∨ ∃ c ∈ pre, sees e c) →
    ∃ ms, (S.exec e cs).passed = (S.exec e pre).passed ++ ms ∧ ∀ m ∈ ms, m.closes = false

variable {S sees id e}

theorem evolves_run
    (hstep : ∀ e c, e.Clean → S.ok e c → ∃ ms, Evolves id e (S.next e c) ms) (he : e.Clean)
    {cs : List κ} (ha : S.Admits e cs) : ∃ ms, Evolves id e (S.exec e cs) ms := by
  refine S.invariant_run (I := fun e' => ∃ ms, Evolves id e e' ms) ?_ e cs ⟨[], Evolves.refl he⟩ ha
  rintro e' c ⟨ms, h⟩ hok
  obtain ⟨ms', h'⟩ := hstep e' c h.clean hok
  exact ⟨ms ++ ms', h.trans h'⟩

/-- `sees` looks at the user and the range of ids only, and closes the order. -/
structure Closing (S : Sys Engine κ) (sees : Engine → κ → Prop) (id : Int) : Prop where
  congr : ∀ {e e' : Engine} {c : κ}, e'.chkUserId = e.chkUserId →
    e'.checkRequestId = e.checkRequestId → sees e c → sees e' c
  closes : ∀ {e : Engine} {c : κ}, S.ok e c → sees e c →
    ((S.next e c).getRequestTrack id).status.has .closed = true

theorem closed_of_sees
    (hstep : ∀ e c, e.Clean → S.ok e c → ∃ ms, Evolves id e (S.next e c) ms)
    (hsees : Closing S sees id) (he : e.Clean) {cs : List κ} (ha : S.Admits e cs)
    (hs : ∃ c ∈ cs, sees e c) : ((S.exec e cs).getRequestTrack id).status.has .closed = true := by
  obtain ⟨c, hc, hsc⟩ := hs
  obtain ⟨cs1, cs2, rfl⟩ := List.append_of_mem hc
  obtain ⟨ha1, hok, ha2⟩ := (S.admits_append e cs1 (c :: cs2)).mp ha
  obtain ⟨ms1, h1⟩ := evolves_run hstep he ha1
  obtain ⟨ms, hn⟩ := hstep _ c h1.clean hok
  obtain ⟨ms2, h2⟩ := evolves_run hstep hn.clean ha2
  rw [S.exec_append, S.exec_cons]
  exact h2.later.closed (hsees.closes hok (hsees.congr h1.user h1.range hsc))

theorem closedOnce_run
    (hstep : ∀ e c, e.Clean → S.ok e c → ∃ ms, Evolves id e (S.next e c) ms)
    (hsees : Closing S sees id) (h0 : e.Starts) {cs : List κ}
    (ha : S.Admits e cs) : ClosedOnce S sees id e cs := by
  obtain ⟨h0, he⟩ := h0
  obtain ⟨ms, h⟩ := evolves_run hstep he ha
  have hp : (S.exec e cs).passed = ms := by rw [h.passed, h0, List.nil_append]
  refine ⟨by rw [hp, h.written], by rw [hp]; exact h.once, ?_, ?_⟩
  · intro m hm
    exact Account.AccBase.hasAny_cxlMask (h.types m (hp ▸ hm))
  · rintro pre post rfl hf
    obtain ⟨ha1, ha2⟩ := (S.admits_append e pre post).mp ha
    obtain ⟨ms1, h1⟩ := evolves_run hstep he ha1
    obtain ⟨ms2, h2⟩ := evolves_run hstep h1.clean ha2
    have hclosed : ((S.exec e pre).getRequestTrack id).status.has .closed = true := by
      rcases hf with ⟨hv, hlt | ⟨m, hm, hx⟩⟩ | hs
      · exact h1.later.full (fun hle => absurd hle (by omega)) hv
      · rw [h1.passed, h0, List.nil_append] at hm
        exact h1.executes m hm hx hv
      · exact closed_of_sees hstep hsees he ha1 hs
    rw [S.exec_append]
    exact ⟨ms2, h2.passed, h2.closes_eq_false hclosed⟩

end Run

theorem ctp_closing (id : Int) : Closing (ctp id) CtpCallback.SeesAllTraded id where
  congr {e e' c} hu hr h := by
    cases c with
    | rtnOrder p => simpa [CtpCallback.SeesAllTraded, hu, hr] using h
    | _ => exact h
  closes {e c} hok h := by
    cases c with
    | rtnOrder p => exact closed_of_allTraded hok h.1 (hok ▸ h.2)
    | _ => exact h.elim

/-- Whatever the callbacks for one request id, in whatever order and however
often repeated, and whatever the status of its track: at most one message that
closes the order is written and passed to the risk account, none once the order
is filled or `AllTraded` was seen, and these are the messages on which the
account calls `onCxl`. -/
theorem closedOnce_of_run (id : Int) (e : Engine) (h : e.Starts) :
    (∀ cs : List CtpCallback, (∀ c ∈ cs, c.requestId = id) →
      ClosedOnce (ctp id) CtpCallback.SeesAllTraded id e cs) ∧
    ∀ cs : List EesCallback, (∀ c ∈ cs, c.requestId = id) →
      ClosedOnce (ees id) (fun _ _ => False) id e cs := by
  constructor
  · intro cs hcs
    exact closedOnce_run (fun e c he hid => ctp_step he c hid) (ctp_closing id) h
      ((ctp id).admits_of_forall (fun c hc _ => hcs c hc) e)
  · intro cs hcs
    exact closedOnce_run (fun e c he hid => ees_step he c hid) ⟨fun _ _ h => h, fun _ h => h.elim⟩ h
      ((ees id).admits_of_forall (fun c hc _ => hcs c hc) e)

/-- An order for two lots, sent as request 1. -/
def sentTwo : Engine :=
  ({ accountUnits := [⟨1, 1⟩] } : Engine).reqOrderInsert
    { from_ := 7, localId := 1, accIdx := 0, instrHash := 1, instr := "rb1810", price := 100, vol := 2
      dir := .buy, off := .opn, stgId := 1 } 0 0

/-- The front rejects the order, so does the exchange, and a fill comes all the same. -/
theorem closedOnce_sentTwo :
    ClosedOnce (ctp 1) CtpCallback.SeesAllTraded 1 sentTwo
      [.rspOrderInsert ⟨0, "1", "rb1810"⟩ (some ⟨26, "no"⟩) 1,
        .errRtnOrderInsert ⟨0, "1", "rb1810"⟩ ⟨26, "no"⟩,
        .rtnTrade ⟨0, "1", "31", "rb1810", 100, 2, .buy, .opn⟩] ∧
    ClosedOnce (ees 1) (fun _ _ => False) 1 sentTwo
      [.orderExecution ⟨1, 9, 31, 2, 100⟩, .orderCxled ⟨1, 9, 2, 0⟩] :=
  ⟨(closedOnce_of_run 1 sentTwo ⟨rfl, rfl⟩).1 _ (by decide),
    (closedOnce_of_run 1 sentTwo ⟨rfl, rfl⟩).2 _ (by decide)⟩

end NatFramework.Td
