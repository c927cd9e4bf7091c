import NatFramework.Td.CloseOnce
import NatFramework.Td.Executions

/-!
# Request ids and track slots

An order takes the next request id as its reference, and the slot of that id,
`id & (MMAP_ORDER_TRACK_SIZE - 1)`, for its track and its filter. The id is not
compared with the end of the range, the range may be longer than the arrays, and
an order finds in its slot the traded amount and the ids of the order before.

* `Frame`, `View`: what one event leaves alone, and what it does to the ids and the filters.
* `run_view`: the ids, filters and amounts of a run, from its events alone.
* `ordersApart_iff`: when the orders of a day have their ids in the range, their
  slots for themselves, and clean ones.
-/
namespace NatFramework.Td

open Lib Engine

/-! ## Events -/

inductive CtpEvent where
  | insert (d : IOInputOrderField) (riskRet apiRet : Int)
  | callback (c : CtpCallback)
  deriving DecidableEq, Repr

namespace CtpEvent

def apply : CtpEvent → Engine → Engine
  | insert d riskRet apiRet, e => e.reqOrderInsert d riskRet apiRet
  | callback c, e => c.apply e

/-- The event is an order that is sent to the front. -/
def sends (e : Engine) : CtpEvent → Bool
  | insert d riskRet _ =>
    (if 0 ≤ d.accIdx then e.accountUnits[d.accIdx.toNat]? else none).isSome ∧ riskRet = 0
  | callback _ => false

/-- The event is an order that the front accepts. -/
def accepted (e : Engine) : CtpEvent → Bool
  | insert d riskRet apiRet => (insert d riskRet apiRet).sends e ∧ apiRet = 0
  | callback _ => false

/-- The event is a trade that is handled in the slot of `id`. -/
def trades (e : Engine) (id : Int) : CtpEvent → Bool
  | callback (.rtnTrade p) =>
    (e.chkUserId p.userId ∧ e.checkRequestId (CString.atoi p.orderRef)) ∧
      slot (CString.atoi p.orderRef) = slot id
  | _ => false

end CtpEvent

/-- A session of the engine, from its start on. -/
def session : Sys Engine CtpEvent where
  start _ := True
  ok _ _ := True
  next e ev := ev.apply e

/-- The ids of the orders the front has accepted. -/
def Engine.acceptedIds (e : Engine) : List Int := (e.sent.filter fun r => r.2 = 0).map (·.1)

/-! ## One event -/

/-- What no event changes. -/
structure Fixed (e e' : Engine) : Prop where
  start : e'.requestIdStart = e.requestIdStart
  end_ : e'.requestIdEnd = e.requestIdEnd
  units : e'.accountUnits = e.accountUnits
  user : e'.intUserId = e.intUserId

/-- What a callback other than a trade leaves alone. -/
structure Frame (e e' : Engine) : Prop extends Fixed e e' where
  requestId : e'.requestId = e.requestId
  sent : e'.sent = e.sent
  filters : e'.otidfilter = e.otidfilter
  amounts : ∀ s, (e'.requestTrack s).amountTraded = (e.requestTrack s).amountTraded

section Frame

variable {e : Engine}

theorem Frame.refl (e : Engine) : Frame e e := ⟨⟨rfl, rfl, rfl, rfl⟩, rfl, rfl, rfl, fun _ => rfl⟩

theorem frame_set (id : Int) (t : OrderTrack)
    (ht : t.amountTraded = (e.getRequestTrack id).amountTraded) :
    Frame e (e.setRequestTrack id t) where
  toFixed := ⟨rfl, rfl, rfl, rfl⟩
  requestId := rfl
  sent := rfl
  filters := rfl
  amounts s := by
    by_cases hs : s = slot id
    · rw [hs]
      simpa [setRequestTrack, getRequestTrack] using ht
    · simp [setRequestTrack, Function.update_of_ne hs]

theorem frame_post {id : Int} {t : OrderTrack} (p : IOOrderRtn)
    (ht : t.amountTraded = (e.getRequestTrack id).amountTraded) : Frame e (e.post id t p) :=
  let h := frame_set id t ht
  ⟨⟨rfl, rfl, rfl, rfl⟩, rfl, rfl, rfl, h.amounts⟩

theorem frame_discard (p : IOOrderRtn) : Frame e (e.discard p) :=
  ⟨⟨rfl, rfl, rfl, rfl⟩, rfl, rfl, rfl, fun _ => rfl⟩

theorem frame_marketAccept {id : Int} {t : OrderTrack} (p : IOOrderRtn)
    (ht : t.amountTraded = (e.getRequestTrack id).amountTraded) :
    Frame e (e.marketAccept id t p) := by
  unfold marketAccept
  split
  · exact ⟨⟨rfl, rfl, rfl, rfl⟩, rfl, rfl, rfl, (frame_set id t ht).amounts⟩
  · exact frame_post _ ht

theorem frame_onRtnOrder (p : OrderField) : Frame e (e.onRtnOrder p) := by
  unfold onRtnOrder
  dsimp only
  split
  · split
    · split
      · exact frame_discard _
      · exact frame_post _ rfl
    · split
      · exact frame_discard _
      · exact frame_post _ rfl
    · split
      · exact frame_discard _
      · exact frame_post _ rfl
    · exact frame_marketAccept _ rfl
    · exact frame_marketAccept _ rfl
    · exact frame_marketAccept _ rfl
    · exact frame_post _ rfl
  · exact Frame.refl e

/-- A callback other than a trade. -/
theorem frame_callback (c : CtpCallback) (hc : ∀ p, c ≠ .rtnTrade p) : Frame e (c.apply e) := by
  cases c with
  | rspOrderInsert p rsp id =>
    change Frame e (e.onRspOrderInsert p rsp id)
    unfold onRspOrderInsert
    split
    · cases rsp with
      | none => exact Frame.refl e
      | some rsp =>
        dsimp only
        split
        · split
          · exact Frame.refl e
          · exact frame_post _ rfl
        · exact Frame.refl e
    · exact Frame.refl e
  | rspOrderAction p rsp id =>
    change Frame e (e.onRspOrderAction p rsp id)
    unfold onRspOrderAction
    split
    · cases rsp with
      | none => exact Frame.refl e
      | some rsp =>
        dsimp only
        split
        · exact frame_post _ rfl
        · exact Frame.refl e
    · exact Frame.refl e
  | rtnOrder p => exact frame_onRtnOrder p
  | rtnTrade p => exact absurd rfl (hc p)
  | errRtnOrderInsert p rsp =>
    change Frame e (e.onErrRtnOrderInsert p rsp)
    unfold onErrRtnOrderInsert
    dsimp only
    split
    · split
      · split
        · exact Frame.refl e
        · exact frame_post _ rfl
      · exact Frame.refl e
    · exact Frame.refl e
  | errRtnOrderAction p rsp =>
    change Frame e (e.onErrRtnOrderAction p rsp)
    unfold onErrRtnOrderAction
    dsimp only
    split
    · split
      · exact frame_post _ rfl
      · exact Frame.refl e
    · exact Frame.refl e

end Frame

/-- What one event does to the ids, and to the filter and the amount of each slot. -/
structure View (ev : CtpEvent) (e e' : Engine) : Prop extends Fixed e e' where
  requestId : e'.requestId = e.requestId + if ev.accepted e then 1 else 0
  sent : e'.sent.map (·.1) = e.sent.map (·.1) ++ if ev.sends e then [e.requestId] else []
  acceptedIds : e'.acceptedIds = e.acceptedIds ++ if ev.accepted e then [e.requestId] else []
  remembered : ∀ id, e'.remembered id = [] ↔ e.remembered id = [] ∧ ev.trades e id = false
  amount : ∀ id, ev.trades e id = false →
    (e'.getRequestTrack id).amountTraded = (e.getRequestTrack id).amountTraded

section View

variable {e e' : Engine} {ev : CtpEvent}

theorem Frame.view (h : Frame e e') (hs : ev.sends e = false) (ha : ev.accepted e = false)
    (ht : ∀ id, ev.trades e id = false) : View ev e e' where
  toFixed := h.toFixed
  requestId := by simp [ha, h.requestId]
  sent := by simp [hs, h.sent]
  acceptedIds := by simp [ha, Engine.acceptedIds, h.sent]
  remembered id := by simp [ht id, Engine.remembered, h.filters]
  amount id _ := h.amounts (slot id)

theorem view_callback (c : CtpCallback) (hc : ∀ p, c ≠ .rtnTrade p) :
    View (.callback c) e (c.apply e) := by
  refine (frame_callback c hc).view rfl rfl fun id => ?_
  cases c with
  | rtnTrade p => exact absurd rfl (hc p)
  | _ => rfl

theorem remembered_test_eq_nil (e : Engine) (otid mid id : Int) :
    (e.testOtId otid mid).1.remembered id = [] ↔ e.remembered id = [] ∧ slot otid ≠ slot id := by
  have hf : (e.testOtId otid mid).1.otidfilter =
      Function.update e.otidfilter (slot otid) ((e.otidfilter (slot otid)).test mid).1 := rfl
  simp only [Engine.remembered, hf]
  by_cases hs : slot otid = slot id
  · rw [← hs, Function.update_self]
    exact iff_of_false (IdRing.contents_test_ne_nil (by decide) _ mid) fun h => h.2 rfl
  · rw [Function.update_of_ne (Ne.symm hs)]
    exact ⟨fun h => ⟨h, hs⟩, fun h => h.1⟩

/-- A trade handled in the slot of `otid`, whatever it then does to the track there. -/
theorem view_trade {p : TradeField} {mid : Int} {t : OrderTrack}
    (hp : e.chkUserId p.userId = true ∧ e.checkRequestId (CString.atoi p.orderRef) = true)
    (hf : e'.otidfilter = (e.testOtId (CString.atoi p.orderRef) mid).1.otidfilter)
    (ht : e'.requestTrack = Function.update e.requestTrack (slot (CString.atoi p.orderRef)) t)
    (hr : e'.requestId = e.requestId) (hs : e'.sent = e.sent) (h : Fixed e e') :
    View (.callback (.rtnTrade p)) e e' where
  toFixed := h
  requestId := by simp [CtpEvent.accepted, hr]
  sent := by simp [CtpEvent.sends, hs]
  acceptedIds := by simp [CtpEvent.accepted, Engine.acceptedIds, hs]
  remembered id := by
    have hrem : e'.remembered id = (e.testOtId (CString.atoi p.orderRef) mid).1.remembered id := by
      rw [Engine.remembered, hf]
      rfl
    rw [hrem, remembered_test_eq_nil]
    simp [CtpEvent.trades, hp]
  amount id hid := by
    have hne : slot id ≠ slot (CString.atoi p.orderRef) := fun heq => by
      simp [CtpEvent.trades, hp, heq] at hid
    rw [getRequestTrack, ht, Function.update_of_ne hne]
    rfl

theorem view_rtnTrade (p : TradeField) : View (.callback (.rtnTrade p)) e (e.onRtnTrade p) := by
  unfold onRtnTrade
  dsimp only
  split
  · rename_i hp
    rw [show e.testOtId (CString.atoi p.orderRef) (CString.strtoll p.tradeId) =
      ((e.testOtId (CString.atoi p.orderRef) (CString.strtoll p.tradeId)).1,
        (e.testOtId (CString.atoi p.orderRef) (CString.strtoll p.tradeId)).2) from rfl]
    have hself := (Function.update_eq_self (slot (CString.atoi p.orderRef)) e.requestTrack).symm
    cases (e.testOtId (CString.atoi p.orderRef) (CString.strtoll p.tradeId)).2 with
    | true => exact view_trade hp rfl hself rfl rfl ⟨rfl, rfl, rfl, rfl⟩
    | false =>
      dsimp only
      split
      · exact view_trade hp rfl rfl rfl rfl ⟨rfl, rfl, rfl, rfl⟩
      · exact view_trade hp rfl hself rfl rfl ⟨rfl, rfl, rfl, rfl⟩
  · rename_i hp
    refine (Frame.refl e).view rfl rfl fun id => ?_
    simp only [CtpEvent.trades, hp, false_and, decide_false]

theorem frame_writeErrRtn (d : IOInputOrderField) (errid : Int) (msg : String) :
    Frame e (e.writeErrRtn d errid msg) :=
  ⟨⟨rfl, rfl, rfl, rfl⟩, rfl, rfl, rfl, fun _ => rfl⟩

theorem view_insert (d : IOInputOrderField) (riskRet apiRet : Int) :
    View (.insert d riskRet apiRet) e (e.reqOrderInsert d riskRet apiRet) := by
  unfold reqOrderInsert
  cases hu : (if 0 ≤ d.accIdx then e.accountUnits[d.accIdx.toNat]? else none) with
  | none =>
    dsimp only
    exact (frame_writeErrRtn d _ _).view (by simp [CtpEvent.sends, hu])
      (by simp [CtpEvent.accepted, CtpEvent.sends, hu]) fun _ => rfl
  | some unit =>
    dsimp only
    split
    · rename_i hr
      exact (frame_writeErrRtn d _ _).view (by simp [CtpEvent.sends, hr])
        (by simp [CtpEvent.accepted, CtpEvent.sends, hr]) fun _ => rfl
    · rename_i hr
      rw [not_not] at hr
      have hs : (CtpEvent.insert d riskRet apiRet).sends e = true := by
        simp [CtpEvent.sends, hu, hr]
      split
      · rename_i ha
        subst ha
        have hacc : (CtpEvent.insert d riskRet 0).accepted e = true := by
          simp [CtpEvent.accepted, hs]
        exact {
          start := rfl, end_ := rfl, units := rfl, user := rfl
          requestId := by rw [hacc]; rfl
          sent := by simp [hs, commit, setRequestTrack]
          acceptedIds := by simp [hacc, Engine.acceptedIds, commit, setRequestTrack]
          remembered := fun id => (and_iff_left rfl).symm
          amount := fun id _ => (frame_set e.requestId
            (insertTrack d unit e.requestId (e.getRequestTrack e.requestId)) rfl).amounts _ }
      · rename_i ha
        have hacc : (CtpEvent.insert d riskRet apiRet).accepted e = false := by
          simp [CtpEvent.accepted, ha]
        exact {
          start := rfl, end_ := rfl, units := rfl, user := rfl
          requestId := by rw [hacc]; exact (add_zero _).symm
          sent := by simp [hs, writeErrRtn, commit]
          acceptedIds := by simp [hacc, Engine.acceptedIds, writeErrRtn, commit, ha]
          remembered := fun id => (and_iff_left rfl).symm
          amount := fun id _ => rfl }

theorem view_apply (ev : CtpEvent) (e : Engine) : View ev e (ev.apply e) := by
  cases ev with
  | insert d riskRet apiRet => exact view_insert d riskRet apiRet
  | callback c =>
    by_cases hc : ∃ p, c = .rtnTrade p
    · obtain ⟨p, rfl⟩ := hc
      exact view_rtnTrade p
    · exact view_callback c fun p hp => hc ⟨p, hp⟩

end View

/-! ## Runs -/

section Run

variable {e e' : Engine}

theorem Fixed.refl (e : Engine) : Fixed e e := ⟨rfl, rfl, rfl, rfl⟩

theorem Fixed.trans {e'' : Engine} (h : Fixed e e') (h' : Fixed e' e'') : Fixed e e'' :=
  ⟨h'.start.trans h.start, h'.end_.trans h.end_, h'.units.trans h.units, h'.user.trans h.user⟩

theorem Fixed.checkRequestId (h : Fixed e e') (i : Int) :
    e'.checkRequestId i = e.checkRequestId i := by
  simp only [Engine.checkRequestId, h.start, h.end_]

theorem Fixed.sends (h : Fixed e e') (ev : CtpEvent) : ev.sends e' = ev.sends e := by
  cases ev <;> simp only [CtpEvent.sends, h.units]

theorem Fixed.accepted (h : Fixed e e') (ev : CtpEvent) : ev.accepted e' = ev.accepted e := by
  cases ev <;> simp only [CtpEvent.accepted, h.sends]

theorem Fixed.trades (h : Fixed e e') (id : Int) (ev : CtpEvent) :
    ev.trades e' id = ev.trades e id := by
  have hu : e'.chkUserId = e.chkUserId := by
    funext u
    simp only [chkUserId, h.user]
  unfold CtpEvent.trades
  split
  · simp only [hu, h.checkRequestId]
  · rfl

/-- The id the next order gets behind the events `pre`: the first id of the
session, counted up by the orders accepted. -/
def nextId (e : Engine) (pre : List CtpEvent) : Int := e.requestId + pre.countP (·.accepted e)

/-- What a session has done, from its start and its events alone. -/
structure RunView (e : Engine) (es : List CtpEvent) : Prop extends Fixed e (session.exec e es) where
  requestId : (session.exec e es).requestId = nextId e es
  acceptedIds : (session.exec e es).acceptedIds =
    e.acceptedIds ++ (List.range (es.countP (·.accepted e))).map fun k : Nat => e.requestId + k
  remembered : ∀ id, (session.exec e es).remembered id = [] ↔
    e.remembered id = [] ∧ ∀ ev ∈ es, ev.trades e id = false
  amount : ∀ id, (∀ ev ∈ es, ev.trades e id = false) →
    ((session.exec e es).getRequestTrack id).amountTraded = (e.getRequestTrack id).amountTraded

theorem exec_concat (e : Engine) (es : List CtpEvent) (ev : CtpEvent) :
    session.exec e (es ++ [ev]) = ev.apply (session.exec e es) :=
  session.exec_append e es [ev]

theorem run_view (e : Engine) (es : List CtpEvent) : RunView e es := by
  induction es using List.reverseRecOn with
  | nil =>
    refine ⟨Fixed.refl e, by simp [nextId], by simp, fun id => by simp, fun id _ => rfl⟩
  | append_singleton es ev ih =>
    have hv := view_apply ev (session.exec e es)
    have ha := ih.toFixed.accepted ev
    constructor
    case toFixed =>
      rw [exec_concat]
      exact ih.toFixed.trans hv.toFixed
    case requestId =>
      rw [exec_concat, hv.requestId, ih.requestId, ha, nextId, nextId, List.countP_append,
        List.countP_singleton]
      split <;> simp [add_assoc]
    case acceptedIds =>
      rw [exec_concat, hv.acceptedIds, ih.acceptedIds, ih.requestId, ha, List.countP_append,
        List.countP_singleton]
      split
      · simp [List.range_succ, nextId]
      · simp
    case remembered =>
      intro id
      rw [exec_concat, hv.remembered, ih.remembered, ih.toFixed.trades]
      simp only [List.forall_mem_append, List.forall_mem_singleton, and_assoc]
    case amount =>
      intro id h
      rw [List.forall_mem_append, List.forall_mem_singleton] at h
      rw [exec_concat, hv.amount id (by rw [ih.toFixed.trades]; exact h.2), ih.amount id h.1]

end Run

/-! ## The orders of a day -/

/-- The engine at the start of a session, on a new day or after a restart. -/
structure Begins (e : Engine) : Prop where
  sent : e.sent = []
  first : e.requestIdStart ≤ e.requestId
  filters : ∀ id, e.remembered id = []

section Day

variable (e : Engine) (day : List Int) (es : List CtpEvent)

/-- The orders of the day, those placed before the session (`day`) and those
accepted in it, have different slots; every id sent is in the range; an order's
slot is clean when the order has been put into it. -/
structure OrdersApart : Prop where
  slots : ((day ++ (session.exec e es).acceptedIds).map slot).Nodup
  range : ∀ i ∈ (session.exec e es).sent.map (·.1), (session.exec e es).checkRequestId i = true
  clean : AtEach (fun pre ev => ev.accepted (session.exec e pre) = true →
    let id := (session.exec e pre).requestId
    let e' := session.exec e (pre ++ [ev])
    (e'.getRequestTrack id).amountTraded = 0 ∧ e'.remembered id = []) es

/-- What an order asks of the session before it. -/
def Room (pre : List CtpEvent) (ev : CtpEvent) : Prop :=
  (ev.sends e = true → nextId e pre ≤ e.requestIdEnd) ∧
    (ev.accepted e = true → pre.countP (·.accepted e) < 262144 ∧
      (∀ i ∈ day, ¬(262144 : Int) ∣ nextId e pre - i) ∧
      (e.getRequestTrack (nextId e pre)).amountTraded = 0 ∧
      ∀ ev' ∈ pre, ev'.trades e (nextId e pre) = false)

end Day

section Day

variable {e : Engine} {day : List Int} {es : List CtpEvent} {ev : CtpEvent}

theorem slot_not_mem_range (i : Int) (n : Nat) :
    slot (i + n) ∉ ((List.range n).map fun k : Nat => i + (k : Int)).map slot ↔ n < 262144 := by
  simp only [List.map_map, List.mem_map, List.mem_range, Function.comp_apply, not_exists, not_and,
    slot_eq_iff]
  constructor
  · intro h
    by_contra hn
    exact h (n - 262144) (by omega) (by omega)
  · intro hn k hk hd
    omega

theorem slots_concat (h : Begins e) :
    ((day ++ (session.exec e (es ++ [ev])).acceptedIds).map slot).Nodup ↔
      ((day ++ (session.exec e es).acceptedIds).map slot).Nodup ∧
        (ev.accepted e = true → es.countP (·.accepted e) < 262144 ∧
          ∀ i ∈ day, ¬(262144 : Int) ∣ nextId e es - i) := by
  have hr := run_view e es
  rw [exec_concat, (view_apply ev _).acceptedIds, hr.toFixed.accepted, hr.requestId]
  cases ev.accepted e with
  | false => simp
  | true =>
    rw [if_pos rfl, ← List.append_assoc, List.map_append, List.map_singleton, List.nodup_append]
    have hday : slot (nextId e es) ∉ day.map slot ↔ ∀ i ∈ day, ¬(262144 : Int) ∣ nextId e es - i := by
      simp only [List.mem_map, not_exists, not_and, ← slot_eq_iff]
      exact forall₂_congr fun i _ => not_congr eq_comm
    have hmem : slot (nextId e es) ∉ (day ++ (session.exec e es).acceptedIds).map slot ↔
        es.countP (·.accepted e) < 262144 ∧ ∀ i ∈ day, ¬(262144 : Int) ∣ nextId e es - i := by
      rw [List.map_append, List.mem_append, not_or, hday, hr.acceptedIds, Engine.acceptedIds, h.sent,
        List.filter_nil, List.map_nil, List.nil_append, and_comm]
      exact and_congr_left fun _ => slot_not_mem_range _ _
    rw [← hmem]
    constructor
    · rintro ⟨h1, -, h2⟩
      exact ⟨h1, fun _ hm => h2 _ hm _ (List.mem_singleton_self _) rfl⟩
    · rintro ⟨h1, h2⟩
      refine ⟨h1, List.nodup_singleton _, fun x hx y hy hxy => h2 rfl ?_⟩
      rwa [← List.mem_singleton.mp hy, ← hxy]

theorem range_concat (h : Begins e) :
    (∀ i ∈ (session.exec e (es ++ [ev])).sent.map (·.1),
        (session.exec e (es ++ [ev])).checkRequestId i = true) ↔
      (∀ i ∈ (session.exec e es).sent.map (·.1), (session.exec e es).checkRequestId i = true) ∧
        (ev.sends e = true → nextId e es ≤ e.requestIdEnd) := by
  have hr := run_view e es
  have hv := view_apply ev (session.exec e es)
  have hnext : e.checkRequestId (nextId e es) = true ↔ nextId e es ≤ e.requestIdEnd := by
    have := h.first
    rw [Engine.checkRequestId, decide_eq_true_eq, nextId]
    omega
  simp only [exec_concat, hv.toFixed.checkRequestId, hr.toFixed.checkRequestId]
  rw [hv.sent, hr.toFixed.sends, hr.requestId, List.forall_mem_append, ← hnext]
  cases ev.sends e <;> simp

theorem trades_of_accepted (id : Int) (h : ev.accepted e = true) : ev.trades e id = false := by
  cases ev with
  | insert d riskRet apiRet => rfl
  | callback c => cases h

theorem clean_iff (h : Begins e) :
    (ev.accepted (session.exec e es) = true →
      let id := (session.exec e es).requestId
      let e' := session.exec e (es ++ [ev])
      (e'.getRequestTrack id).amountTraded = 0 ∧ e'.remembered id = []) ↔
    (ev.accepted e = true → (e.getRequestTrack (nextId e es)).amountTraded = 0 ∧
      ∀ ev' ∈ es, ev'.trades e (nextId e es) = false) := by
  have hr := run_view e es
  have hr' := run_view e (es ++ [ev])
  dsimp only
  rw [hr.toFixed.accepted, hr.requestId]
  refine forall_congr' fun ha => ?_
  -- the filter tells whether the slot has been traded in; if not, its amount is that of the start
  have hrem : (session.exec e (es ++ [ev])).remembered (nextId e es) = [] ↔
      ∀ ev' ∈ es, ev'.trades e (nextId e es) = false := by
    rw [hr'.remembered, List.forall_mem_append, List.forall_mem_singleton]
    simp [h.filters, trades_of_accepted (nextId e es) ha]
  rw [hrem]
  refine and_congr_left fun ht => ?_
  rw [hr'.amount]
  rw [List.forall_mem_append, List.forall_mem_singleton]
  exact ⟨ht, trades_of_accepted _ ha⟩

/-- The orders of a day have ids in the range, slots for themselves, and clean
ones, exactly if every order finds room. -/
theorem ordersApart_iff (e : Engine) (h : Begins e) (day : List Int) (es : List CtpEvent) :
    OrdersApart e day es ↔ (day.map slot).Nodup ∧ AtEach (Room e day) es := by
  induction es using List.reverseRecOn with
  | nil =>
    refine ⟨fun hp => ⟨?_, atEach_nil _⟩, fun hc => ⟨?_, ?_, atEach_nil _⟩⟩
    · have := hp.slots
      rwa [session.exec_nil, Engine.acceptedIds, h.sent, List.filter_nil, List.map_nil,
        List.append_nil] at this
    · rw [session.exec_nil, Engine.acceptedIds, h.sent, List.filter_nil, List.map_nil,
        List.append_nil]
      exact hc.1
    · simp [h.sent]
  | append_singleton es ev ih =>
    have hsplit : OrdersApart e day (es ++ [ev]) ↔ OrdersApart e day es ∧ Room e day es ev := by
      constructor
      · rintro ⟨h1, h2, h3⟩
        obtain ⟨h1, hs⟩ := (slots_concat h).mp h1
        obtain ⟨h2, hsent⟩ := (range_concat h).mp h2
        obtain ⟨h3, hclean⟩ := atEach_concat.mp h3
        exact ⟨⟨h1, h2, h3⟩, hsent, fun ha =>
          ⟨(hs ha).1, (hs ha).2, (clean_iff h).mp hclean ha⟩⟩
      · rintro ⟨⟨h1, h2, h3⟩, hsent, hacc⟩
        exact ⟨(slots_concat h).mpr ⟨h1, fun ha => ⟨(hacc ha).1, (hacc ha).2.1⟩⟩,
          (range_concat h).mpr ⟨h2, hsent⟩,
          atEach_concat.mpr ⟨h3, (clean_iff h).mpr fun ha => (hacc ha).2.2⟩⟩
    rw [hsplit, ih, atEach_concat, and_assoc]

end Day

/-- The engine on a new day, with a range of ids. -/
def newDay (first last : Int) : Engine :=
  { requestId := first, requestIdStart := first, requestIdEnd := last, accountUnits := [⟨1, 1⟩] }

theorem begins_newDay (first last : Int) : Begins (newDay first last) :=
  ⟨rfl, Int.le_refl first, fun _ => rfl⟩

/-- An order that is accepted. -/
def anOrder : CtpEvent :=
  .insert { from_ := 7, localId := 1, accIdx := 0, instrHash := 1, instr := "rb1810", price := 100
            vol := 1, dir := .buy, off := .opn, stgId := 1 } 0 0

/-- The fill of the order with the reference 1000. -/
def aFill : CtpEvent :=
  .callback (.rtnTrade { oneLot "11" with orderRef := "1000" })

/-- Two orders and the fill of the first, in the range of the configuration that
comes with the engine. -/
theorem ordersApart_two : OrdersApart (newDay 1000 1000000) [] [anOrder, aFill, anOrder] := by
  have h1 : AtEach (Room (newDay 1000 1000000) []) ([] ++ [anOrder]) :=
    atEach_concat.mpr ⟨atEach_nil _, by decide, fun _ => ⟨by decide, by decide, rfl, by decide⟩⟩
  have h2 : AtEach (Room (newDay 1000 1000000) []) ([anOrder] ++ [aFill]) :=
    atEach_concat.mpr ⟨h1, by decide, fun h => absurd h (by decide)⟩
  have h3 : AtEach (Room (newDay 1000 1000000) []) ([anOrder, aFill] ++ [anOrder]) :=
    atEach_concat.mpr ⟨h2, by decide, fun _ => ⟨by decide, by decide, rfl, by decide⟩⟩
  exact (ordersApart_iff _ (begins_newDay 1000 1000000) [] _).mpr ⟨List.nodup_nil, h3⟩

/-- An order, its fill, and `n` more orders. -/
def longDay (n : Nat) : List CtpEvent := anOrder :: aFill :: List.replicate n anOrder

theorem longDay_succ (n : Nat) : longDay (n + 1) = longDay n ++ [anOrder] := by
  simp [longDay, List.replicate_succ']

theorem countP_longDay (n : Nat) :
    (longDay n).countP (·.accepted (newDay 1000 1000000)) = n + 1 := by
  have ho : anOrder.accepted (newDay 1000 1000000) = true := by decide
  have hf : aFill.accepted (newDay 1000 1000000) = false := by decide
  simp [longDay, ho, hf, List.countP_replicate]

theorem slots_longDay :
    ¬(([] ++ (session.exec (newDay 1000 1000000) (longDay 262144)).acceptedIds).map slot).Nodup := by
  intro h
  have hs : longDay 262144 = longDay 262143 ++ [anOrder] := longDay_succ 262143
  rw [hs] at h
  have hroom := (((slots_concat (begins_newDay 1000 1000000)).mp h).2 (by decide)).1
  rw [countP_longDay] at hroom
  omega

/-- A range of one id and two orders; then the range of the configuration that
comes with the engine, with so many orders that the last finds the slot of the
first, and its trade. -/
theorem not_ordersApart :
    ¬OrdersApart (newDay 1 1) [] [anOrder, anOrder] ∧
      ¬OrdersApart (newDay 1000 1000000) [] (longDay 262144) ∧
      ¬((session.exec (newDay 1000 1000000) (longDay 262144)).acceptedIds.map slot).Nodup ∧
      (session.exec (newDay 1000 1000000) (longDay 262144)).remembered (1000 + 262144) ≠ [] := by
  have hslots := slots_longDay
  refine ⟨fun h => absurd (h.range 2 (by decide)) (by decide), fun h => hslots h.slots, ?_,
    fun h => ?_⟩
  · rwa [List.nil_append] at hslots
  · have hfill : aFill ∈ longDay 262144 := List.mem_cons_of_mem _ List.mem_cons_self
    exact absurd ((((run_view _ _).remembered _).mp h).2 aFill hfill) (by decide)

/-! ## The starts of an order's own runs -/

section Starts

variable {e : Engine}

/-- No event leaves a message type in the memory of the next frame. -/
theorem clean_apply (h : e.Clean) (ev : CtpEvent) : (ev.apply e).Clean := by
  cases ev with
  | callback c =>
    obtain ⟨ms, hms⟩ := ctp_step h c rfl
    exact hms.clean
  | insert d riskRet apiRet =>
    change (e.reqOrderInsert d riskRet apiRet).Clean
    unfold reqOrderInsert
    split
    · rfl
    · split
      · rfl
      · dsimp only
        split <;> rfl

theorem clean_run (h : e.Clean) (es : List CtpEvent) : (session.exec e es).Clean :=
  session.invariant_run (I := Engine.Clean) (fun _ ev he _ => clean_apply he ev) e es h
    (session.admits_of_forall (fun _ _ _ => trivial) e)

end Starts

end NatFramework.Td
