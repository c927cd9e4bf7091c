import NatFramework.Risk.SelfTrade
import NatFramework.Td.Executions

/-!
# `req_order_insert` step by step

`CTDEngineCtp::req_order_insert` sends the order first. What it does behind
`ReqOrderInsert` are the writes to the track, one field after the other, the
acknowledgement, and `onNew`; the callbacks of the vendor's thread, each one
step, may come between any two of them.

* `Inserting`: the engine, its risk accounts, and how many steps are done.
* `engine_of_steps`: the steps without a callback are `reqOrderInsert`.
* `Outcome`, `answered_apply`: what a callback does to a track.
-/
namespace NatFramework.Td

open Lib Account Risk Engine

/-! ## The steps -/

/-- The writes to the track, in the order of the source.
mirrors td/CTDEngineCtp.cpp:770-785 -/
def insertWrites (d : IOInputOrderField) (unit : AccountUnit) (id : Int) :
    List (OrderTrack → OrderTrack) :=
  [fun t => { t with status := ods .tdSend },
    fun t => { t with instrHash := d.instrHash },
    fun t => { t with instr := d.instr },
    fun t => { t with price := d.price },
    fun t => { t with vol := d.vol },
    fun t => { t with dir := d.dir },
    fun t => { t with off := d.off },
    fun t => { t with volTraded := 0 },
    fun t => { t with from_ := d.from_ },
    fun t => { t with localId := d.localId },
    fun t => { t with accId := d.accIdx },
    fun t => { t with orderRef := id },
    fun t => { t with frontId := unit.frontId },
    fun t => { t with sessionId := unit.sessionId },
    fun t => { t with stgId := d.stgId }]

/-- The acknowledgement, with the increment of `request_id_`, up to `commit`.
mirrors td/CTDEngineCtp.cpp:788-802 -/
def ackFill (d : IOInputOrderField) (id : Int) (e : Engine) : Engine :=
  let t := e.getRequestTrack id
  let p := e.writer.prefetch
  { e with
    requestId := e.requestId + 1
    writer :=
      { e.writer with
        free :=
          { p with
            to_ := d.from_
            rtnMsg :=
              { p.rtnMsg with
                msgType := ods .tdSend, localId := d.localId, instrHash := d.instrHash
                instr := d.instr, price := d.price, vol := d.vol, dir := d.dir, off := d.off
                orderRef := e.requestId, frontId := t.frontId, sessionId := t.sessionId } } } }

/-- An engine inside `req_order_insert`, behind `ReqOrderInsert`: `utilis` are
`acc_utilis_`, `pc` counts the steps done. -/
structure Inserting (τ : Type) where
  engine : Engine
  utilis : Int → RiskTop τ
  pc : Nat := 0

/-- The order to insert: its account's session, its request id and the time at
which `onNew` is called. -/
structure Insertion where
  d : IOInputOrderField
  unit : AccountUnit
  id : Int
  nano : Int

namespace Inserting

variable {τ : Type} (O : Treap τ) (info : TradeBaseInfo) (x : Insertion)

def track (s : Inserting τ) : OrderTrack := s.engine.getRequestTrack x.id

/-- mirrors td/CTDEngineCtp.cpp:770-812 -/
def steps : List (Inserting τ → Inserting τ) :=
  (insertWrites x.d x.unit x.id).map (fun w s =>
    { s with engine := s.engine.setRequestTrack x.id (w (s.track x)) }) ++
  [fun s => { s with engine := ackFill x.d x.id s.engine },
    fun s => { s with engine := s.engine.commit s.engine.writer.free },
    fun s =>
      { s with
        utilis := Function.update s.utilis x.d.accIdx
          ((s.utilis x.d.accIdx).onNew O info x.d.dir x.d.off x.d.price x.d.vol x.d.instrHash
            (s.track x).orderRef x.nano) }]

/-- The number of steps. -/
def size : Nat := 18

theorem length_steps : (steps O info x).length = size := rfl

/-- The next step, nothing behind the last. -/
def advance (s : Inserting τ) : Inserting τ :=
  match (steps O info x)[s.pc]? with
  | some f => { f s with pc := s.pc + 1 }
  | none => s

/-- The calls of `engine_on_rtn` reach the account with the index they carry.
mirrors td/ITDEngine.h:114-117 -/
def deliver (ms : List Passed) (utilis : Int → RiskTop τ) : Int → RiskTop τ :=
  ms.foldl (fun us m => Function.update us m.accIdx ((us m.accIdx).onRtn O info m.track m.msg)) utilis

/-- A callback, as one step. -/
def called (c : CtpCallback) (s : Inserting τ) : Inserting τ :=
  { s with
    engine := c.apply s.engine
    utilis := deliver O info ((c.apply s.engine).passed.drop s.engine.passed.length) s.utilis }

end Inserting

inductive InsertEvent where
  | step
  | callback (c : CtpCallback)
  deriving DecidableEq, Repr

/-- The callbacks the order itself has. -/
def CtpCallback.OfOrder (id : Int) : CtpCallback → Prop
  | rspOrderInsert _ _ nRequestId => nRequestId = id
  | errRtnOrderInsert p _ => CString.atoi p.orderRef = id
  | rtnOrder p => CString.atoi p.orderRef = id
  | rtnTrade p => CString.atoi p.orderRef = id
  | _ => False

namespace Inserting

variable {τ : Type} (O : Treap τ) (info : TradeBaseInfo) (x : Insertion)

def next (s : Inserting τ) : InsertEvent → Inserting τ
  | .step => advance O info x s
  | .callback c => called O info c s

/-- The steps of the insertion and the callbacks of its order, in any order. -/
def sys : Sys (Inserting τ) InsertEvent where
  start s := s.pc = 0
  ok _ ev := ∀ c, ev = .callback c → c.OfOrder x.id
  next := next O info x

theorem setRequestTrack_set (e : Engine) (id : Int) (t t' : OrderTrack) :
    (e.setRequestTrack id t).setRequestTrack id t' = e.setRequestTrack id t' := by
  simp [setRequestTrack]

/-- Steps that are left. -/
theorem exec_steps (n : Nat) (s : Inserting τ) :
    (sys O info x).exec s (List.replicate n .step) =
      (((steps O info x).drop s.pc).take n).foldl (fun s f => { f s with pc := s.pc + 1 }) s := by
  induction n generalizing s with
  | zero => simp
  | succ n ih =>
    have hnext : (sys O info x).next s .step = advance O info x s := rfl
    rw [List.replicate_succ, Sys.exec_cons, ih, hnext]
    rcases hf : (steps O info x)[s.pc]? with _ | f
    · have hstop : advance O info x s = s := by
        unfold advance
        rw [hf]
      rw [hstop, List.drop_eq_nil_of_le (List.getElem?_eq_none_iff.mp hf)]
      simp
    · have hgo : advance O info x s = { f s with pc := s.pc + 1 } := by
        unfold advance
        rw [hf]
      obtain ⟨hlt, rfl⟩ := List.getElem?_eq_some_iff.mp hf
      rw [hgo, List.drop_eq_getElem_cons hlt]
      rfl

/-- The steps without a callback are what `reqOrderInsert` does behind
`ReqOrderInsert`. -/
theorem engine_of_steps (e : Engine) (utilis : Int → RiskTop τ) (hacc : 0 ≤ x.d.accIdx)
    (hunit : e.accountUnits[x.d.accIdx.toNat]? = some x.unit) (hid : x.id = e.requestId) :
    ((sys O info x).exec ⟨{ e with sent := e.sent ++ [(e.requestId, 0)] }, utilis, 0⟩
      (List.replicate size .step)).engine = e.reqOrderInsert x.d 0 0 := by
  obtain ⟨d, unit, id, nano⟩ := x
  dsimp only at hid hunit hacc
  subst hid
  rw [exec_steps]
  unfold Engine.reqOrderInsert
  rw [if_pos hacc, hunit]
  simp only [steps, insertWrites, size, List.map_cons, List.map_nil, List.cons_append,
    List.nil_append, List.drop_zero, List.take_succ_cons, List.take_zero, List.foldl_cons,
    List.foldl_nil, track, setRequestTrack_set, getRequestTrack_set, ackFill, insertTrack, ne_eq,
    not_true_eq_false, if_false, if_true]
  rfl

end Inserting

/-! ## What a callback does -/

/-- What a callback does to the track of its order: nothing, bits added to the
status, a closing message of a type and a volume, or a fill. -/
inductive Outcome where
  | nothing
  | marks (bits : Status)
  | closes (type : OrderRtnType) (vol : Int)
  | fills (volume : Int) (price : ℚ)
  deriving DecidableEq, Repr

/-- A message type of which the account and the treaps take no notice. -/
def Unbooked (s : Status) : Prop :=
  hasAny s AccBase.cxlMask = false ∧ s.has .canceled = false ∧ s.has .execution = false

instance (s : Status) : Decidable (Unbooked s) := by unfold Unbooked; infer_instance

namespace Outcome

def track : Outcome → OrderTrack → OrderTrack
  | nothing, t => t
  | marks bits, t => { t with status := t.status ||| bits }
  | closes type _, t => { t with status := t.status ||| ods type }
  | fills volume price, t => filled volume price t

/-- The account books the message. -/
def booked : Outcome → Bool
  | nothing | marks _ => false
  | closes _ _ | fills _ _ => true

/-- The messages passed, `t` being the track afterwards. -/
def Passes (t : OrderTrack) (ms : List Passed) : Outcome → Prop
  | nothing | marks _ => ∀ m ∈ ms, Unbooked m.msg.msgType
  | closes type vol => Status.has (ods type) .closed = true ∧
      ∃ r : RtnMsg, ms = [⟨t.accId, t, r⟩] ∧ r.msgType = ods type ∧ r.vol = vol
  | fills volume price => ∃ r : RtnMsg, ms = [⟨t.accId, t, r⟩] ∧ r.msgType = ods .execution ∧
      r.vol = volume ∧ r.price = price

end Outcome

namespace CtpCallback

/-- The tests of the callbacks, and what they do behind them. -/
def outcome (id : Int) (e : Engine) : CtpCallback → Outcome
  | rspOrderInsert p rsp _ =>
    let t := e.getRequestTrack id
    if e.checkRequestId id ∧ rsp.isSome ∧ t.from_ ≠ 0 ∧ e.chkUserId p.userId ∧ ¬t.status.has .reject then
      .closes .reject t.vol
    else .nothing
  | errRtnOrderInsert p _ =>
    let t := e.getRequestTrack id
    if e.chkUserId p.userId ∧ e.checkRequestId id ∧ t.from_ ≠ 0 ∧ ¬t.status.has .marketReject then
      .closes .marketReject t.vol
    else .nothing
  | rtnOrder p =>
    let t := e.getRequestTrack id
    if e.chkUserId p.userId ∧ e.checkRequestId id then
      match p.orderStatus with
      | .unknown => if t.status.has .accept then .nothing else .marks (ods .accept)
      | .canceled | .partTradedNotQueueing =>
        if t.status.has .canceled then .nothing else .closes .canceled p.volumeTotal
      | .allTraded =>
        .marks (if (t.status ||| ods .closed).has .marketAccept then ods .closed
          else ods .closed ||| ods .marketAccept)
      | .noTradeQueueing | .partTradedQueueing =>
        if t.status.has .marketAccept then .nothing else .marks (ods .marketAccept)
      | _ => .nothing
    else .nothing
  | rtnTrade p =>
    if e.chkUserId p.userId ∧ e.checkRequestId id ∧ CString.strtoll p.tradeId ∉ e.remembered id ∧
        (e.getRequestTrack id).from_ ≠ 0 then
      .fills p.volume p.price
    else .nothing
  | _ => .nothing

end CtpCallback

/-- The memory of the next frame has no message type, or that of the
acknowledgement. -/
def Engine.Idle (e : Engine) : Prop :=
  e.writer.free.rtnMsg.msgType = 0 ∨ e.writer.free.rtnMsg.msgType = ods .tdSend

theorem Engine.Idle.unbooked {e : Engine} (h : e.Idle) : Unbooked e.writer.free.rtnMsg.msgType := by
  rcases h with h | h <;> rw [h] <;> decide

/-- What a callback with outcome `o` does to the engine. -/
structure Answered (id : Int) (o : Outcome) (e e' : Engine) : Prop where
  track : e'.getRequestTrack id = o.track (e.getRequestTrack id)
  user : e'.intUserId = e.intUserId
  range : e'.checkRequestId = e.checkRequestId
  idle : e'.Idle
  passed : ∃ ms, e'.passed = e.passed ++ ms ∧ o.Passes (e'.getRequestTrack id) ms

section Answered

variable {id : Int} {e : Engine}

theorem answered_nothing (h : e.Idle) : Answered id .nothing e e where
  track := rfl
  user := rfl
  range := rfl
  idle := h
  passed := ⟨[], (List.append_nil _).symm, by simp [Outcome.Passes]⟩

theorem answered_discard {o : Outcome} (ho : o.booked = false) {p : IOOrderRtn}
    (hp : p.rtnMsg.msgType = e.writer.free.rtnMsg.msgType) (h : e.Idle) :
    Answered id o e ((e.setRequestTrack id (o.track (e.getRequestTrack id))).discard p) where
  track := by
    change (Engine.setRequestTrack id _ e).getRequestTrack id = _
    rw [getRequestTrack_set]
  user := rfl
  range := rfl
  idle := by
    unfold Engine.Idle Engine.discard Writer.discard
    rw [hp]
    exact h
  passed := by
    refine ⟨[], (List.append_nil _).symm, ?_⟩
    cases o with
    | nothing => simp [Outcome.Passes]
    | marks => simp [Outcome.Passes]
    | closes => cases ho
    | fills => cases ho

theorem answered_post {o : Outcome} {p : IOOrderRtn}
    (hp : o.Passes (o.track (e.getRequestTrack id))
      [⟨(o.track (e.getRequestTrack id)).accId, o.track (e.getRequestTrack id), p.rtnMsg⟩]) :
    Answered id o e (e.post id (o.track (e.getRequestTrack id)) p) where
  track := getRequestTrack_post ..
  user := rfl
  range := rfl
  idle := Or.inl rfl
  passed := ⟨_, rfl, by rwa [getRequestTrack_post]⟩

theorem passes_one {o : Outcome} (ho : o.booked = false) {t : OrderTrack} {m : Passed}
    (hm : Unbooked m.msg.msgType) : o.Passes t [m] := by
  have hall : ∀ m' ∈ [m], Unbooked m'.msg.msgType := by
    intro m' hm'
    rw [List.mem_singleton.mp hm']
    exact hm
  cases o with
  | nothing => exact hall
  | marks => exact hall
  | closes => cases ho
  | fills => cases ho

theorem answered_errRtn {type : OrderRtnType} (ht : Status.has (ods type) .closed = true)
    (instrumentId : String) (rsp : RspInfoField) :
    Answered id (.closes type (e.getRequestTrack id).vol) e (e.errRtn type id instrumentId rsp) :=
  answered_post (o := .closes type (e.getRequestTrack id).vol) ⟨ht, _, rfl, rfl, rfl⟩

theorem answered_onRspOrderInsert (h : e.Idle) (p : InputOrderField) (rsp : Option RspInfoField) :
    Answered id ((CtpCallback.rspOrderInsert p rsp id).outcome id e) e
      (e.onRspOrderInsert p rsp id) := by
  unfold CtpCallback.outcome onRspOrderInsert
  dsimp only
  by_cases hr : e.checkRequestId id = true
  · rw [if_pos hr]
    cases rsp with
    | none =>
      rw [if_neg (by simp)]
      exact answered_nothing h
    | some rsp =>
      dsimp only
      by_cases hf : (e.getRequestTrack id).from_ ≠ 0 ∧ e.chkUserId p.userId = true
      · rw [if_pos hf]
        by_cases hs : (e.getRequestTrack id).status.has .reject = true
        · rw [if_pos hs, if_neg (by simp [hs])]
          exact answered_nothing h
        · rw [if_neg hs, if_pos ⟨hr, rfl, hf.1, hf.2, hs⟩]
          exact answered_errRtn (by decide) _ rsp
      · rw [if_neg hf, if_neg fun hx => hf ⟨hx.2.2.1, hx.2.2.2.1⟩]
        exact answered_nothing h
  · rw [if_neg hr, if_neg fun hx => hr hx.1]
    exact answered_nothing h

theorem answered_onErrRtnOrderInsert (h : e.Idle) (p : InputOrderField) (rsp : RspInfoField)
    (hid : CString.atoi p.orderRef = id) :
    Answered id ((CtpCallback.errRtnOrderInsert p rsp).outcome id e) e
      (e.onErrRtnOrderInsert p rsp) := by
  subst hid
  unfold CtpCallback.outcome onErrRtnOrderInsert
  dsimp only
  by_cases hu : e.chkUserId p.userId = true ∧ e.checkRequestId (CString.atoi p.orderRef) = true
  · rw [if_pos hu]
    by_cases hf : (e.getRequestTrack (CString.atoi p.orderRef)).from_ ≠ 0
    · rw [if_pos hf]
      by_cases hs : (e.getRequestTrack (CString.atoi p.orderRef)).status.has .marketReject = true
      · rw [if_pos hs, if_neg (by simp [hs])]
        exact answered_nothing h
      · rw [if_neg hs, if_pos ⟨hu.1, hu.2, hf, hs⟩]
        exact answered_errRtn (by decide) _ rsp
    · rw [if_neg hf, if_neg fun hx => hf hx.2.2.1]
      exact answered_nothing h
  · rw [if_neg hu, if_neg fun hx => hu ⟨hx.1, hx.2.1⟩]
    exact answered_nothing h

theorem unbooked_marketAccept : Unbooked (ods .marketAccept) := by decide

/-- The message about an order on the market, after bits have been set. -/
theorem answered_marketAccept (h : e.Idle) {bits : Status} {p : IOOrderRtn}
    (hp : p.rtnMsg.msgType = e.writer.free.rtnMsg.msgType) :
    Answered id
      (.marks (if ((e.getRequestTrack id).status ||| bits).has .marketAccept then bits
        else bits ||| ods .marketAccept)) e
      (e.marketAccept id
        { e.getRequestTrack id with status := (e.getRequestTrack id).status ||| bits } p) := by
  unfold marketAccept
  split
  · rename_i hm
    exact answered_discard (o := .marks bits) rfl hp h
  · have htrack : ∀ t : OrderTrack, { t with status := t.status ||| bits ||| ods .marketAccept } =
        (Outcome.marks (bits ||| ods .marketAccept)).track t := fun t => by
      rw [Outcome.track, ← BitVec.or_assoc]
    dsimp only
    rw [htrack]
    exact answered_post (passes_one rfl unbooked_marketAccept)

/-- The same without bits. -/
theorem answered_queueing (h : e.Idle) {p : IOOrderRtn}
    (hp : p.rtnMsg.msgType = e.writer.free.rtnMsg.msgType) :
    Answered id
      (if (e.getRequestTrack id).status.has .marketAccept then .nothing
        else .marks (ods .marketAccept)) e
      (e.marketAccept id (e.getRequestTrack id) p) := by
  unfold marketAccept
  split
  · exact answered_discard (o := .nothing) rfl hp h
  · exact answered_post (o := .marks (ods .marketAccept)) (passes_one rfl unbooked_marketAccept)

theorem unbooked_accept : Unbooked (ods .accept) := by decide

/-- The message about an order cancelled. -/
theorem answered_canceled {p : IOOrderRtn} {vol : Int} {msg : String}
    (hdrop : Answered id .nothing e (e.discard p)) :
    Answered id
      (if (e.getRequestTrack id).status.has .canceled then .nothing else .closes .canceled vol) e
      (if (e.getRequestTrack id).status.has .canceled then e.discard p
        else e.post id
          { e.getRequestTrack id with status := (e.getRequestTrack id).status ||| ods .canceled }
          { p with rtnMsg := { p.rtnMsg with msgType := ods .canceled, vol, msg } }) := by
  split
  · exact hdrop
  · exact answered_post (o := .closes .canceled vol) ⟨by decide, _, rfl, rfl, rfl⟩

theorem answered_onRtnOrder (h : e.Idle) (p : OrderField) (hid : CString.atoi p.orderRef = id) :
    Answered id ((CtpCallback.rtnOrder p).outcome id e) e (e.onRtnOrder p) := by
  subst hid
  unfold CtpCallback.outcome onRtnOrder
  dsimp only
  by_cases hu : e.chkUserId p.userId = true ∧ e.checkRequestId (CString.atoi p.orderRef) = true
  · rw [if_pos hu, if_pos hu]
    generalize hf : e.fillRtn (e.getRequestTrack (CString.atoi p.orderRef)) p.instrumentId
      (CString.atoi p.orderRef) = r
    have hr : r.rtnMsg.msgType = e.writer.free.rtnMsg.msgType := by
      rw [← hf]
      rfl
    have hdrop : Answered (CString.atoi p.orderRef) .nothing e (e.discard r) := by
      have hd := @answered_discard (CString.atoi p.orderRef) e .nothing rfl r hr h
      rwa [Outcome.track, setRequestTrack, getRequestTrack, Function.update_eq_self] at hd
    have hother : Answered (CString.atoi p.orderRef) .nothing e
        (e.post (CString.atoi p.orderRef) (e.getRequestTrack (CString.atoi p.orderRef)) r) :=
      answered_post (o := .nothing) (passes_one rfl (hr ▸ h.unbooked))
    generalize p.orderStatus = st
    cases st with
    | unknown =>
      dsimp only
      split
      · exact hdrop
      · exact answered_post (o := .marks (ods .accept)) (passes_one rfl unbooked_accept)
    | canceled => exact answered_canceled hdrop
    | partTradedNotQueueing => exact answered_canceled hdrop
    | allTraded => exact answered_marketAccept h hr
    | noTradeQueueing => exact answered_queueing h hr
    | partTradedQueueing => exact answered_queueing h hr
    | _ => exact hother
  · rw [if_neg hu, if_neg hu]
    exact answered_nothing h

/-- The filter remembers the trade. -/
theorem answered_testOtId (h : e.Idle) (otid mid : Int) :
    Answered id .nothing e (e.testOtId otid mid).1 :=
  { answered_nothing h with idle := h, passed := ⟨[], (List.append_nil _).symm, by simp [Outcome.Passes]⟩ }

/-- The message about a trade. -/
def tradeRtn (p : TradeField) (e : Engine) : IOOrderRtn :=
  let r := e.fillRtn (e.getRequestTrack (CString.atoi p.orderRef)) p.instrumentId
    (CString.atoi p.orderRef)
  { r with
    rtnMsg :=
      { r.rtnMsg with
        msgType := ods .execution, price := p.price, vol := p.volume, dir := p.direction
        off := p.offsetFlag } }

theorem answered_onRtnTrade (h : e.Idle) (p : TradeField) (hid : CString.atoi p.orderRef = id) :
    Answered id ((CtpCallback.rtnTrade p).outcome id e) e (e.onRtnTrade p) := by
  subst hid
  unfold CtpCallback.outcome onRtnTrade
  dsimp only
  by_cases hu : e.chkUserId p.userId = true ∧ e.checkRequestId (CString.atoi p.orderRef) = true
  · rw [if_pos hu]
    by_cases hk : CString.strtoll p.tradeId ∈ e.remembered (CString.atoi p.orderRef)
    · rw [testOtId_of_mem hk, if_neg fun hx => hx.2.2.1 hk]
      exact answered_nothing h
    · rw [testOtId_of_not_mem hk]
      dsimp only
      by_cases hf : (e.getRequestTrack (CString.atoi p.orderRef)).from_ ≠ 0
      · rw [if_pos (show (Engine.getRequestTrack (e.testOtId _ _).1 _).from_ ≠ 0 from hf),
          if_pos ⟨hu.1, hu.2, hk, hf⟩]
        obtain ⟨h1, h2, h3, h4, h5⟩ := @answered_post (CString.atoi p.orderRef)
          (e.testOtId (CString.atoi p.orderRef) (CString.strtoll p.tradeId)).1
          (.fills p.volume p.price)
          (tradeRtn p (e.testOtId (CString.atoi p.orderRef) (CString.strtoll p.tradeId)).1)
          ⟨_, rfl, rfl, rfl, rfl⟩
        exact ⟨h1, h2, h3, h4, h5⟩
      · rw [if_neg (show ¬(Engine.getRequestTrack (e.testOtId _ _).1 _).from_ ≠ 0 from hf),
          if_neg fun hx => hf hx.2.2.2]
        exact answered_testOtId h _ _
  · rw [if_neg hu, if_neg fun hx => hu ⟨hx.1, hx.2.1⟩]
    exact answered_nothing h

theorem answered_apply (h : e.Idle) (c : CtpCallback) (hc : c.OfOrder id) :
    Answered id (c.outcome id e) e (c.apply e) := by
  cases c with
  | rspOrderInsert p rsp i => exact hc ▸ answered_onRspOrderInsert h p rsp
  | rspOrderAction p rsp i => exact hc.elim
  | rtnOrder p => exact answered_onRtnOrder h p hc
  | rtnTrade p => exact answered_onRtnTrade h p hc
  | errRtnOrderInsert p rsp => exact answered_onErrRtnOrderInsert h p rsp hc
  | errRtnOrderAction p rsp => exact hc.elim

/-- The filters after a callback: they do not depend on a track. -/
def CtpCallback.filter (e : Engine) : CtpCallback → Int → CIDQueue
  | rtnTrade p =>
    if e.chkUserId p.userId ∧ e.checkRequestId (CString.atoi p.orderRef) then
      (e.testOtId (CString.atoi p.orderRef) (CString.strtoll p.tradeId)).1.otidfilter
    else e.otidfilter
  | _ => e.otidfilter

theorem otidfilter_apply (c : CtpCallback) (hc : c.OfOrder id) :
    (c.apply e).otidfilter = c.filter e := by
  cases c with
  | rspOrderInsert p rsp i =>
    change (e.onRspOrderInsert p rsp i).otidfilter = e.otidfilter
    unfold onRspOrderInsert
    split
    · cases rsp with
      | none => rfl
      | some rsp =>
        dsimp only
        split
        · split <;> rfl
        · rfl
    · rfl
  | rspOrderAction p rsp i => exact hc.elim
  | rtnOrder p =>
    change (e.onRtnOrder p).otidfilter = e.otidfilter
    unfold onRtnOrder marketAccept
    dsimp only
    split
    · split <;> first | rfl | (split <;> rfl)
    · rfl
  | rtnTrade p =>
    change (e.onRtnTrade p).otidfilter = CtpCallback.filter e (.rtnTrade p)
    unfold onRtnTrade CtpCallback.filter
    dsimp only
    split
    · split
      · rename_i heq
        rw [heq]
      · rename_i heq
        rw [heq]
        split <;> rfl
    · rfl
  | errRtnOrderInsert p rsp =>
    change (e.onErrRtnOrderInsert p rsp).otidfilter = e.otidfilter
    unfold onErrRtnOrderInsert
    dsimp only
    split
    · split
      · split <;> rfl
      · rfl
    · rfl
  | errRtnOrderAction p rsp => exact hc.elim

end Answered

end NatFramework.Td
