import NatFramework.Lib.Lists
import NatFramework.Td.RestartTop

/-!
# A restarting strategy beside a running engine

`CTDHelperComm::_init` places its reader at the end of the engine's page and
asks for the tracks of its orders; `rspOrderTrack` copies them one by one, and
`CStrategy::loadConfig` replays the copies. What the engine writes to the page
meanwhile the strategy reads afterwards. A fill is three writes of the engine:
the volume of the track, the message, the amount of the track.

* `Inv`: what every step keeps: a copied track is behind the engine's by the
  messages that are still to be read.
* `synced_of_run`: when no track is copied between the writes of a fill or a
  closing return and the reading, the strategy ends with the engine's volumes
  and amounts, and with each return booked once.
-/
namespace NatFramework.Td

open Lib Account AccBase Posting

/-! ## The two parties -/

/-- A track of the engine with the volume of its last closing return, and the
messages of its callbacks so far. -/
structure EngineOrder extends Sent where
  returns : List RtnMsg := []

/-- How far the strategy has come. -/
inductive Phase where
  | down | placed | answering | answered | installed | running
  deriving DecidableEq, Repr

/-- The tracks have been copied. -/
def Phase.hasAnswer : Phase → Bool
  | .answered | .installed | .running => true
  | .down | .placed | .answering => false

/-- `unwritten` are the messages the page does not have yet, `unpaid` those of the
fills whose amount the track does not have yet. Order `k` has `local_id` `k`. -/
structure Restarting where
  orders : List EngineOrder := []
  unwritten : List RtnMsg := []
  unpaid : List RtnMsg := []
  page : List RtnMsg := []
  phase : Phase := .down
  reader : Nat := 0
  answer : List OrderTrack := []
  helper : Helper

inductive RestartEvent where
  /-- The engine takes an order and acknowledges it. -/
  | accept (d : IOInputOrderField) (unit : AccountUnit) (id : Int)
  /-- A callback changes the track of an order; its message and, for a fill, its
  amount come later. -/
  | callback (k : Nat) (m : RtnMsg)
  | commit (i : Nat)
  | amount (i : Nat)
  /-- `td_reader_.init(td_read_path, -1)`. -/
  | place
  /-- The engine comes to the request for the tracks. -/
  | request
  /-- One turn of the loop in `rspOrderTrack`. -/
  | copy
  | respond
  | install
  /-- The replay in `loadConfig`. -/
  | load
  /-- `getRtn` and `onRtn`. -/
  | read
  deriving DecidableEq, Repr

/-- A callback but for the amount.
mirrors td/CTDEngineCtp.cpp:642-648 -/
def EngineOrder.called (r : RtnMsg) (x : EngineOrder) : EngineOrder where
  track := { trackRtn r x.track with amountTraded := x.track.amountTraded }
  closing := if r.msgType.has .closed then some r.vol else x.closing
  returns := x.returns ++ [r]

/-- mirrors td/CTDEngineCtp.cpp:666 -/
def EngineOrder.paid (r : RtnMsg) (x : EngineOrder) : EngineOrder :=
  { x with track := { x.track with amountTraded := x.track.amountTraded + r.price * r.vol } }

/-- The message of a callback.
mirrors td/ITDEngine.cpp:312-330 -/
def EngineOrder.written (k : Nat) (m : RtnMsg) (x : EngineOrder) : RtnMsg :=
  { echo x.track m with localId := k }

namespace Restarting

variable (info : TradeBaseInfo)

/-- mirrors td/CTDEngineCtp.cpp:772-801 -/
def ack (d : IOInputOrderField) (unit : AccountUnit) (id : Int) : RtnMsg :=
  { msgType := ods .tdSend, localId := d.localId, instrHash := d.instrHash, instr := d.instr
    price := d.price, vol := d.vol, dir := d.dir, off := d.off, orderRef := id
    frontId := unit.frontId, sessionId := unit.sessionId }

/-- mirrors td/CTDEngineCtp.cpp:495-812, td/ITDEngine.cpp:333-353,
td/CTDHelperComm.cpp:58-69,119-129,171-182, td/ITDHelper.cpp:60-82 and
strategy/CStrategy.cpp:235-237,362-366 -/
def next (s : Restarting) : RestartEvent → Restarting
  | .accept d unit id =>
    let d := { d with localId := s.orders.length }
    { s with
      orders := s.orders ++ [{ track := Engine.insertTrack d unit id {} }]
      unwritten := s.unwritten ++ [ack d unit id] }
  | .callback k m =>
    match s.orders[k]? with
    | none => s
    | some x =>
      let r := x.written k m
      { s with
        orders := s.orders.set k (x.called r)
        unwritten := s.unwritten ++ [r]
        unpaid := if r.msgType = ods .execution then s.unpaid ++ [r] else s.unpaid }
  | .commit i =>
    match s.unwritten[i]? with
    | none => s
    | some r => { s with page := s.page ++ [r], unwritten := s.unwritten.eraseIdx i }
  | .amount i =>
    match s.unpaid[i]? with
    | none => s
    | some r =>
      { s with
        orders := s.orders.modify r.localId.toNat (·.paid r), unpaid := s.unpaid.eraseIdx i }
  | .place => { s with phase := .placed, reader := s.page.length }
  | .request => { s with phase := .answering }
  | .copy => { s with answer := s.answer ++ (s.orders[s.answer.length]?.map (·.track)).toList }
  | .respond => { s with phase := .answered }
  | .install =>
    { s with
      phase := .installed, helper := { s.helper with sent := s.answer.map fun t => { track := t } } }
  | .load =>
    { s with
      phase := .running
      helper := { s.helper with acc := replay info (s.helper.sent.map (·.track)) s.helper.acc } }
  | .read =>
    match s.page[s.reader]? with
    | none => s
    | some r => { s with reader := s.reader + 1, helper := s.helper.next info (.rtn r) }

/-- The engine's thread takes no order while it answers. A fill is within the
order's volume, and the messages of one order are written in the order of its
callbacks. The strategy's steps come one after the other. -/
def Ok (s : Restarting) : RestartEvent → Prop
  | .accept d _ _ => s.phase ≠ .answering ∧ 1 ≤ d.vol
  | .callback k m => ∃ x, s.orders[k]? = some x ∧ x.Fits m
  | .commit i => ∃ r, s.unwritten[i]? = some r ∧ ∀ q ∈ s.unwritten.take i, q.localId ≠ r.localId
  | .amount i => i < s.unpaid.length
  | .place => s.phase = .down
  | .request => s.phase = .placed
  | .copy => s.phase = .answering ∧ s.answer.length < s.orders.length
  | .respond => s.phase = .answering ∧ s.answer.length = s.orders.length
  | .install => s.phase = .answered
  | .load => s.phase = .installed
  | .read => s.phase = .running

/-- Runs from an engine without orders, and an account with books in order. -/
def sys : Lib.Sys Restarting RestartEvent where
  start s := ∃ a, Linked info a ∧ s = { helper := ⟨a, []⟩ }
  ok := Ok
  next := next info

/-! ## What the strategy is to end with -/

end Restarting

/-- What booking the returns one after the other posts, from the track before
the first of them. -/
def returnsEffect (vm : Int) : OrderTrack → List RtnMsg → Effect
  | _, [] => 0
  | t, r :: rs => rtnEffect vm (ITDHelper.getRtn r t) r + returnsEffect vm (ITDHelper.getRtn r t) rs

/-- A fill or a closing return. -/
def Counted (r : RtnMsg) : Bool := r.msgType.has .execution || r.msgType.has .closed

namespace EngineOrder

/-- The track before its first return, for what a return posts. -/
def fresh (x : EngineOrder) : OrderTrack := { x.track with volTraded := 0, amountTraded := 0 }

/-- The order itself and each of its returns, once. -/
def owed (vm : Int) (x : EngineOrder) : Effect :=
  .new vm x.track.dir x.track.off x.track.price x.track.vol + returnsEffect vm x.fresh x.returns

/-- How many closing returns there were. -/
def closings (x : EngineOrder) : Nat := x.returns.countP (·.msgType.has .closed)

end EngineOrder

namespace Restarting

variable (info : TradeBaseInfo)

/-- The orders of the answer with their returns, and the fills and closing returns of
orders that came after it. -/
def owed (s : Restarting) : List Posting :=
  ((s.orders.take s.answer.length).map fun x =>
    (x.track.instrHash, (info.find x.track.instrHash).elim 0 fun i => x.owed i.volMultiple)) ++
  ((s.orders.drop s.answer.length).filter fun x => x.returns.any Counted).map fun x =>
    (x.track.instrHash,
      (info.find x.track.instrHash).elim 0 fun i => returnsEffect i.volMultiple x.fresh x.returns)

/-- Everything written has been read, and no callback is between its writes. -/
structure CaughtUp (s : Restarting) : Prop where
  phase : s.phase = .running
  reader : s.reader = s.page.length
  unwritten : s.unwritten = []
  unpaid : s.unpaid = []

/-- The strategy has the volumes and amounts of the engine, and has booked each
execution and each close once. -/
structure Synced (a0 : AccBase) (s : Restarting) : Prop where
  tracks : ∀ (k : Nat) y, s.helper.sent[k]? = some y → ∃ x, s.orders[k]? = some x ∧
    y.track.volTraded = x.track.volTraded ∧ y.track.amountTraded = x.track.amountTraded
  booked : Booked info a0 (s.owed info) s.helper.acc

/-- No fill and no closing return of order `k` is between its writes and the
reader, and its closing return, if there is one, carried what the fills left. -/
def Quiet (s : Restarting) (k : Nat) (x : EngineOrder) : Prop :=
  (∀ r ∈ s.page.drop s.reader ++ s.unwritten, r.localId = k → ¬Counted r) ∧
    (∀ r ∈ s.unpaid, r.localId ≠ k) ∧ x.Settled ∧ x.closings ≤ 1

instance (s : Restarting) (k : Nat) (x : EngineOrder) : Decidable (s.Quiet k x) := by
  unfold Quiet
  infer_instance

/-- Tracks are copied when their order is quiet, and the orders that come after the
answer neither fill nor close. -/
def InTime (s : Restarting) : RestartEvent → Prop
  | .copy => ∀ x ∈ s.orders[s.answer.length]?, s.Quiet s.answer.length x
  | .callback k m => s.phase.hasAnswer → s.answer.length ≤ k → ¬Counted m
  | _ => True

instance (s : Restarting) (e : RestartEvent) : Decidable (s.InTime e) := by
  cases e <;> unfold InTime <;> infer_instance

end Restarting

/-! ## Tracks and their returns -/

/-- A track without its status and references. -/
def numbers (t : OrderTrack) : OrderTrack :=
  { t with status := 0, orderRef := 0, frontId := 0, sessionId := 0 }

/-- The track after the returns. -/
def receivedAll (q : List RtnMsg) (t : OrderTrack) : OrderTrack :=
  q.foldl (fun t r => ITDHelper.getRtn r t) t

theorem numbers_getRtn_eq (r : RtnMsg) (t : OrderTrack) :
    numbers (ITDHelper.getRtn r t) =
      if ods .execution = r.msgType then
        { numbers t with
          volTraded := t.volTraded + r.vol, amountTraded := t.amountTraded + r.vol * r.price }
      else numbers t := by
  unfold ITDHelper.getRtn numbers
  dsimp only
  split
  · split <;> rfl
  · rfl

theorem numbers_getRtn {t t' : OrderTrack} (h : numbers t = numbers t') (r : RtnMsg) :
    numbers (ITDHelper.getRtn r t) = numbers (ITDHelper.getRtn r t') := by
  have hvol : t.volTraded = t'.volTraded := congrArg (·.volTraded) h
  have hamt : t.amountTraded = t'.amountTraded := congrArg (·.amountTraded) h
  rw [numbers_getRtn_eq, numbers_getRtn_eq, h, hvol, hamt]

theorem instrHash_getRtn (r : RtnMsg) (t : OrderTrack) :
    (ITDHelper.getRtn r t).instrHash = t.instrHash := by
  unfold ITDHelper.getRtn
  dsimp only
  split
  · split <;> rfl
  · rfl

/-- What a return posts depends on the numbers of the track. -/
theorem rtnEffect_numbers (vm : Int) {t t' : OrderTrack} (h : numbers t = numbers t') (r : RtnMsg) :
    rtnEffect vm t r = rtnEffect vm t' r :=
  show rtnEffect vm (numbers t) r = rtnEffect vm (numbers t') r by rw [h]

theorem numbers_receivedAll {t t' : OrderTrack} (h : numbers t = numbers t') (q : List RtnMsg) :
    numbers (receivedAll q t) = numbers (receivedAll q t') := by
  induction q generalizing t t' with
  | nil => exact h
  | cons r q ih => exact ih (numbers_getRtn h r)

theorem returnsEffect_numbers (vm : Int) {t t' : OrderTrack} (h : numbers t = numbers t')
    (q : List RtnMsg) : returnsEffect vm t q = returnsEffect vm t' q := by
  induction q generalizing t t' with
  | nil => rfl
  | cons r q ih =>
    have hr := numbers_getRtn h r
    rw [returnsEffect, returnsEffect, rtnEffect_numbers vm hr r, ih hr]

theorem receivedAll_concat (q : List RtnMsg) (r : RtnMsg) (t : OrderTrack) :
    receivedAll (q ++ [r]) t = ITDHelper.getRtn r (receivedAll q t) := by
  simp [receivedAll]

theorem returnsEffect_concat (vm : Int) (t : OrderTrack) (q : List RtnMsg) (r : RtnMsg) :
    returnsEffect vm t (q ++ [r]) =
      returnsEffect vm t q + rtnEffect vm (ITDHelper.getRtn r (receivedAll q t)) r := by
  induction q generalizing t with
  | nil => simp [returnsEffect, receivedAll]
  | cons r' q ih =>
    rw [List.cons_append, returnsEffect, ih, returnsEffect, add_assoc]
    rfl

section Notices

variable {r : RtnMsg} (h : ¬Counted r)
include h

theorem not_counted_iff : ¬r.msgType.has .execution ∧ ¬r.msgType.has .closed := by
  simpa [Counted] using h

/-- A notice changes no number. -/
theorem numbers_getRtn_notice (t : OrderTrack) : numbers (ITDHelper.getRtn r t) = numbers t := by
  rw [numbers_getRtn_eq, if_neg]
  intro he
  exact (not_counted_iff h).1 (by rw [← he]; decide)

/-- A notice posts nothing. -/
theorem rtnEffect_notice (ht : r.msgType.FromTypes) (vm : Int) (t : OrderTrack) :
    rtnEffect vm t r = 0 := by
  obtain ⟨hx, hc⟩ := not_counted_iff h
  rw [rtnEffect, hasAny_cxlMask ht, if_neg hc, if_neg hx, add_zero]

end Notices

theorem notices {q : List RtnMsg} (h : ∀ r ∈ q, ¬Counted r ∧ r.msgType.FromTypes) (vm : Int)
    (t : OrderTrack) : numbers (receivedAll q t) = numbers t ∧ returnsEffect vm t q = 0 := by
  induction q generalizing t with
  | nil => exact ⟨rfl, rfl⟩
  | cons r q ih =>
    obtain ⟨hr, ht⟩ := h r List.mem_cons_self
    obtain ⟨h1, h2⟩ := ih (fun r' hr' => h r' (List.mem_cons_of_mem r hr')) (ITDHelper.getRtn r t)
    exact ⟨h1.trans (numbers_getRtn_notice hr t), by
      rw [returnsEffect, h2, rtnEffect_notice hr ht, add_zero]⟩

/-! ## An order of the engine -/

namespace EngineOrder

/-- The order once the track has the amounts that are due. -/
def full (due : ℚ) (x : EngineOrder) : Sent :=
  { x.toSent with track := { x.track with amountTraded := x.track.amountTraded + due } }

/-- What the track and the returns of an order have to do with each other. -/
structure Accounted (due : ℚ) (x : EngineOrder) : Prop where
  sound : (x.full due).Sound
  sent : x.track.status.has .tdSend
  track : numbers (receivedAll x.returns x.fresh) = numbers (x.full due).track
  effect : x.closings ≤ 1 → ∀ vm, (x.full due).effect vm = x.owed vm
  opened : x.closings = 0 → x.closing = none

/-- What a callback adds to the amount that is due. -/
def dueOf (r : RtnMsg) : ℚ := if r.msgType = ods .execution then r.price * r.vol else 0

/-- A message carries the references of its order. -/
def Refers (r : RtnMsg) (x : EngineOrder) : Prop := echo x.track r = r

variable {x : EngineOrder} {r : RtnMsg} {due : ℚ}

/-- A callback does to the full order what the return does. -/
theorem full_called (hr : Refers r x) (due : ℚ) :
    (x.called r).full (due + dueOf r) = (x.full due).returned r := by
  have heq : (x.full due).returned r = Running.received r (x.full due) := by
    rw [received_eq, show echo (x.full due).track r = r from hr]
  rw [heq]
  unfold full called Running.received trackRtn Engine.filled dueOf
  dsimp only
  by_cases he : r.msgType = ods .execution
  · simp only [he, if_true]
    congr 1
    split <;> simp only [add_assoc, add_comm due]
  · simp only [he, if_false, add_zero]

theorem fits_full (h : x.Fits r) (due : ℚ) : (x.full due).Fits r := ⟨h.types, h.fill⟩

theorem numbers_fresh_called (x : EngineOrder) (r : RtnMsg) :
    numbers (x.called r).fresh = numbers x.fresh := by
  unfold numbers fresh called trackRtn Engine.filled
  dsimp only
  split
  · split <;> rfl
  · rfl

theorem owed_called (ha : x.Accounted due) (r : RtnMsg) (vm : Int) :
    (x.called r).owed vm = x.owed vm + rtnEffect vm ((x.full due).returned r).track r := by
  obtain ⟨-, hdir, hprice, -, hvol⟩ := Running.trackRtn_fields r x.track
  have hoff : (trackRtn r x.track).off = x.track.off := by
    unfold trackRtn Engine.filled
    dsimp only
    split
    · split <;> rfl
    · rfl
  have hret : returnsEffect vm (x.called r).fresh (x.called r).returns =
      returnsEffect vm x.fresh x.returns + rtnEffect vm ((x.full due).returned r).track r := by
    rw [returnsEffect_numbers vm (numbers_fresh_called x r)]
    show returnsEffect vm x.fresh (x.returns ++ [r]) = _
    rw [returnsEffect_concat]
    congr 1
    exact rtnEffect_numbers vm (numbers_getRtn ha.track r) r
  unfold owed
  rw [hret, ← add_assoc]
  simp only [called, hdir, hoff, hprice, hvol]

theorem closings_called (x : EngineOrder) (r : RtnMsg) :
    (x.called r).closings = x.closings + if r.msgType.has .closed then 1 else 0 := by
  simp [closings, called, List.countP_append, List.countP_cons]

theorem Accounted.called (ha : x.Accounted due) (hf : x.Fits r) (hr : Refers r x) :
    (x.called r).Accounted (due + dueOf r) where
  sound := by
    rw [full_called hr]
    exact Sent.sound_returned ha.sound (fits_full hf due)
  sent := by
    rw [show (x.called r).track.status = ((x.full due).returned r).track.status by
      rw [← full_called hr]
      rfl]
    exact Sent.has_returned ha.sent
  track := by
    rw [full_called hr]
    show numbers (receivedAll (x.returns ++ [r]) (x.called r).fresh) = _
    rw [numbers_receivedAll (numbers_fresh_called x r), receivedAll_concat]
    exact numbers_getRtn ha.track r
  effect := by
    intro hc vm
    rw [closings_called] at hc
    have hacc : (x.full due).Accepts r := by
      refine ⟨hf.types, hf.fill, fun hcl => ?_⟩
      rw [if_pos hcl] at hc
      exact ha.opened (by omega)
    rw [full_called hr, Sent.effect_returned vm ha.sound hacc, ha.effect (by omega),
      owed_called ha r]
  opened := by
    intro hc
    rw [closings_called] at hc
    by_cases hcl : r.msgType.has .closed
    · rw [if_pos hcl] at hc
      omega
    · simp only [EngineOrder.called, hcl, if_false, Bool.false_eq_true]
      exact ha.opened (by omega)

theorem full_paid (r : RtnMsg) (x : EngineOrder) (due : ℚ) :
    (x.paid r).full due = x.full (r.price * r.vol + due) := by
  simp only [full, paid, add_assoc]

theorem Accounted.paid (ha : x.Accounted (r.price * r.vol + due)) : (x.paid r).Accounted due where
  sound := by rw [full_paid]; exact ha.sound
  sent := ha.sent
  track := by rw [full_paid]; exact ha.track
  effect := by rw [full_paid]; exact ha.effect
  opened := ha.opened

theorem accounted_new {d : IOInputOrderField} (hd : 1 ≤ d.vol) (unit : AccountUnit) (id : Int) :
    EngineOrder.Accounted 0 { track := Engine.insertTrack d unit id {} } where
  sound := by
    have h := Running.sound_insert hd unit id
    simpa only [full, add_zero] using h
  sent := show Status.has (ods .tdSend) .tdSend = true by decide
  track := by simp [full, receivedAll, fresh, Engine.insertTrack]
  effect := by
    intro _ vm
    simp [full, owed, returnsEffect, Sent.effect, Engine.insertTrack,
      show Status.has (ods .tdSend) .execution = false by decide]
  opened _ := rfl

/-! ## A copied track -/

/-- A copied track `y` whose order has posted `e` is behind the order by the
messages `q`. -/
structure Behind (e : Int → Effect) (y : OrderTrack) (q : List RtnMsg) (due : ℚ)
    (x : EngineOrder) : Prop where
  track : numbers (receivedAll q y) = numbers (x.full due).track
  effect : ∀ vm, x.owed vm = e vm + returnsEffect vm y q

namespace Behind

variable {e : Int → Effect} {y : OrderTrack} {q : List RtnMsg}

theorem called (h : Behind e y q due x) (ha : x.Accounted due) (hr : Refers r x) :
    Behind e y (q ++ [r]) (due + dueOf r) (x.called r) where
  track := by
    rw [receivedAll_concat, full_called hr]
    exact numbers_getRtn h.track r
  effect := by
    intro vm
    rw [owed_called ha r, h.effect, returnsEffect_concat, add_assoc,
      rtnEffect_numbers vm (numbers_getRtn h.track r) r]
    rfl

theorem paid (h : Behind e y q (r.price * r.vol + due) x) : Behind e y q due (x.paid r) where
  track := by rw [full_paid]; exact h.track
  effect := h.effect

/-- Reading the next message books it. -/
theorem read (h : Behind e y (r :: q) due x) :
    Behind (fun vm => e vm + rtnEffect vm (ITDHelper.getRtn r y) r) (ITDHelper.getRtn r y) q due x where
  track := h.track
  effect := by
    intro vm
    rw [h.effect, returnsEffect, add_assoc]

/-- Replaying the copy of a settled order posts what the order has posted. -/
theorem copy (ha : x.Accounted 0) (hs : x.Settled) (hc : x.closings ≤ 1)
    (hq : ∀ r ∈ q, ¬Counted r ∧ r.msgType.FromTypes) :
    Behind (fun vm => trackEffect vm x.track) x.track q 0 x := by
  have hfull : x.full 0 = x.toSent := by simp [full]
  refine ⟨?_, fun vm => ?_⟩
  · rw [hfull]
    exact (notices hq 0 x.track).1
  · have hsound := ha.sound
    have heff := ha.effect hc vm
    rw [hfull] at hsound heff
    rw [(notices hq vm x.track).2, add_zero, ← heff]
    exact Sent.effect_settled vm hsound (hasAny.mono (by decide) ha.sent) hs

/-- With nothing left to read the copy has the numbers of the order. -/
theorem done (h : Behind e y [] 0 x) : y.volTraded = x.track.volTraded ∧
    y.amountTraded = x.track.amountTraded ∧ y.instrHash = x.track.instrHash ∧
      ∀ vm, e vm = x.owed vm := by
  have ht := h.track
  refine ⟨congrArg (·.volTraded) ht, ?_, congrArg (·.instrHash) ht, fun vm => ?_⟩
  · have hamt : y.amountTraded = x.track.amountTraded + 0 := congrArg (·.amountTraded) ht
    rw [hamt, add_zero]
  · rw [h.effect, returnsEffect, add_zero]

end Behind

end EngineOrder

/-! ## The run -/

namespace Restarting

open EngineOrder

/-- The messages of order `k` that are still to be read. -/
def queue (s : Restarting) (k : Nat) : List RtnMsg :=
  (s.page.drop s.reader ++ s.unwritten).filter (·.localId = k)

/-- What the track of order `k` does not have yet. -/
def due (s : Restarting) (k : Nat) : ℚ :=
  ((s.unpaid.filter (·.localId = (k : Int))).map fun r : RtnMsg => r.price * r.vol).sum

/-- The copies, before and after they are installed. -/
def tracks (s : Restarting) : List OrderTrack :=
  match s.phase with
  | .installed | .running => s.helper.sent.map (·.track)
  | .down | .placed | .answering | .answered => s.answer

/-- What the account has booked: nothing before the replay. -/
def Has (info : TradeBaseInfo) (a0 : AccBase) (e : Nat → Int → Effect) (s : Restarting) : Prop :=
  if s.phase = .running then
    Booked info a0 (s.tracks.mapIdx fun k y =>
      (y.instrHash, (info.find y.instrHash).elim 0 fun i => e k i.volMultiple)) s.helper.acc
  else s.helper.acc = a0 ∧ ∀ k y, s.tracks[k]? = some y → e k = fun vm => trackEffect vm y

/-- What every step keeps. -/
structure Inv (info : TradeBaseInfo) (a0 : AccBase) (s : Restarting) : Prop where
  linked : Linked info a0
  engine : ∀ (k : Nat) x, s.orders[k]? = some x → x.Accounted (s.due k)
  types : ∀ r ∈ s.page ++ s.unwritten, r.msgType.FromTypes
  unpaid : ∀ r ∈ s.unpaid, ∃ k : Nat, k < s.orders.length ∧ r.localId = k
  reader : s.reader ≤ s.page.length
  down : s.phase = .down → s.answer = []
  answer : s.answer.length ≤ s.orders.length
  late : s.phase.hasAnswer → ∀ x ∈ s.orders.drop s.answer.length, ∀ r ∈ x.returns, ¬Counted r
  length : s.tracks.length = s.answer.length
  behind : ∃ e, s.Has info a0 e ∧ ∀ (k : Nat) y x, s.tracks[k]? = some y →
    s.orders[k]? = some x → Behind (e k) y (s.queue k) (s.due k) x

variable {info : TradeBaseInfo} {a0 : AccBase} {s : Restarting}

/-! ### The engine's steps -/

theorem unpaid_new (hs : Inv info a0 s) : s.due s.orders.length = 0 := by
  have hnil : s.unpaid.filter (·.localId = (s.orders.length : Int)) = [] := by
    rw [List.filter_eq_nil_iff]
    intro r hr
    obtain ⟨k, hk, hid⟩ := hs.unpaid r hr
    simp only [decide_eq_true_eq, hid]
    omega
  rw [due, hnil]
  rfl

theorem inv_accept (hs : Inv info a0 s) {d : IOInputOrderField} {unit : AccountUnit} {id : Int}
    (he : s.Ok (.accept d unit id)) : Inv info a0 (s.next info (.accept d unit id)) := by
  obtain ⟨hphase, hd⟩ := he
  have hdue : ∀ k, (s.next info (.accept d unit id)).due k = s.due k := fun _ => rfl
  have hqueue : ∀ k, k < s.orders.length →
      (s.next info (.accept d unit id)).queue k = s.queue k := by
    intro k hk
    have hne : (s.orders.length : Int) ≠ k := by omega
    simp [queue, next, ack, hne]
  have hold : ∀ (k : Nat) x, (s.next info (.accept d unit id)).orders[k]? = some x →
      k < s.orders.length → s.orders[k]? = some x := by
    intro k x hx hk
    rwa [next, List.getElem?_append_left hk] at hx
  refine ⟨hs.linked, ?_, ?_, ?_, hs.reader, hs.down, ?_, ?_, hs.length, ?_⟩
  · intro k x hx
    rw [hdue]
    by_cases hk : k < s.orders.length
    · exact hs.engine k x (hold k x hx hk)
    · obtain rfl : k = s.orders.length := by
        have := (List.getElem?_eq_some_iff.mp hx).1
        simp only [next, List.length_append, List.length_cons, List.length_nil] at this
        omega
      simp only [next, List.getElem?_concat_length, Option.some.injEq] at hx
      rw [unpaid_new hs, ← hx]
      exact accounted_new (d := { d with localId := s.orders.length }) hd unit id
  · intro r hr
    simp only [next, ← List.append_assoc, List.mem_append (t := [_]), List.mem_singleton] at hr
    rcases hr with hr | rfl
    · exact hs.types r hr
    · exact Status.fromTypes_ods .tdSend
  · intro r hr
    obtain ⟨k, hk, hid⟩ := hs.unpaid r hr
    refine ⟨k, ?_, hid⟩
    simp only [next, List.length_append]
    omega
  · have := hs.answer
    simp only [next, List.length_append]
    omega
  · intro hp x hx r hr
    rw [next, List.drop_append_of_le_length hs.answer, List.mem_append, List.mem_singleton] at hx
    rcases hx with hx | rfl
    · exact hs.late hp x hx r hr
    · cases hr
  · obtain ⟨e, hhas, hb⟩ := hs.behind
    refine ⟨e, hhas, fun k y x hy hx => ?_⟩
    have hk : k < s.orders.length := by
      have := (List.getElem?_eq_some_iff.mp hy).1
      have hlen : k < s.tracks.length := this
      have := hs.length
      have := hs.answer
      omega
    rw [hqueue k hk, hdue]
    exact hb k y x hy (hold k x hx hk)

theorem inv_callback (hs : Inv info a0 s) {k : Nat} {m : RtnMsg} (he : s.Ok (.callback k m))
    (ht : s.InTime (.callback k m)) : Inv info a0 (s.next info (.callback k m)) := by
  obtain ⟨x, hx, hf⟩ := he
  obtain ⟨r, hnext, href, hfr, hid, hcount⟩ : ∃ r, s.next info (.callback k m) = { s with
      orders := s.orders.set k (x.called r)
      unwritten := s.unwritten ++ [r]
      unpaid := if r.msgType = ods .execution then s.unpaid ++ [r] else s.unpaid } ∧
      Refers r x ∧ x.Fits r ∧ r.localId = (k : Int) ∧ Counted r = Counted m := by
    refine ⟨x.written k m, ?_, rfl, ⟨hf.types, hf.fill⟩, rfl, rfl⟩
    simp only [next, hx]
  have hklt : k < s.orders.length := (List.getElem?_eq_some_iff.mp hx).1
  rw [hnext]
  have hone : ∀ j : Nat, [r].filter (·.localId = (j : Int)) = if j = k then [r] else [] := by
    intro j
    by_cases hj : j = k
    · simp [hj, hid]
    · have hne : r.localId ≠ (j : Int) := by omega
      simp [hj, hne]
  have hqueue : ∀ j, queue { s with
      orders := s.orders.set k (x.called r), unwritten := s.unwritten ++ [r]
      unpaid := if r.msgType = ods .execution then s.unpaid ++ [r] else s.unpaid } j =
        s.queue j ++ if j = k then [r] else [] := by
    intro j
    simp only [queue, ← List.append_assoc, List.filter_append, hone]
  have hdue : ∀ j, due { s with
      orders := s.orders.set k (x.called r), unwritten := s.unwritten ++ [r]
      unpaid := if r.msgType = ods .execution then s.unpaid ++ [r] else s.unpaid } j =
        s.due j + if j = k then dueOf r else 0 := by
    intro j
    unfold due dueOf
    by_cases he : r.msgType = ods .execution
    · simp only [he, if_true, List.filter_append, hone, List.map_append, List.sum_append]
      congr 1
      split <;> simp
    · simp [he]
  have hset : ∀ (j : Nat) x', (s.orders.set k (x.called r))[j]? = some x' →
      (j = k ∧ x' = x.called r) ∨ (j ≠ k ∧ s.orders[j]? = some x') :=
    fun j x' => getElem?_set_cases
  refine ⟨hs.linked, ?_, ?_, ?_, hs.reader, hs.down, ?_, ?_, hs.length, ?_⟩
  · intro j x' hx'
    rw [hdue]
    rcases hset j x' hx' with ⟨rfl, rfl⟩ | ⟨hj, hx'⟩
    · rw [if_pos rfl]
      exact (hs.engine j x hx).called hfr href
    · rw [if_neg hj, add_zero]
      exact hs.engine j x' hx'
  · intro q hq
    simp only [← List.append_assoc, List.mem_append (t := [_]), List.mem_singleton] at hq
    rcases hq with hq | rfl
    · exact hs.types q hq
    · exact hfr.types
  · intro q hq
    rw [List.length_set]
    dsimp only at hq
    split at hq
    · rw [List.mem_append, List.mem_singleton] at hq
      rcases hq with hq | rfl
      · exact hs.unpaid q hq
      · exact ⟨k, hklt, hid⟩
    · exact hs.unpaid q hq
  · rw [List.length_set]
    exact hs.answer
  · intro hp x' hx' q hq
    have hlate := hs.late hp
    dsimp only at hx'
    rw [List.drop_set] at hx'
    by_cases hn : k < s.answer.length
    · rw [if_pos hn] at hx'
      exact hlate x' hx' q hq
    · rw [if_neg hn] at hx'
      rcases List.mem_or_eq_of_mem_set hx' with hx' | rfl
      · exact hlate x' hx' q hq
      · rw [EngineOrder.called, List.mem_append, List.mem_singleton] at hq
        rcases hq with hq | rfl
        · refine hlate x ?_ q hq
          refine List.mem_of_getElem? (i := k - s.answer.length) ?_
          rwa [List.getElem?_drop, Nat.add_sub_cancel' (by omega)]
        · rw [hcount]
          exact ht hp (by omega)
  · obtain ⟨e, hhas, hb⟩ := hs.behind
    refine ⟨e, hhas, fun j y x' hy hx' => ?_⟩
    rw [hdue, hqueue]
    rcases hset j x' hx' with ⟨rfl, rfl⟩ | ⟨hj, hx'⟩
    · rw [if_pos rfl, if_pos rfl]
      exact (hb j y x hy hx).called (hs.engine j x hx) href
    · rw [if_neg hj, if_neg hj, add_zero, List.append_nil]
      exact hb j y x' hy hx'

/-- Writing a message moves it along the way to the reader. -/
theorem inv_commit (hs : Inv info a0 s) {i : Nat} (he : s.Ok (.commit i)) :
    Inv info a0 (s.next info (.commit i)) := by
  obtain ⟨r, hi, hfirst⟩ := he
  obtain ⟨hlt, hget⟩ := List.getElem?_eq_some_iff.mp hi
  have hsplit : s.unwritten = s.unwritten.take i ++ r :: s.unwritten.drop (i + 1) := by
    rw [← hget, List.getElem_cons_drop, List.take_append_drop]
  have herase : s.unwritten.eraseIdx i = s.unwritten.take i ++ s.unwritten.drop (i + 1) :=
    List.eraseIdx_eq_take_drop_succ _ _
  have hqueue : ∀ k, (s.next info (.commit i)).queue k = s.queue k := by
    intro k
    have hmine : r.localId = (k : Int) →
        (s.unwritten.take i).filter (·.localId = (k : Int)) = [] := by
      intro hk
      rw [List.filter_eq_nil_iff]
      intro q hq
      simpa [← hk] using hfirst q hq
    simp only [queue, next, hi, List.drop_append_of_le_length hs.reader, herase]
    conv_rhs => rw [hsplit]
    by_cases hk : r.localId = (k : Int)
    · simp [hk, hmine hk]
    · simp [hk]
  refine ⟨hs.linked, ?_, ?_, ?_, ?_, ?_, ?_, ?_, ?_, ?_⟩ <;> simp only [next, hi]
  · exact hs.engine
  · intro q hq
    refine hs.types q ?_
    rw [hsplit]
    simp only [herase, List.mem_append, List.mem_cons, List.not_mem_nil, or_false] at hq ⊢
    tauto
  · exact hs.unpaid
  · have := hs.reader
    simp only [List.length_append]
    omega
  · exact hs.down
  · exact hs.answer
  · exact hs.late
  · exact hs.length
  · obtain ⟨e, hhas, hb⟩ := hs.behind
    refine ⟨e, hhas, fun k y x hy hx => ?_⟩
    have h := hb k y x hy hx
    rw [← hqueue k] at h
    simp only [next, hi] at h
    exact h

theorem inv_amount (hs : Inv info a0 s) {i : Nat} (he : s.Ok (.amount i)) :
    Inv info a0 (s.next info (.amount i)) := by
  obtain ⟨r, hi⟩ : ∃ r, s.unpaid[i]? = some r := ⟨_, List.getElem?_eq_getElem he⟩
  have hperm : s.unpaid.Perm (r :: s.unpaid.eraseIdx i) := by
    have := List.getElem_cons_eraseIdx_perm he
    rw [List.getElem?_eq_getElem he, Option.some.injEq] at hi
    rw [hi] at this
    exact this.symm
  obtain ⟨k, hk, hid⟩ := hs.unpaid r (hperm.mem_iff.mpr List.mem_cons_self)
  obtain ⟨x, hx⟩ : ∃ x, s.orders[k]? = some x := ⟨_, List.getElem?_eq_getElem hk⟩
  have hnext : s.next info (.amount i) =
      { s with orders := s.orders.set k (x.paid r), unpaid := s.unpaid.eraseIdx i } := by
    simp only [next, hi, hid, Int.toNat_natCast, List.modify_eq_set_getElem?, hx]
    rfl
  have hdue : ∀ j, s.due j =
      (if j = k then r.price * r.vol else 0) + due { s with
        orders := s.orders.set k (x.paid r), unpaid := s.unpaid.eraseIdx i } j := by
    intro j
    unfold due
    rw [((hperm.filter _).map _).sum_eq]
    by_cases hj : j = k
    · simp [hj, hid]
    · have hne : r.localId ≠ (j : Int) := by omega
      simp [hj, hne]
  have hset : ∀ (j : Nat) x', (s.orders.set k (x.paid r))[j]? = some x' →
      (j = k ∧ x' = x.paid r) ∨ (j ≠ k ∧ s.orders[j]? = some x') :=
    fun j x' => getElem?_set_cases
  rw [hnext]
  refine ⟨hs.linked, ?_, hs.types, ?_, hs.reader, hs.down, ?_, ?_, hs.length, ?_⟩
  · intro j x' hx'
    rcases hset j x' hx' with ⟨rfl, rfl⟩ | ⟨hj, hx'⟩
    · have h := hs.engine j x hx
      rw [hdue, if_pos rfl] at h
      exact h.paid
    · have h := hs.engine j x' hx'
      rwa [hdue, if_neg hj, zero_add] at h
  · intro q hq
    rw [List.length_set]
    exact hs.unpaid q (hperm.mem_iff.mpr (List.mem_cons_of_mem r hq))
  · rw [List.length_set]
    exact hs.answer
  · intro hp x' hx'
    dsimp only at hx'
    rw [List.drop_set] at hx'
    by_cases hn : k < s.answer.length
    · rw [if_pos hn] at hx'
      exact hs.late hp x' hx'
    · rw [if_neg hn] at hx'
      rcases List.mem_or_eq_of_mem_set hx' with hx' | rfl
      · exact hs.late hp x' hx'
      · refine hs.late hp x (List.mem_of_getElem? (i := k - s.answer.length) ?_)
        rwa [List.getElem?_drop, Nat.add_sub_cancel' (by omega)]
  · obtain ⟨e, hhas, hb⟩ := hs.behind
    refine ⟨e, hhas, fun j y x' hy hx' => ?_⟩
    rcases hset j x' hx' with ⟨rfl, rfl⟩ | ⟨hj, hx'⟩
    · have h := hb j y x hy hx
      rw [hdue, if_pos rfl] at h
      exact h.paid
    · have h := hb j y x' hy hx'
      rwa [hdue, if_neg hj, zero_add] at h

/-! ### The strategy's steps -/

theorem inv_place (hs : Inv info a0 s) (he : s.Ok .place) : Inv info a0 (s.next info .place) := by
  have hnil : s.answer = [] := hs.down he
  have htracks : (s.next info .place).tracks = [] := hnil
  refine ⟨hs.linked, hs.engine, hs.types, hs.unpaid, le_refl _, fun _ => hnil, hs.answer,
    fun hp => (by cases hp), ?_, ?_⟩
  · rw [htracks]
    exact (congrArg List.length hnil).symm
  · obtain ⟨e, hhas, -⟩ := hs.behind
    refine ⟨e, ?_, fun k y x hy => ?_⟩
    · have hne : s.phase ≠ .running := by rw [show s.phase = .down from he]; decide
      rw [Has, if_neg hne] at hhas
      refine ⟨hhas.1, fun k y hy => ?_⟩
      rw [htracks] at hy
      cases hy
    · rw [htracks] at hy
      cases hy

theorem inv_request (hs : Inv info a0 s) (he : s.Ok .request) :
    Inv info a0 (s.next info .request) := by
  have hp : s.phase = .placed := he
  have htracks : (s.next info .request).tracks = s.tracks := by simp [tracks, next, hp]
  refine ⟨hs.linked, hs.engine, hs.types, hs.unpaid, hs.reader, fun h => (by cases h), hs.answer,
    fun h => (by cases h), ?_, ?_⟩
  · rw [htracks]
    exact hs.length
  · obtain ⟨e, hhas, hb⟩ := hs.behind
    refine ⟨e, ?_, fun k y x hy => hb k y x (htracks ▸ hy)⟩
    rw [Has, if_neg (by rw [hp]; decide)] at hhas
    rw [Has, htracks]
    exact hhas

/-- A quiet order's copy is behind by notices only. -/
theorem inv_copy (hs : Inv info a0 s) (he : s.Ok .copy) (ht : s.InTime .copy) :
    Inv info a0 (s.next info .copy) := by
  obtain ⟨hp, hlt⟩ := he
  obtain ⟨x, hx⟩ : ∃ x, s.orders[s.answer.length]? = some x := ⟨_, List.getElem?_eq_getElem hlt⟩
  obtain ⟨hq, hu, hset, hcl⟩ := ht x hx
  have hnext : s.next info .copy = { s with answer := s.answer ++ [x.track] } := by
    simp only [next, hx]
    rfl
  have htracks : tracks { s with answer := s.answer ++ [x.track] } = s.tracks ++ [x.track] := by
    simp only [tracks, hp]
  have hdue : s.due s.answer.length = 0 := by
    have hnil : s.unpaid.filter (·.localId = (s.answer.length : Int)) = [] := by
      rw [List.filter_eq_nil_iff]
      intro r hr
      simpa using hu r hr
    rw [due, hnil]
    rfl
  have hquiet : ∀ r ∈ s.queue s.answer.length, ¬Counted r ∧ r.msgType.FromTypes := by
    intro r hr
    rw [queue, List.mem_filter, decide_eq_true_eq] at hr
    refine ⟨hq r hr.1 hr.2, hs.types r ?_⟩
    rw [List.mem_append] at hr ⊢
    exact hr.1.imp List.mem_of_mem_drop id
  rw [hnext]
  refine ⟨hs.linked, hs.engine, hs.types, hs.unpaid, hs.reader, fun hd => ?_, ?_, fun hh => ?_, ?_, ?_⟩
  · rw [hp] at hd
    cases hd
  · rw [List.length_append]
    exact hlt
  · rw [hp] at hh
    cases hh
  · rw [htracks, List.length_append, List.length_append, hs.length]
  · obtain ⟨e, hhas, hb⟩ := hs.behind
    rw [Has, if_neg (by rw [hp]; decide)] at hhas
    refine ⟨Function.update e s.answer.length fun vm => trackEffect vm x.track, ?_, ?_⟩
    · rw [Has, if_neg (show s.phase ≠ .running by rw [hp]; decide), htracks]
      refine ⟨hhas.1, fun k y hy => ?_⟩
      rcases getElem?_concat_cases hy with ⟨hk, hy⟩ | ⟨hk, rfl⟩
      · rw [Function.update_of_ne (by rw [← hs.length]; omega)]
        exact hhas.2 k y hy
      · rw [hk, hs.length, Function.update_self]
    · intro k y x' hy hx'
      rw [htracks] at hy
      rcases getElem?_concat_cases hy with ⟨hk, hy⟩ | ⟨rfl, rfl⟩
      · rw [Function.update_of_ne (by rw [← hs.length]; omega)]
        exact hb k y x' hy hx'
      · rw [hs.length] at hx' ⊢
        have hxx : x' = x := Option.some.inj (hx'.symm.trans hx)
        subst hxx
        have hacc := hs.engine _ _ hx
        rw [Function.update_self]
        rw [hdue] at hacc
        show Behind _ _ (s.queue _) (s.due _) _
        rw [hdue]
        exact Behind.copy hacc hset hcl hquiet

theorem inv_respond (hs : Inv info a0 s) (he : s.Ok .respond) :
    Inv info a0 (s.next info .respond) := by
  obtain ⟨hp, hlen⟩ := he
  have htracks : (s.next info .respond).tracks = s.tracks := by simp [tracks, next, hp]
  refine ⟨hs.linked, hs.engine, hs.types, hs.unpaid, hs.reader, fun h => (by cases h), hs.answer,
    fun _ x hx => ?_, ?_, ?_⟩
  · simp only [next, hlen, List.drop_length, List.not_mem_nil] at hx
  · rw [htracks]
    exact hs.length
  · obtain ⟨e, hhas, hb⟩ := hs.behind
    refine ⟨e, ?_, fun k y x hy => hb k y x (htracks ▸ hy)⟩
    rw [Has, if_neg (by rw [hp]; decide)] at hhas
    rw [Has, htracks]
    exact hhas

theorem inv_install (hs : Inv info a0 s) (he : s.Ok .install) :
    Inv info a0 (s.next info .install) := by
  have hp : s.phase = .answered := he
  have htracks : (s.next info .install).tracks = s.tracks := by
    simp [tracks, next, hp, Function.comp_def]
  refine ⟨hs.linked, hs.engine, hs.types, hs.unpaid, hs.reader, fun h => (by cases h), hs.answer,
    fun _ => hs.late (by rw [hp]; rfl), ?_, ?_⟩
  · rw [htracks]
    exact hs.length
  · obtain ⟨e, hhas, hb⟩ := hs.behind
    refine ⟨e, ?_, fun k y x hy => hb k y x (htracks ▸ hy)⟩
    rw [Has, if_neg (by rw [hp]; decide)] at hhas
    rw [Has, htracks]
    exact hhas

/-- The replay books the copies. -/
theorem inv_load (hv : info.VolMultiplesOk) (hs : Inv info a0 s) (he : s.Ok .load) :
    Inv info a0 (s.next info .load) := by
  have hp : s.phase = .installed := he
  have htracks : (s.next info .load).tracks = s.tracks := by simp [tracks, next, hp]
  have hsent : s.tracks = s.helper.sent.map (·.track) := by simp [tracks, hp]
  refine ⟨hs.linked, hs.engine, hs.types, hs.unpaid, hs.reader, fun h => (by cases h), hs.answer,
    fun _ => hs.late (by rw [hp]; rfl), ?_, ?_⟩
  · rw [htracks]
    exact hs.length
  · obtain ⟨e, hhas, hb⟩ := hs.behind
    refine ⟨e, ?_, fun k y x hy => hb k y x (htracks ▸ hy)⟩
    rw [Has, if_neg (by rw [hp]; decide)] at hhas
    obtain ⟨hacc, he⟩ := hhas
    have hpost : s.tracks.mapIdx (fun k y => ((y.instrHash, (info.find y.instrHash).elim 0
        fun i => e k i.volMultiple) : Posting)) = postings info s.tracks := by
      refine List.ext_getElem? fun k => ?_
      rw [List.getElem?_mapIdx, postings, List.getElem?_map]
      cases hy : s.tracks[k]? with
      | none => rfl
      | some y =>
        rw [Option.map_some, Option.map_some, he k y hy]
    have hb := booked_replay hv s.tracks (Booked.start hs.linked)
    rw [List.nil_append, ← hpost] at hb
    rw [Has, if_pos (show (s.next info .load).phase = .running from rfl), htracks]
    simp only [next, ← hsent, hacc]
    exact hb

/-- The account books a message as its copy takes it in. -/
theorem Has.read (hv : info.VolMultiplesOk) {e : Nat → Int → Effect} (hp : s.phase = .running)
    (hhas : s.Has info a0 e) {k : Nat} {y : Sent} (hy : s.helper.sent[k]? = some y) (r : RtnMsg) :
    Has info a0 (Function.update e k fun vm => e k vm + rtnEffect vm (y.returned r).track r)
      { s with
        reader := s.reader + 1
        helper :=
          { acc := s.helper.acc.onRtn info (y.returned r).track r
            sent := s.helper.sent.set k (y.returned r) } } := by
  have hklt := (List.getElem?_eq_some_iff.mp hy).1
  have hhash : (y.returned r).track.instrHash = y.track.instrHash :=
    instrHash_getRtn r y.track
  rw [Has, if_pos hp] at hhas
  rw [Has, if_pos hp]
  have hb := hhas.onInstr hv (y.returned r).track.instrHash (rtnEffect · (y.returned r).track r)
    fun vm => does_rtn vm (y.returned r).track r
  have htracks : s.tracks = s.helper.sent.map (·.track) := by simp [tracks, hp]
  have hpost : (s.tracks.mapIdx fun k y => ((y.instrHash, (info.find y.instrHash).elim 0
      fun i => e k i.volMultiple) : Posting))[k]? = some (y.track.instrHash,
        (info.find y.track.instrHash).elim 0 fun i => e k i.volMultiple) := by
    simp [htracks, hy]
  refine hb.equiv ?_
  rw [hhash]
  refine (Equiv.set hpost _).trans_eq ?_
  refine List.ext_getElem? fun j => ?_
  simp only [tracks, hp, List.map_set, List.getElem?_mapIdx]
  by_cases hj : j = k
  · subst hj
    rw [List.getElem?_set_self (by simpa [htracks] using hklt),
      List.getElem?_set_self (by simpa using hklt)]
    simp only [Option.map_some, Function.update_self, hhash]
    cases info.find y.track.instrHash <;> simp
  · rw [List.getElem?_set_ne (Ne.symm hj), List.getElem?_set_ne (Ne.symm hj),
      List.getElem?_mapIdx]
    simp only [Function.update_of_ne hj]

theorem inv_read (hv : info.VolMultiplesOk) (hs : Inv info a0 s) (he : s.Ok .read) :
    Inv info a0 (s.next info .read) := by
  have hp : s.phase = .running := he
  cases hr : s.page[s.reader]? with
  | none => simpa only [next, hr] using hs
  | some r =>
    have htracks : s.tracks = s.helper.sent.map (·.track) := by simp [tracks, hp]
    obtain ⟨hrlt, hget⟩ := List.getElem?_eq_some_iff.mp hr
    have hdrop : s.page.drop s.reader = r :: s.page.drop (s.reader + 1) := by
      rw [← hget, List.drop_eq_getElem_cons hrlt]
    have hqueue : ∀ k : Nat, s.queue k = if r.localId = k then
        r :: (s.page.drop (s.reader + 1) ++ s.unwritten).filter (·.localId = (k : Int))
      else (s.page.drop (s.reader + 1) ++ s.unwritten).filter (·.localId = (k : Int)) := by
      intro k
      rw [queue, hdrop, List.cons_append, List.filter_cons]
      simp only [decide_eq_true_eq]
    obtain ⟨e, hhas, hb⟩ := hs.behind
    cases hy : trackAt s.helper.sent r.localId with
    | none =>
      have hnext : s.next info .read = { s with reader := s.reader + 1 } := by
        simp only [next, hr, Helper.next, hy]
      have htr : tracks { s with reader := s.reader + 1 } = s.tracks := rfl
      rw [hnext]
      refine ⟨hs.linked, hs.engine, hs.types, hs.unpaid, hrlt, hs.down, hs.answer, hs.late,
        hs.length, e, hhas, fun k y x hk hx => ?_⟩
      have hne : r.localId ≠ (k : Int) := by
        intro hid
        rw [trackAt, hid, if_pos (by omega), Int.toNat_natCast] at hy
        rw [htr, htracks, List.getElem?_map, hy] at hk
        cases hk
      have h := hb k y x hk hx
      rw [hqueue, if_neg hne] at h
      exact h
    | some y =>
      obtain ⟨k, hid, hy⟩ : ∃ k : Nat, r.localId = k ∧ s.helper.sent[k]? = some y := by
        unfold trackAt at hy
        split at hy
        · exact ⟨r.localId.toNat, by omega, hy⟩
        · cases hy
      have hnext : s.next info .read = { s with
          reader := s.reader + 1
          helper :=
            { acc := s.helper.acc.onRtn info (y.returned r).track r
              sent := s.helper.sent.set k (y.returned r) } } := by
        simp only [next, hr, Helper.next, trackAt, hid, Int.toNat_natCast, hy]
        rw [if_pos (by omega)]
      have hklt := (List.getElem?_eq_some_iff.mp hy).1
      rw [hnext]
      refine ⟨hs.linked, hs.engine, hs.types, hs.unpaid, hrlt, hs.down, hs.answer, hs.late,
        ?_, _, hhas.read hv hp hy r, fun j t x ht hx => ?_⟩
      · rw [← hs.length, htracks]
        simp [tracks, hp]
      · simp only [tracks, hp, List.map_set] at ht
        rcases getElem?_set_cases ht with ⟨rfl, rfl⟩ | ⟨hj, ht⟩
        · have h := hb j y.track x (by simp [htracks, hy]) hx
          rw [hqueue, if_pos hid] at h
          rw [Function.update_self]
          exact h.read
        · have h := hb j t x (by rw [htracks]; exact ht) hx
          rw [hqueue, if_neg (by omega)] at h
          rw [Function.update_of_ne hj]
          exact h

theorem inv_next (hv : info.VolMultiplesOk) (hs : Inv info a0 s) {e : RestartEvent} (he : s.Ok e)
    (ht : s.InTime e) : Inv info a0 (s.next info e) := by
  cases e with
  | accept d unit id => exact inv_accept hs he
  | callback k m => exact inv_callback hs he ht
  | commit i => exact inv_commit hs he
  | amount i => exact inv_amount hs he
  | place => exact inv_place hs he
  | request => exact inv_request hs he
  | copy => exact inv_copy hs he ht
  | respond => exact inv_respond hs he
  | install => exact inv_install hs he
  | load => exact inv_load hv hs he
  | read => exact inv_read hv hs he

theorem inv_start {a : AccBase} (hl : Linked info a) : Inv info a { helper := ⟨a, []⟩ } where
  linked := hl
  engine k x hx := by cases hx
  types r hr := by cases hr
  unpaid r hr := by cases hr
  reader := le_refl _
  down _ := rfl
  answer := le_refl _
  late hp := by cases hp
  length := rfl
  behind := ⟨fun _ _ => 0, ⟨rfl, fun k y hy => by cases hy⟩, fun k y x hy => by cases hy⟩

/-- Caught up, the strategy is in step with the engine. -/
theorem Inv.synced (hs : Inv info a0 s) (hc : s.CaughtUp) : Synced info a0 s := by
  obtain ⟨hp, hreader, hunw, hunp⟩ := hc
  have hqueue : ∀ k, s.queue k = [] := by
    intro k
    simp [queue, hreader, hunw]
  have hdue : ∀ k, s.due k = 0 := by
    intro k
    simp [due, hunp]
  have htracks : s.tracks = s.helper.sent.map (·.track) := by simp [tracks, hp]
  have hlen : s.tracks.length = s.answer.length := hs.length
  have hle := hs.answer
  obtain ⟨e, hhas, hb⟩ := hs.behind
  have hdone : ∀ (k : Nat) y, s.tracks[k]? = some y → ∃ x, s.orders[k]? = some x ∧
      Behind (e k) y [] 0 x := by
    intro k y hy
    have hlt := (List.getElem?_eq_some_iff.mp hy).1
    refine ⟨_, List.getElem?_eq_getElem (by omega), ?_⟩
    have h := hb k y _ hy (List.getElem?_eq_getElem (by omega))
    rwa [hqueue, hdue] at h
  have hlate : (s.orders.drop s.answer.length).filter (fun x => x.returns.any Counted) = [] := by
    rw [List.filter_eq_nil_iff]
    intro x hx
    rw [List.any_eq_true]
    rintro ⟨r, hr, hcr⟩
    exact hs.late (by rw [hp]; rfl) x hx r hr hcr
  refine ⟨fun k y hy => ?_, ?_⟩
  · obtain ⟨x, hx, h⟩ := hdone k y.track (by rw [htracks, List.getElem?_map, hy]; rfl)
    exact ⟨x, hx, h.done.1, h.done.2.1⟩
  · rw [Has, if_pos hp] at hhas
    rw [owed, hlate, List.map_nil, List.append_nil]
    refine hhas.of_eq (List.ext_getElem? fun k => ?_)
    rw [List.getElem?_mapIdx, List.getElem?_map, List.getElem?_take]
    cases hy : s.tracks[k]? with
    | none =>
      have := List.getElem?_eq_none_iff.mp hy
      rw [if_neg (by omega)]
      rfl
    | some y =>
      have hlt := (List.getElem?_eq_some_iff.mp hy).1
      obtain ⟨x, hx, h⟩ := hdone k y hy
      obtain ⟨-, -, hhash, heff⟩ := h.done
      rw [if_pos (by omega), hx, Option.map_some, Option.map_some, hhash]
      simp only [heff]

/-- **Snapshot plus stream.** In a run of the engine beside a restarting strategy
whose tracks are copied when nothing of their order is between the engine's
writes and the reader, and none of whose later orders fills or closes: whenever
everything is read, the strategy has the engine's volumes and amounts, and its
account has booked each execution and each close once. -/
theorem synced_of_run (hv : info.VolMultiplesOk) {s0 : Restarting} (h0 : (sys info).start s0)
    {es : List RestartEvent} (ha : (sys info).Admits s0 es)
    (ht : AtEach (fun pre e => ((sys info).exec s0 pre).InTime e) es)
    (hc : ((sys info).exec s0 es).CaughtUp) :
    Synced info s0.helper.acc ((sys info).exec s0 es) := by
  refine Inv.synced ?_ hc
  clear hc
  induction es using List.reverseRecOn with
  | nil =>
    obtain ⟨a, hl, rfl⟩ := h0
    exact inv_start hl
  | append_singleton es e ih =>
    obtain ⟨ha, he, -⟩ := ((sys info).admits_append s0 es [e]).mp ha
    obtain ⟨ht, hte⟩ := atEach_concat.mp ht
    rw [Sys.exec_append]
    exact inv_next hv (ih ha ht) he hte

/-- A buy of 10. -/
def rbTen : IOInputOrderField :=
  { from_ := 7, localId := 0, accIdx := 0, instrHash := 1, instr := "rb1810", price := 10, vol := 10
    dir := .buy, off := .opn, stgId := 0 }

def rbFill (vol : Int) (px : ℚ) : RtnMsg := { msgType := ods .execution, price := px, vol := vol }

def rbNotice (type : OrderRtnType) (vol : Int) : RtnMsg := { msgType := ods type, vol := vol }

theorem rbFill_types (vol : Int) (px : ℚ) : (rbFill vol px).msgType.FromTypes :=
  Status.fromTypes_ods .execution

theorem rbNotice_types (type : OrderRtnType) (vol : Int) : (rbNotice type vol).msgType.FromTypes :=
  Status.fromTypes_ods type

/-- A fill of 3 and an acceptance before the copy, a fill of 4 and the cancel of the
other 3 while the copies are on their way, and a second order that fills later. -/
def rbInTime : List RestartEvent :=
  [.accept rbTen ⟨1, 1⟩ 1, .commit 0, .accept rbTen ⟨1, 1⟩ 2, .callback 0 (rbFill 3 10), .commit 1,
    .amount 0, .place, .callback 0 (rbNotice .marketAccept 10), .commit 0, .request, .copy,
    .callback 0 (rbFill 4 11), .copy, .commit 0, .callback 0 (rbNotice .canceled 3), .respond,
    .install, .amount 0, .load, .commit 0, .commit 0, .read, .read, .callback 1 (rbFill 10 12),
    .commit 0, .amount 0, .read, .read, .read]

theorem synced_rbInTime :
    Synced TradeBaseInfo.rb {} ((sys TradeBaseInfo.rb).exec { helper := ⟨{}, []⟩ } rbInTime) := by
  refine synced_of_run TradeBaseInfo.rb_volMultiplesOk ⟨_, AccBase.linked_empty, rfl⟩ ?_ ?_ ?_
  · refine ⟨⟨by decide, by decide⟩, ⟨_, rfl, by decide +kernel⟩, ⟨by decide, by decide⟩,
      ⟨_, rfl, rbFill_types _ _, by decide +kernel⟩, ⟨_, rfl, by decide +kernel⟩, Nat.zero_lt_one, rfl,
      ⟨_, rfl, rbNotice_types _ _, by decide +kernel⟩, ⟨_, rfl, by decide +kernel⟩, rfl,
      ⟨rfl, by decide +kernel⟩, ⟨_, rfl, rbFill_types _ _, by decide +kernel⟩, ⟨rfl, by decide +kernel⟩,
      ⟨_, rfl, by decide +kernel⟩, ⟨_, rfl, rbNotice_types _ _, by decide +kernel⟩, ⟨rfl, rfl⟩, rfl,
      Nat.zero_lt_one, rfl, ⟨_, rfl, by decide +kernel⟩, ⟨_, rfl, by decide +kernel⟩, rfl, rfl,
      ⟨_, rfl, rbFill_types _ _, by decide +kernel⟩, ⟨_, rfl, by decide +kernel⟩, Nat.zero_lt_one, rfl, rfl,
      rfl, trivial⟩
  · rw [atEach_iff_getElem]
    decide +kernel
  · exact ⟨rfl, by decide +kernel, by decide +kernel, by decide +kernel⟩

/-- A fill of 3, the reader is placed, a fill of 4, the tracks are copied: the
strategy counts the 4 twice. -/
def rbFillBetween : List RestartEvent :=
  [.accept rbTen ⟨1, 1⟩ 1, .commit 0, .callback 0 (rbFill 3 10), .commit 0, .amount 0, .place,
    .callback 0 (rbFill 4 11), .commit 0, .amount 0, .request, .copy, .respond, .install, .load, .read]

theorem not_synced_rb : ¬∀ (s0 : Restarting) (es : List RestartEvent),
    (sys TradeBaseInfo.rb).start s0 → (sys TradeBaseInfo.rb).Admits s0 es →
      ((sys TradeBaseInfo.rb).exec s0 es).CaughtUp →
        Synced TradeBaseInfo.rb s0.helper.acc ((sys TradeBaseInfo.rb).exec s0 es) := by
  intro h
  have hs := (h { helper := ⟨{}, []⟩ } rbFillBetween ⟨_, AccBase.linked_empty, rfl⟩ ?_ ?_).tracks 0 _ rfl
  · obtain ⟨x, hx, hvol, -⟩ := hs
    obtain rfl := Option.some.inj hx
    revert hvol
    decide +kernel
  · refine ⟨⟨by decide, by decide⟩, ⟨_, rfl, by decide +kernel⟩,
      ⟨_, rfl, rbFill_types _ _, by decide +kernel⟩, ⟨_, rfl, by decide +kernel⟩, Nat.zero_lt_one, rfl,
      ⟨_, rfl, rbFill_types _ _, by decide +kernel⟩, ⟨_, rfl, by decide +kernel⟩, Nat.zero_lt_one, rfl,
      ⟨rfl, by decide +kernel⟩, ⟨rfl, rfl⟩, rfl, rfl, rfl, trivial⟩
  · exact ⟨rfl, by decide +kernel, by decide +kernel, by decide +kernel⟩

end Restarting

end NatFramework.Td
