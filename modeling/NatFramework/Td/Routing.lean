import NatFramework.Lib.Lists
import NatFramework.Td.RestartTop

/-!
# Which order a return is applied to

`local_id` is the index of an order in `order_track_`. The vector is cleared on
every day switch, also by the one `CStrategy::run` starts with, right after the
tracks have been fetched from the engine, and the next order gets index 0 again.
Returns of earlier orders may still be on their way.

* `Inv`: after a clear, what is sent from then on lies under its own index, and
  what belongs to it carries that index.
* `routed_iff`: every return is applied to the track of its order exactly when
  each one that is read belongs to an order sent since the last clear, or its
  index has not been given out again.
-/
namespace NatFramework.Td

open Lib Account

/-! ## Requests -/

/-- mirrors include/IOCommon.h:84-94 -/
structure IOOrderAction where
  from_ : Int
  localId : Int
  accIdx : Int
  orderRef : Int
  frontId : Int
  sessionId : Int
  instrHash : Hash
  instr : String
  deriving DecidableEq, Repr

inductive HelperRequest where
  | send (d : IOInputOrderField)
  | action (a : IOOrderAction)
  deriving DecidableEq, Repr

def HelperRequest.localId : HelperRequest → Int
  | .send d => d.localId
  | .action a => a.localId

/-- mirrors td/CTDHelperComm.cpp:76-96 -/
def doSendOrder (selfId trackId : Int) (t : OrderTrack) : IOInputOrderField :=
  { from_ := selfId, localId := trackId, accIdx := t.accId, instrHash := t.instrHash, instr := t.instr
    price := t.price, vol := t.vol, dir := t.dir, off := t.off, stgId := t.stgId }

/-- mirrors td/CTDHelperComm.cpp:101-117 -/
def doDelOrder (selfId trackId : Int) (t : OrderTrack) : IOOrderAction :=
  { from_ := selfId, localId := trackId, accIdx := t.accId, orderRef := t.orderRef, frontId := t.frontId
    sessionId := t.sessionId, instrHash := t.instrHash, instr := t.instr }

/-- What `deleteOrder` asks of a track.
mirrors td/ITDHelper.cpp:48-51 -/
def deletable (t : OrderTrack) : Bool :=
  t.orderRef ≥ 0 ∧
    hasAny t.status (ods .tdSend ||| ods .execution ||| ods .accept ||| ods .marketAccept) ∧
    ¬ t.status.has .closed

/-! ## The process and the engine -/

/-- Something that belongs to the `order`-th order the strategy has ever sent. -/
structure Owned (α : Type) where
  order : Nat
  val : α
  deriving DecidableEq, Repr

inductive ProcessPhase where
  | down | placed | synced | running
  deriving DecidableEq, Repr

/-- `engineTracks` are the engine's tracks of this helper's orders, `page` its
returns to this helper; `passed` are the calls of `RiskStg::onRtn`. Of the
`serial` orders sent so far `opening` were sent before the last clear. -/
structure Routing where
  phase : ProcessPhase := .down
  tracks : List (Owned OrderTrack) := []
  requests : List (Owned HelperRequest) := []
  taken : Nat := 0
  engineTracks : List (Owned OrderTrack) := []
  page : List (Owned RtnMsg) := []
  reader : Nat := 0
  passed : List (Owned OrderTrack × Owned RtnMsg) := []
  serial : Nat := 0
  opening : Nat := 0

inductive RoutingEvent where
  /-- A process starts, the first or after any end of the last one. -/
  | start
  /-- `qryOrderTrack`. -/
  | resync
  /-- `pre_on_switch_day`; the first one is that of `run`. -/
  | switchDay
  | sendOrder (instr : String) (accId stgId : Int) (o : Order)
  | deleteOrder (id : Int)
  | getRtn
  /-- The engine takes the next request; an order it accepts gets a track. -/
  | take (accepted : Bool) (unit : AccountUnit) (ref : Int)
  /-- The engine answers a request: an acknowledgement, a refusal, any callback. -/
  | reply (i : Nat) (m : RtnMsg)
  deriving DecidableEq, Repr

/-- `order_track_[id]` behind the comparison with its size. -/
def ownedAt (l : List (Owned OrderTrack)) (id : Int) : Option (Owned OrderTrack) :=
  if 0 ≤ id then l[id.toNat]? else none

namespace Routing

variable (selfId : Int)

/-- mirrors td/ITDHelper.cpp:22-90, td/CTDHelperComm.cpp:58-69,119-129,171-182,
td/ITDEngine.cpp:333-353 and strategy/CStrategy.cpp:355,362-366,415-437 -/
def next (s : Routing) : RoutingEvent → Routing
  | .start => { s with phase := .placed, tracks := [], reader := s.page.length }
  | .resync => { s with phase := .synced, tracks := s.engineTracks }
  | .switchDay => { s with phase := .running, tracks := [], opening := s.serial }
  | .sendOrder instr accId stgId o =>
    let id : Int := s.tracks.length
    let t := ITDHelper.sendOrder o instr accId stgId id
    { s with
      tracks := s.tracks ++ [⟨s.serial, t⟩]
      requests := s.requests ++ [⟨s.serial, .send (doSendOrder selfId id t)⟩]
      serial := s.serial + 1 }
  | .deleteOrder id =>
    match ownedAt s.tracks id with
    | none => s
    | some x =>
      if deletable x.val then
        { s with
          tracks := s.tracks.set id.toNat ⟨x.order, ITDHelper.deleteOrder x.val⟩
          requests := s.requests ++ [⟨x.order, .action (doDelOrder selfId id x.val)⟩] }
      else s
  | .getRtn =>
    match s.page[s.reader]? with
    | none => s
    | some r =>
      match ownedAt s.tracks r.val.localId with
      | none => { s with reader := s.reader + 1 }
      | some x =>
        let y : Owned OrderTrack := ⟨x.order, ITDHelper.getRtn r.val x.val⟩
        { s with
          reader := s.reader + 1
          tracks := s.tracks.set r.val.localId.toNat y
          passed := s.passed ++ [(y, r)] }
  | .take accepted unit ref =>
    match s.requests[s.taken]? with
    | none => s
    | some q =>
      match q.val with
      | .send d =>
        { s with
          taken := s.taken + 1
          engineTracks :=
            if accepted then s.engineTracks ++ [⟨q.order, Engine.insertTrack d unit ref {}⟩]
            else s.engineTracks }
      | .action _ => { s with taken := s.taken + 1 }
  | .reply i m =>
    match s.requests[i]? with
    | none => s
    | some q =>
      { s with
        page := s.page ++ [⟨q.order, { m with localId := q.val.localId }⟩]
        engineTracks := s.engineTracks.map fun x =>
          if x.order = q.order then ⟨x.order, trackRtn m x.val⟩ else x }

/-- A process fetches its tracks, then runs; the engine answers what it has taken. -/
def Ok (s : Routing) : RoutingEvent → Prop
  | .start => True
  | .resync => s.phase = .placed
  | .switchDay => s.phase = .synced ∨ s.phase = .running
  | .sendOrder .. => s.phase = .synced ∨ s.phase = .running
  | .deleteOrder _ => s.phase = .synced ∨ s.phase = .running
  | .getRtn => s.phase = .running
  | .take .. => True
  | .reply i _ => i < s.taken

instance (s : Routing) (e : RoutingEvent) : Decidable (s.Ok e) := by
  cases e <;> unfold Ok <;> infer_instance

def sys : Lib.Sys Routing RoutingEvent where
  start s := s = {}
  ok := Ok
  next := next selfId

instance (s : Routing) (e : RoutingEvent) : Decidable ((sys selfId).ok s e) :=
  inferInstanceAs (Decidable (s.Ok e))

/-- Every return that was applied went to the track of its order. -/
def Routed (s : Routing) : Prop := ∀ p ∈ s.passed, p.1.order = p.2.order

/-- The return that is read belongs to an order sent since the last clear, or its
index is beyond the orders sent since. -/
def InTime (s : Routing) : RoutingEvent → Prop
  | .getRtn => ∀ r ∈ s.page[s.reader]?,
      s.opening ≤ r.order ∨ (s.serial : Int) - s.opening ≤ r.val.localId
  | _ => True

instance (s : Routing) : Decidable s.Routed := by
  unfold Routed
  infer_instance

instance (s : Routing) (e : RoutingEvent) : Decidable (s.InTime e) := by
  cases e <;> unfold InTime <;> infer_instance

/-! ## What indices say about orders -/

/-- An index that belongs to order `n`: while the process runs, orders sent since
the last clear have the index that counts them. -/
structure Indexed (phase : ProcessPhase) (serial opening n : Nat) (id : Int) : Prop where
  sent : n < serial
  nonneg : 0 ≤ id
  index : phase = .running → opening ≤ n → id = n - opening

structure Inv (s : Routing) : Prop where
  opening : s.opening ≤ s.serial
  tracks : ∀ x ∈ s.tracks, x.order < s.serial
  engine : ∀ x ∈ s.engineTracks, x.order < s.serial
  requests : ∀ q ∈ s.requests, Indexed s.phase s.serial s.opening q.order q.val.localId
  page : ∀ r ∈ s.page, Indexed s.phase s.serial s.opening r.order r.val.localId
  length : s.phase = .running → s.tracks.length = s.serial - s.opening
  order : s.phase = .running → ∀ (i : Nat) x, s.tracks[i]? = some x → x.order = s.opening + i

variable {selfId : Int} {s : Routing}

theorem Indexed.succ {phase : ProcessPhase} {serial opening n : Nat} {id : Int}
    (h : Indexed phase serial opening n id) : Indexed phase (serial + 1) opening n id :=
  ⟨Nat.lt_succ_of_lt h.sent, h.nonneg, h.index⟩

theorem ownedAt_cases {l : List (Owned OrderTrack)} {id : Int} {x : Owned OrderTrack}
    (h : ownedAt l id = some x) : ∃ i : Nat, id = i ∧ l[i]? = some x := by
  unfold ownedAt at h
  split at h
  · exact ⟨id.toNat, by omega, h⟩
  · cases h

/-- Writing to the track at an index leaves its order there. -/
theorem Inv.set (hs : s.Inv) {i : Nat} {x : Owned OrderTrack} (hx : s.tracks[i]? = some x)
    (t : OrderTrack) : Inv { s with tracks := s.tracks.set i ⟨x.order, t⟩ } where
  opening := hs.opening
  tracks := by
    intro y hy
    rcases List.mem_or_eq_of_mem_set hy with hy | rfl
    · exact hs.tracks y hy
    · exact hs.tracks x (List.mem_of_getElem? hx)
  engine := hs.engine
  requests := hs.requests
  page := hs.page
  length hp := by
    rw [List.length_set]
    exact hs.length hp
  order := by
    intro hp j y hy
    rcases getElem?_set_cases hy with ⟨rfl, rfl⟩ | ⟨-, hy⟩
    · exact hs.order hp j x hx
    · exact hs.order hp j y hy

theorem inv_sendOrder (hs : s.Inv) (instr : String) (accId stgId : Int) (o : Order) :
    (s.next selfId (.sendOrder instr accId stgId o)).Inv where
  opening := Nat.le_succ_of_le hs.opening
  tracks := by
    intro x hx
    rw [next, List.mem_append, List.mem_singleton] at hx
    rcases hx with hx | rfl
    · exact Nat.lt_succ_of_lt (hs.tracks x hx)
    · exact Nat.lt_succ_self _
  engine x hx := Nat.lt_succ_of_lt (hs.engine x hx)
  requests := by
    intro q hq
    rw [next, List.mem_append, List.mem_singleton] at hq
    rcases hq with hq | rfl
    · exact (hs.requests q hq).succ
    · refine ⟨Nat.lt_succ_self _, Int.natCast_nonneg _, fun hp _ => ?_⟩
      have hlen := hs.length hp
      have hle := hs.opening
      simp only [HelperRequest.localId, doSendOrder, next]
      omega
  page r hr := (hs.page r hr).succ
  length hp := by
    have hlen := hs.length hp
    have hle := hs.opening
    simp only [next, List.length_append, List.length_cons, List.length_nil]
    omega
  order := by
    intro hp i x hx
    have hlen := hs.length hp
    have hle := hs.opening
    rw [next] at hx
    by_cases hi : i < s.tracks.length
    · rw [List.getElem?_append_left hi] at hx
      exact hs.order hp i x hx
    · have hi' := (List.getElem?_eq_some_iff.mp hx).1
      simp only [List.length_append, List.length_cons, List.length_nil] at hi'
      obtain rfl : i = s.tracks.length := by omega
      rw [List.getElem?_concat_length, Option.some.injEq] at hx
      rw [← hx]
      simp only [next]
      omega

theorem inv_deleteOrder (hs : s.Inv) (id : Int) : (s.next selfId (.deleteOrder id)).Inv := by
  cases hx : ownedAt s.tracks id with
  | none => simpa only [next, hx] using hs
  | some x =>
    obtain ⟨i, rfl, hi⟩ := ownedAt_cases hx
    by_cases hd : deletable x.val
    · have hset := hs.set hi (ITDHelper.deleteOrder x.val)
      simp only [next, hx, hd, if_true, Int.toNat_natCast]
      refine ⟨hset.opening, hset.tracks, hset.engine, fun q hq => ?_, hset.page, hset.length,
        hset.order⟩
      rw [List.mem_append, List.mem_singleton] at hq
      rcases hq with hq | rfl
      · exact hset.requests q hq
      · refine ⟨hs.tracks x (List.mem_of_getElem? hi), Int.natCast_nonneg _, fun hp _ => ?_⟩
        have hord := hs.order hp i x hi
        simp only [HelperRequest.localId, doDelOrder, hord]
        omega
    · simpa only [next, hx, hd, if_false, Bool.false_eq_true] using hs

theorem inv_getRtn (hs : s.Inv) : (s.next selfId .getRtn).Inv := by
  cases hr : s.page[s.reader]? with
  | none => simpa only [next, hr] using hs
  | some r =>
    cases hx : ownedAt s.tracks r.val.localId with
    | none =>
      simp only [next, hr, hx]
      exact ⟨hs.opening, hs.tracks, hs.engine, hs.requests, hs.page, hs.length, hs.order⟩
    | some x =>
      obtain ⟨i, hid, hi⟩ := ownedAt_cases hx
      have hset := hs.set hi (ITDHelper.getRtn r.val x.val)
      simp only [next, hr, hx]
      rw [hid, Int.toNat_natCast]
      exact ⟨hset.opening, hset.tracks, hset.engine, hs.requests, hs.page, hset.length, hset.order⟩

theorem inv_take (hs : s.Inv) (accepted : Bool) (unit : AccountUnit) (ref : Int) :
    (s.next selfId (.take accepted unit ref)).Inv := by
  have hreq : ∀ q ∈ s.requests, q.order < s.serial := fun q hq => (hs.requests q hq).sent
  cases hq : s.requests[s.taken]? with
  | none => simpa only [next, hq] using hs
  | some q =>
    have hmem := List.mem_of_getElem? hq
    cases hv : q.val with
    | action a =>
      simp only [next, hq, hv]
      exact ⟨hs.opening, hs.tracks, hs.engine, hs.requests, hs.page, hs.length, hs.order⟩
    | send d =>
      simp only [next, hq, hv]
      refine ⟨hs.opening, hs.tracks, fun x hx => ?_, hs.requests, hs.page, hs.length, hs.order⟩
      cases accepted with
      | false => exact hs.engine x hx
      | true =>
        simp only [if_true, List.mem_append, List.mem_singleton] at hx
        rcases hx with hx | rfl
        · exact hs.engine x hx
        · exact hreq q hmem

theorem inv_reply (hs : s.Inv) (i : Nat) (m : RtnMsg) : (s.next selfId (.reply i m)).Inv := by
  cases hq : s.requests[i]? with
  | none => simpa only [next, hq] using hs
  | some q =>
    have hmem := List.mem_of_getElem? hq
    simp only [next, hq]
    refine ⟨hs.opening, hs.tracks, fun x hx => ?_, hs.requests, fun r hr => ?_, hs.length, hs.order⟩
    · obtain ⟨y, hy, rfl⟩ := List.mem_map.mp hx
      split
      · exact hs.engine y hy
      · exact hs.engine y hy
    · rw [List.mem_append, List.mem_singleton] at hr
      rcases hr with hr | rfl
      · exact hs.page r hr
      · exact hs.requests q hmem

/-- A clear starts a new count: everything sent before is older. -/
theorem inv_switchDay (hs : s.Inv) : (s.next selfId .switchDay).Inv where
  opening := le_refl _
  tracks x hx := by cases hx
  engine := hs.engine
  requests q hq := by
    have h := hs.requests q hq
    exact ⟨h.sent, h.nonneg, fun _ hle => absurd h.sent (Nat.not_lt.mpr hle)⟩
  page r hr := by
    have h := hs.page r hr
    exact ⟨h.sent, h.nonneg, fun _ hle => absurd h.sent (Nat.not_lt.mpr hle)⟩
  length _ := (Nat.sub_self _).symm
  order _ i x hx := by cases hx

/-- Outside `run` no index has to mean anything. -/
theorem Inv.stopped {p : ProcessPhase} (hs : s.Inv) (hp : p ≠ .running)
    {ts : List (Owned OrderTrack)} (ht : ∀ x ∈ ts, x.order < s.serial) (reader : Nat) :
    Inv { s with phase := p, tracks := ts, reader := reader } where
  opening := hs.opening
  tracks := ht
  engine := hs.engine
  requests q hq := ⟨(hs.requests q hq).sent, (hs.requests q hq).nonneg, fun h => absurd h hp⟩
  page r hr := ⟨(hs.page r hr).sent, (hs.page r hr).nonneg, fun h => absurd h hp⟩
  length h := absurd h hp
  order h := absurd h hp

theorem inv_next (hs : s.Inv) (e : RoutingEvent) : (s.next selfId e).Inv := by
  cases e with
  | start => exact hs.stopped (by decide) (fun x hx => by cases hx) _
  | resync => exact hs.stopped (by decide) hs.engine _
  | switchDay => exact inv_switchDay hs
  | sendOrder instr accId stgId o => exact inv_sendOrder hs instr accId stgId o
  | deleteOrder id => exact inv_deleteOrder hs id
  | getRtn => exact inv_getRtn hs
  | take accepted unit ref => exact inv_take hs accepted unit ref
  | reply i m => exact inv_reply hs i m

/-! ## The run -/

/-- One step applies a return to the wrong track exactly when it is not in time. -/
theorem routed_next (hs : s.Inv) {e : RoutingEvent} (he : s.Ok e) :
    (s.next selfId e).Routed ↔ s.Routed ∧ s.InTime e := by
  have hkeep : (s.next selfId e).passed = s.passed → s.InTime e →
      ((s.next selfId e).Routed ↔ s.Routed ∧ s.InTime e) := by
    intro hp ht
    rw [Routed, Routed, hp, and_iff_left ht]
  cases e with
  | start => exact hkeep rfl trivial
  | resync => exact hkeep rfl trivial
  | switchDay => exact hkeep rfl trivial
  | sendOrder instr accId stgId o => exact hkeep rfl trivial
  | deleteOrder id =>
    refine hkeep ?_ trivial
    rw [next]
    split
    · rfl
    · split <;> rfl
  | take accepted unit ref =>
    refine hkeep ?_ trivial
    rw [next]
    split
    · rfl
    · split <;> rfl
  | reply i m =>
    refine hkeep ?_ trivial
    rw [next]
    split <;> rfl
  | getRtn =>
    have hp : s.phase = .running := he
    have hle := hs.opening
    have hlen := hs.length hp
    cases hr : s.page[s.reader]? with
    | none =>
      refine hkeep ?_ ?_
      · simp only [next, hr]
      · simp only [InTime, hr, Option.mem_def, reduceCtorEq, false_implies, implies_true]
    | some r =>
      obtain ⟨hsent, hnn, hidx⟩ := hs.page r (List.mem_of_getElem? hr)
      have htime : s.InTime .getRtn ↔
          s.opening ≤ r.order ∨ (s.serial : Int) - s.opening ≤ r.val.localId := by
        simp only [InTime, hr, Option.mem_def, Option.some.injEq, forall_eq']
      cases hx : ownedAt s.tracks r.val.localId with
      | none =>
        -- nothing is applied: the index is beyond the vector
        refine hkeep ?_ (htime.mpr (Or.inr ?_))
        · simp only [next, hr, hx]
        · rw [ownedAt, if_pos hnn, List.getElem?_eq_none_iff] at hx
          omega
      | some x =>
        obtain ⟨i, hid, hi⟩ := ownedAt_cases hx
        have hord := hs.order hp i x hi
        have hilt := (List.getElem?_eq_some_iff.mp hi).1
        have hnew : x.order = r.order ↔ s.InTime .getRtn := by
          rw [htime, hord]
          constructor
          · intro h
            exact Or.inl (by omega)
          · rintro (h | h)
            · have := hidx hp h
              omega
            · omega
        rw [← hnew]
        simp only [Routed, next, hr, hx, List.mem_append, List.mem_singleton]
        constructor
        · intro h
          exact ⟨fun p hp => h p (Or.inl hp), h _ (Or.inr rfl)⟩
        · rintro ⟨h, hlast⟩ p (hp | rfl)
          · exact h p hp
          · exact hlast

theorem inv_start : Inv {} where
  opening := le_refl _
  tracks x hx := by cases hx
  engine x hx := by cases hx
  requests q hq := by cases hq
  page r hr := by cases hr
  length h := by cases h
  order h := by cases h

/-- **Returns and their orders.** In a run of the strategy process beside the engine
every return was applied to the track of its order exactly when each return that
was read belonged to an order sent since the last clear, or carried an index
that no order had been given since. -/
theorem routed_iff {s0 : Routing} (h0 : (sys selfId).start s0) {es : List RoutingEvent}
    (ha : (sys selfId).Admits s0 es) :
    ((sys selfId).exec s0 es).Routed ↔
      AtEach (fun pre e => ((sys selfId).exec s0 pre).InTime e) es := by
  obtain rfl : s0 = {} := h0
  have hinv : ∀ es, ((sys selfId).exec {} es).Inv := by
    intro es
    induction es using List.reverseRecOn with
    | nil => exact inv_start
    | append_singleton es e ih =>
      rw [Sys.exec_append]
      exact inv_next ih e
  induction es using List.reverseRecOn with
  | nil =>
    refine iff_of_true ?_ (atEach_nil _)
    intro p hp
    cases hp
  | append_singleton es e ih =>
    obtain ⟨ha, he, -⟩ := ((sys selfId).admits_append {} es [e]).mp ha
    rw [atEach_concat, Sys.exec_append]
    exact (routed_next (hinv es) he).trans (and_congr_left' (ih ha))

def rbOrder : Order := ⟨1, .buy, .opn, 10, 2⟩

/-- An order and its fill, a return over a day switch that finds an empty vector, a
restart over which an order stays open, an order of the new process and its
cancel. -/
def rbReadInTime : List RoutingEvent :=
  [.start, .resync, .switchDay, .sendOrder "rb1810" 0 0 rbOrder, .take true ⟨1, 1⟩ 1,
    .reply 0 { msgType := ods .tdSend, orderRef := 1 }, .getRtn, .switchDay,
    .reply 0 { msgType := ods .execution, vol := 1, price := 10 }, .getRtn, .start, .resync,
    .deleteOrder 0, .switchDay, .sendOrder "rb1810" 0 0 rbOrder, .take true ⟨1, 1⟩ 2,
    .take true ⟨1, 1⟩ 2, .reply 2 { msgType := ods .tdSend, orderRef := 2 }, .getRtn, .deleteOrder 0,
    .take true ⟨1, 1⟩ 2, .reply 3 { msgType := ods .canceled, orderRef := 2, vol := 2 }, .getRtn]

theorem routed_rbReadInTime : ((sys 7).exec {} rbReadInTime).Routed := by
  refine (routed_iff rfl ?_).mpr ?_
  · decide +kernel
  · rw [atEach_iff_getElem]
    decide +kernel

/-- An order is accepted, the process restarts and sends another one; the fill of the
first is applied to the second. -/
def rbFillAfterRestart : List RoutingEvent :=
  [.start, .resync, .switchDay, .sendOrder "rb1810" 0 0 rbOrder, .take true ⟨1, 1⟩ 1, .start, .resync,
    .switchDay, .sendOrder "rb1901" 0 0 ⟨2, .sell, .opn, 9, 5⟩,
    .reply 0 { msgType := ods .execution, vol := 2, price := 10, orderRef := 1 }, .getRtn]

theorem not_routed_rb : ¬∀ (selfId : Int) (s0 : Routing) (es : List RoutingEvent),
    (sys selfId).start s0 → (sys selfId).Admits s0 es → ((sys selfId).exec s0 es).Routed := by
  intro h
  have hr := h 7 {} rbFillAfterRestart rfl (by decide +kernel)
  revert hr
  decide +kernel

end Routing

end NatFramework.Td
