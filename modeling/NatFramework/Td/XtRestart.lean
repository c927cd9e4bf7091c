import Mathlib.Data.Int.Interval
import NatFramework.Lib.Run
import NatFramework.Td.Xt

/-!
# Request ids over the restarts of the Xt engine

A restarted Xt engine continues from `request_id_start_` plus the number of
orders it could match with a track. That is past the ids in use if these are the
first ones of the range without a gap: an order that failed leaves one.

* `size_restart`: what is counted.
* `continues_iff`: in a run all restarts continue past the ids in use exactly
  when none of them finds a gap or an order without its track.
-/
namespace NatFramework.Td

open Lib

/-! ## Runs of a trading day -/

/-- The engine, the orders the front has taken (request id and the front's order
id), and the first request id of the session. -/
structure XtDay where
  engine : XtEngine
  known : List (Int × Int)
  first : Int

inductive XtEvent where
  | insert (d : IOInputOrderField) (riskRet : Int)
  /-- The front takes the order sent as `id` and names it `orderId`. -/
  | take (id orderId : Int)
  | callback (c : XtCallback)
  /-- A new process, which the front tells about its orders and deals. -/
  | restart (details : List (Int × OrderDetail)) (deals : List DealDetail)
  deriving DecidableEq, Repr

namespace XtDay

variable (info : TradeBaseInfo)

def restarted (details : List (Int × OrderDetail)) (deals : List DealDetail) (s : XtDay) : XtEngine :=
  s.engine.newProcess.updateOrderTrack details deals

def next (s : XtDay) : XtEvent → XtDay
  | .insert d riskRet => { s with engine := s.engine.reqOrderInsert info d riskRet }
  | .take id orderId => { s with known := s.known ++ [(id, orderId)] }
  | .callback c => { s with engine := c.apply s.engine }
  | .restart details deals =>
    { s with
      engine := s.restarted details deals, first := (s.restarted details deals).requestId }

/-- The front takes orders of the session that it has not taken yet, under new
names; `onOrder` reports a name it has given; the queries report the orders it
has taken. -/
def Ok (s : XtDay) : XtEvent → Prop
  | .insert .. => True
  | .take id orderId => s.first ≤ id ∧ id < s.engine.requestId ∧ id ∉ s.known.map (·.1) ∧
      orderId ∉ s.known.map (·.2)
  | .callback (.order id orderId none) => (id, orderId) ∈ s.known
  | .callback _ => True
  | .restart details _ => ∀ orderId, orderId ∈ details.map (·.2.orderId) ↔ orderId ∈ s.known.map (·.2)

/-- Runs from the first start of the day. -/
def sys : Lib.Sys XtDay XtEvent where
  start s := s.known = [] ∧ s.engine.requestId = s.engine.requestIdStart ∧
    s.first = s.engine.requestIdStart
  ok := Ok
  next := next info

/-- The engine continues past every id whose order the front knows. -/
def Continues (s : XtDay) : XtEvent → Prop
  | .restart details deals => ∀ p ∈ s.known, p.1 < (s.restarted details deals).requestId
  | _ => True

theorem continues_restart {s : XtDay} {details : List (Int × OrderDetail)} {deals : List DealDetail} :
    s.Continues (.restart details deals) ↔
      ∀ p ∈ s.known, p.1 < (s.restarted details deals).requestId := Iff.rfl

/-- Some track has the front's order id. -/
structure HasTrack (tracks : Int → OrderTrack) (orderId : Int) : Prop where
  slot : ∃ i : Nat, i < mmapOrderTrackSize.toNat ∧ (tracks i).frontId = 1 ∧
    (tracks i).sessionId = orderId

/-- Every order the front knows has its track, and the ids have no gap. -/
def Unbroken (s : XtDay) : XtEvent → Prop
  | .restart .. => (∀ p ∈ s.known, HasTrack s.engine.requestTrack p.2) ∧
      ∀ p ∈ s.known, ∀ id, s.engine.requestIdStart ≤ id → id < p.1 → id ∈ s.known.map (·.1)
  | _ => True

end XtDay

/-! ## Ids without a gap -/

/-- Ids from `a` on lie below `a` plus their number exactly when they have no gap. -/
theorem lt_add_length_iff {l : List Int} {a : Int} (hn : l.Nodup) (ha : ∀ x ∈ l, a ≤ x) :
    (∀ x ∈ l, x < a + l.length) ↔ ∀ x ∈ l, ∀ y, a ≤ y → y < x → y ∈ l := by
  have hcard : l.toFinset.card = l.length := List.toFinset_card_of_nodup hn
  constructor
  · intro h x hx y hay hyx
    have hsub : l.toFinset ⊆ Finset.Ico a (a + l.length) := by
      intro z hz
      rw [List.mem_toFinset] at hz
      exact Finset.mem_Ico.mpr ⟨ha z hz, h z hz⟩
    have heq : l.toFinset = Finset.Ico a (a + l.length) :=
      Finset.eq_of_subset_of_card_le hsub (by rw [Int.card_Ico, hcard]; omega)
    have hy : y ∈ l.toFinset := by
      rw [heq, Finset.mem_Ico]
      exact ⟨hay, hyx.trans (h x hx)⟩
    exact List.mem_toFinset.mp hy
  · intro h x hx
    have hsub : Finset.Icc a x ⊆ l.toFinset := by
      intro y hy
      obtain ⟨hay, hyx⟩ := Finset.mem_Icc.mp hy
      rw [List.mem_toFinset]
      rcases hyx.lt_or_eq with hlt | rfl
      · exact h x hx y hay hlt
      · exact hx
    have hle := Finset.card_le_card hsub
    rw [Int.card_Icc, hcard] at hle
    have := ha x hx
    omega

/-- Fewer than all of the ids are counted: the last is not passed. -/
theorem forall_lt_add_iff {l : List Int} {a : Int} {n : Nat} (hn : l.Nodup) (ha : ∀ x ∈ l, a ≤ x)
    (hle : n ≤ l.length) :
    (∀ x ∈ l, x < a + n) ↔ n = l.length ∧ ∀ x ∈ l, ∀ y, a ≤ y → y < x → y ∈ l := by
  constructor
  · intro h
    have hsub : l.toFinset ⊆ Finset.Ico a (a + n) := by
      intro z hz
      rw [List.mem_toFinset] at hz
      exact Finset.mem_Ico.mpr ⟨ha z hz, h z hz⟩
    have hcard := Finset.card_le_card hsub
    rw [Int.card_Ico, List.toFinset_card_of_nodup hn] at hcard
    obtain rfl : n = l.length := by omega
    exact ⟨rfl, (lt_add_length_iff hn ha).mp h⟩
  · rintro ⟨rfl, h⟩
    exact (lt_add_length_iff hn ha).mpr h

/-! ## What the steps leave alone -/

theorem XtDay.HasTrack.congr {tracks tracks' : Int → OrderTrack}
    (h : ∀ i, (tracks i).frontId = (tracks' i).frontId ∧ (tracks i).sessionId = (tracks' i).sessionId)
    (orderId : Int) : HasTrack tracks orderId ↔ HasTrack tracks' orderId := by
  constructor
  · rintro ⟨i, hlt, hf, hs⟩
    exact ⟨i, hlt, (h i).1.symm.trans hf, (h i).2.symm.trans hs⟩
  · rintro ⟨i, hlt, hf, hs⟩
    exact ⟨i, hlt, (h i).1.trans hf, (h i).2.trans hs⟩

namespace XtEngine

/-- The request id and the start of its range are those of another state. -/
def SameIds (e e' : XtEngine) : Prop :=
  e'.requestId = e.requestId ∧ e'.requestIdStart = e.requestIdStart

variable {e : XtEngine}

theorem sameIds_atSlot {f : Nat → XtEngine} (h : ∀ i, SameIds e (f i)) (slot : Option Nat) :
    SameIds e (e.atSlot f slot) := by
  cases slot with
  | none => exact ⟨rfl, rfl⟩
  | some i => exact h i

theorem sameIds_apply (c : XtCallback) (e : XtEngine) : SameIds e (c.apply e) := by
  have hrefl : SameIds e e := ⟨rfl, rfl⟩
  cases c with
  | order id orderId error =>
    simp only [XtCallback.apply, onOrder]
    split
    · split <;> exact ⟨rfl, rfl⟩
    · exact hrefl
  | rtnOrderError data =>
    simp only [XtCallback.apply, onRtnOrderError]
    split
    · split <;> exact ⟨rfl, rfl⟩
    · exact hrefl
  | rtnOrder data =>
    simp only [XtCallback.apply, onRtnOrder]
    split
    · exact hrefl
    · split
      all_goals first | exact hrefl | (split <;> exact ⟨rfl, rfl⟩)
  | rtnOrderDetail data =>
    simp only [XtCallback.apply, onRtnOrderDetail]
    split
    · exact hrefl
    · split
      all_goals first | exact ⟨rfl, rfl⟩ | (split <;> exact ⟨rfl, rfl⟩)
  | rtnDealDetail data =>
    simp only [XtCallback.apply, onRtnDealDetail]
    split
    · exact hrefl
    · rename_i id _
      have ht : (e.testOtId id (CString.strtoll data.tradeId)).1.requestId = e.requestId ∧
        (e.testOtId id (CString.strtoll data.tradeId)).1.requestIdStart = e.requestIdStart := ⟨rfl, rfl⟩
      split <;> rename_i hx <;> rw [hx] at ht <;> exact ht
  | cancel id error =>
    simp only [XtCallback.apply, onCancel]
    split
    · split <;> exact ⟨rfl, rfl⟩
    · exact hrefl
  | rtnCancelError data =>
    simp only [XtCallback.apply, onRtnCancelError]
    split
    · split <;> exact ⟨rfl, rfl⟩
    · exact hrefl

theorem requestId_insert (info : TradeBaseInfo) (d : IOInputOrderField) (riskRet : Int)
    (e : XtEngine) : e.requestId ≤ (e.reqOrderInsert info d riskRet).requestId ∧
      (e.reqOrderInsert info d riskRet).requestIdStart = e.requestIdStart := by
  unfold reqOrderInsert
  split
  · exact ⟨le_rfl, rfl⟩
  · split
    · exact ⟨le_rfl, rfl⟩
    · split
      · exact ⟨le_rfl, rfl⟩
      · exact ⟨show e.requestId ≤ e.requestId + 1 by omega, rfl⟩

/-! ## The orders counted -/

theorem findSlot_some {n i : Nat} {orderId : Int} {e : Engine} (h : findSlot n orderId e = some i) :
    i < n ∧ (e.requestTrack i).frontId = 1 ∧ (e.requestTrack i).sessionId = orderId := by
  unfold findSlot at h
  exact ⟨List.mem_range.mp (List.mem_of_find?_eq_some h), by simpa using List.find?_some h⟩

theorem findSlot_eq_none_iff {n : Nat} {orderId : Int} {e : Engine} :
    findSlot n orderId e = none ↔ ¬∃ i : Nat, i < n ∧ (e.requestTrack i).frontId = 1 ∧
      (e.requestTrack i).sessionId = orderId := by
  unfold findSlot
  rw [List.find?_eq_none]
  constructor
  · rintro h ⟨i, hlt, htrack⟩
    exact h i (List.mem_range.mpr hlt) (decide_eq_true htrack)
  · intro h i hi htrack
    exact h ⟨i, List.mem_range.mp hi, of_decide_eq_true htrack⟩

/-- A reported order that has a track enters the map, and the track stays its track. -/
theorem enterOrder_spec {idx : Int} {d : OrderDetail} {e : XtEngine} {i : Nat}
    (hlt : i < mmapOrderTrackSize.toNat) (hfront : (e.requestTrack i).frontId = 1)
    (hsession : (e.requestTrack i).sessionId = d.orderId) :
    (∀ o, XtDay.HasTrack (e.enterOrder idx d i).requestTrack o ↔ XtDay.HasTrack e.requestTrack o) ∧
      ∀ o, o ∈ (e.enterOrder idx d i).order2request ↔
        o ∈ e.order2request ∨ o = d.orderId ∧ XtDay.HasTrack e.requestTrack o := by
  refine ⟨XtDay.HasTrack.congr fun j => ?_, fun o => ?_⟩
  · -- the slot keeps the two fields the search reads
    unfold enterOrder
    dsimp only
    by_cases hj : j = i
    · rw [hj, Function.update_self]
      exact ⟨hfront.symm, hsession.symm⟩
    · rw [Function.update_of_ne hj]
      exact ⟨rfl, rfl⟩
  · unfold enterOrder
    dsimp only
    rw [AList.mem_insert, or_comm]
    refine or_congr_right ⟨fun h => ⟨h, ?_⟩, fun h => h.1⟩
    rw [h]
    exact ⟨⟨i, hlt, hfront, hsession⟩⟩

theorem onReqOrderDetail_spec (idx : Int) (d : OrderDetail) (e : XtEngine) :
    (∀ o, XtDay.HasTrack (e.onReqOrderDetail idx d).requestTrack o ↔
        XtDay.HasTrack e.requestTrack o) ∧
      (∀ o, o ∈ (e.onReqOrderDetail idx d).order2request ↔
        o ∈ e.order2request ∨ o = d.orderId ∧ XtDay.HasTrack e.requestTrack o) ∧
      (e.onReqOrderDetail idx d).requestIdStart = e.requestIdStart := by
  have hatSlot : ∀ slot, (∀ i, slot = some i → i < mmapOrderTrackSize.toNat ∧
      (e.requestTrack i).frontId = 1 ∧ (e.requestTrack i).sessionId = d.orderId) →
      (slot = none → ¬XtDay.HasTrack e.requestTrack d.orderId) →
      (∀ o, XtDay.HasTrack (e.atSlot (e.enterOrder idx d) slot).requestTrack o ↔
          XtDay.HasTrack e.requestTrack o) ∧
        (∀ o, o ∈ (e.atSlot (e.enterOrder idx d) slot).order2request ↔
          o ∈ e.order2request ∨ o = d.orderId ∧ XtDay.HasTrack e.requestTrack o) ∧
        (e.atSlot (e.enterOrder idx d) slot).requestIdStart = e.requestIdStart := by
    intro slot hsome hnone
    cases slot with
    | none =>
      refine ⟨fun _ => Iff.rfl, fun o => ⟨Or.inl, ?_⟩, rfl⟩
      rintro (h | ⟨rfl, h⟩)
      · exact h
      · exact absurd h (hnone rfl)
    | some i =>
      obtain ⟨hlt, hfront, hsession⟩ := hsome i rfl
      obtain ⟨h1, h2⟩ := enterOrder_spec (d := d) hlt hfront hsession
      exact ⟨h1, h2, rfl⟩
  unfold onReqOrderDetail
  apply hatSlot
  · intro i hi
    exact findSlot_some hi
  · intro hno htrack
    exact findSlot_eq_none_iff.mp hno htrack.slot

theorem foldl_onReqOrderDetail (details : List (Int × OrderDetail)) (e : XtEngine) :
    let e' := details.foldl (fun e d => e.onReqOrderDetail d.1 d.2) e
    (∀ o, XtDay.HasTrack e'.requestTrack o ↔ XtDay.HasTrack e.requestTrack o) ∧
      (∀ o, o ∈ e'.order2request ↔ o ∈ e.order2request ∨
        o ∈ details.map (·.2.orderId) ∧ XtDay.HasTrack e.requestTrack o) ∧
      e'.requestIdStart = e.requestIdStart := by
  induction details generalizing e with
  | nil => simp
  | cons d details ih =>
    obtain ⟨htrack, hmem, hstart⟩ := onReqOrderDetail_spec d.1 d.2 e
    obtain ⟨ihtrack, ihmem, ihstart⟩ := ih (e.onReqOrderDetail d.1 d.2)
    rw [List.foldl_cons]
    refine ⟨fun o => (ihtrack o).trans (htrack o), fun o => ?_, ihstart.trans hstart⟩
    rw [List.map_cons, List.mem_cons]
    rw [ihmem, hmem, htrack, or_assoc, ← or_and_right]

theorem sameIds_updateTradedAmount (deals : List DealDetail) (e : XtEngine) :
    SameIds e (e.updateTradedAmount deals) := by
  have hone : ∀ (d : DealDetail) (e : XtEngine), SameIds e (e.onReqDealDetail d) := by
    intro d e
    unfold onReqDealDetail
    apply sameIds_atSlot
    exact fun i => ⟨rfl, rfl⟩
  have hall : ∀ e : XtEngine, SameIds e (deals.foldl (fun e d => e.onReqDealDetail d) e) := by
    induction deals with
    | nil => exact fun e => ⟨rfl, rfl⟩
    | cons d deals ih =>
      intro e
      rw [List.foldl_cons]
      obtain ⟨h1, h2⟩ := ih (e.onReqDealDetail d)
      exact ⟨h1.trans (hone d e).1, h2.trans (hone d e).2⟩
  exact hall { e with requestTrack := fun i => { e.requestTrack i with amountTraded := 0 } }

end XtEngine

namespace XtDay

open XtEngine

variable {info : TradeBaseInfo} {s : XtDay}

/-- What a restart counts: the orders of the front that have a track. -/
theorem size_restart {details : List (Int × OrderDetail)} (deals : List DealDetail)
    (hn : (s.known.map (·.2)).Nodup) (hok : Ok s (.restart details deals)) :
    ∃ n : Nat, (s.restarted details deals).requestId = s.engine.requestIdStart + n ∧
      (s.restarted details deals).requestIdStart = s.engine.requestIdStart ∧ n ≤ s.known.length ∧
      (n = s.known.length ↔ ∀ p ∈ s.known, HasTrack s.engine.requestTrack p.2) := by
  obtain ⟨-, hmem, hstart⟩ := foldl_onReqOrderDetail details s.engine.newProcess
  unfold restarted updateOrderTrack
  generalize details.foldl (fun e d => e.onReqOrderDetail d.1 d.2) s.engine.newProcess = e at hmem hstart
  obtain ⟨hid, hst⟩ := sameIds_updateTradedAmount deals
    { e with requestId := e.requestIdStart + e.order2request.entries.length }
  have hkeys : ∀ o, o ∈ e.order2request.keys ↔
      o ∈ s.known.map (·.2) ∧ HasTrack s.engine.requestTrack o := by
    intro o
    rw [← AList.mem_keys, hmem, hok]
    constructor
    · rintro (h | h)
      · exact absurd h (AList.notMem_empty o)
      · exact h
    · exact Or.inr
  have hlen : e.order2request.keys.length = e.order2request.entries.length := by
    simp [AList.keys, List.keys]
  have hsub : e.order2request.keys ⊆ s.known.map (·.2) := fun o ho => ((hkeys o).mp ho).1
  have hle := e.order2request.keys_nodup.length_le_of_subset hsub
  refine ⟨e.order2request.entries.length, ?_, hst.trans hstart, ?_, ?_⟩
  · rw [hid]
    exact congrArg (· + _) hstart
  · rw [← hlen]
    simpa using hle
  · rw [← hlen]
    constructor
    · intro heq p hp
      have hperm := (e.order2request.keys_nodup.subperm hsub).perm_of_length_le
        (by rw [List.length_map, heq])
      exact ((hkeys p.2).mp (hperm.mem_iff.mpr (List.mem_map_of_mem hp))).2
    · intro hall
      have hsub' : s.known.map (·.2) ⊆ e.order2request.keys := by
        intro o ho
        obtain ⟨p, hp, rfl⟩ := List.mem_map.mp ho
        exact (hkeys p.2).mpr ⟨ho, hall p hp⟩
      have hle' := hn.length_le_of_subset hsub'
      rw [List.length_map] at hle hle'
      omega

/-! ## Whole days -/

/-- The ids in use are different ids of the range, below the next one. -/
structure Inv (s : XtDay) : Prop where
  first : s.engine.requestIdStart ≤ s.first
  first_le : s.first ≤ s.engine.requestId
  ids : ∀ p ∈ s.known, s.engine.requestIdStart ≤ p.1 ∧ p.1 < s.engine.requestId
  nodup : (s.known.map (·.1)).Nodup
  orders : (s.known.map (·.2)).Nodup

theorem inv_start (hs : (sys info).start s) : Inv s := by
  obtain ⟨hk, hid, hfirst⟩ := hs
  refine ⟨hfirst.ge, by rw [hfirst, hid], ?_, ?_, ?_⟩ <;> rw [hk]
  · intro p hp
    cases hp
  · exact List.nodup_nil
  · exact List.nodup_nil

/-- What every event keeps, a restart if it continues past the ids in use. -/
theorem inv_next (hs : Inv s) {ev : XtEvent} (hok : Ok s ev) (hc : s.Continues ev) :
    Inv (next info s ev) := by
  cases ev with
  | insert d riskRet =>
    obtain ⟨hle, hst⟩ := requestId_insert info d riskRet s.engine
    refine ⟨?_, hs.first_le.trans hle, fun p hp => ?_, hs.nodup, hs.orders⟩ <;> simp only [next]
    · rw [hst]
      exact hs.first
    · rw [hst]
      exact ⟨(hs.ids p hp).1, (hs.ids p hp).2.trans_le hle⟩
  | take id orderId =>
    obtain ⟨hge, hlt, hid, hord⟩ := hok
    refine ⟨hs.first, hs.first_le, fun p hp => ?_, ?_, ?_⟩
    · rcases List.mem_append.mp hp with hp | hp
      · exact hs.ids p hp
      · rw [List.mem_singleton.mp hp]
        exact ⟨hs.first.trans hge, hlt⟩
    · simp only [next, List.map_append, List.map_cons, List.map_nil]
      exact hs.nodup.append (List.nodup_singleton id) (by simpa using hid)
    · simp only [next, List.map_append, List.map_cons, List.map_nil]
      exact hs.orders.append (List.nodup_singleton orderId) (by simpa using hord)
  | callback c =>
    obtain ⟨hid, hst⟩ := sameIds_apply c s.engine
    refine ⟨?_, ?_, fun p hp => ?_, hs.nodup, hs.orders⟩ <;> simp only [next, hid, hst]
    · exact hs.first
    · exact hs.first_le
    · exact hs.ids p hp
  | restart details deals =>
    obtain ⟨n, hid, hst, -⟩ := size_restart deals hs.orders hok
    refine ⟨?_, le_rfl, fun p hp => ⟨?_, hc p hp⟩, hs.nodup, hs.orders⟩ <;> simp only [next, hst]
    · rw [hid]
      omega
    · exact (hs.ids p hp).1

/-- One restart. -/
theorem continues_iff_unbroken (hs : Inv s) {ev : XtEvent} (hok : Ok s ev) :
    s.Continues ev ↔ s.Unbroken ev := by
  cases ev with
  | restart details deals =>
    obtain ⟨n, hid, -, hle, hall⟩ := size_restart deals hs.orders hok
    have hlen : (s.known.map (·.1)).length = s.known.length := List.length_map _
    have hge : ∀ x ∈ s.known.map (·.1), s.engine.requestIdStart ≤ x := by
      intro x hx
      obtain ⟨p, hp, rfl⟩ := List.mem_map.mp hx
      exact (hs.ids p hp).1
    have hiff := forall_lt_add_iff hs.nodup hge (hlen.symm ▸ hle)
    rw [hlen, hall] at hiff
    simp only [Continues, Unbroken, hid]
    simpa only [List.forall_mem_map] using hiff
  | _ => exact Iff.rfl

/-- **Restarts and request ids.** In every run of a trading day each restarted
engine continues past every id whose order the front knows exactly when no
restart finds an order of the front without a track or a gap below its id. -/
theorem continues_iff {s0 : XtDay} (h0 : (sys info).start s0) {es : List XtEvent}
    (he : (sys info).Admits s0 es) :
    AtEach (fun pre ev => Continues ((sys info).exec s0 pre) ev) es ↔
      AtEach (fun pre ev => Unbroken ((sys info).exec s0 pre) ev) es := by
  have hboth : (AtEach (fun pre ev => Continues ((sys info).exec s0 pre) ev) es ↔
      AtEach (fun pre ev => Unbroken ((sys info).exec s0 pre) ev) es) ∧
      (AtEach (fun pre ev => Continues ((sys info).exec s0 pre) ev) es →
        Inv ((sys info).exec s0 es)) := by
    induction es using List.reverseRecOn with
    | nil => exact ⟨iff_of_true (atEach_nil _) (atEach_nil _), fun _ => inv_start h0⟩
    | append_singleton es ev ih =>
      obtain ⟨ha, hok, -⟩ := ((sys info).admits_append s0 es [ev]).mp he
      obtain ⟨hiff, hinv⟩ := ih ha
      rw [atEach_concat, atEach_concat, (sys info).exec_append]
      refine ⟨?_, fun h => inv_next (hinv h.1) hok h.2⟩
      rw [← hiff]
      exact and_congr_right fun h => continues_iff_unbroken (hinv h) hok
  exact hboth.1

def xtStart : XtDay := ⟨{ accountUnits := [⟨1, 1⟩] }, [], 1⟩

def xtBuy : IOInputOrderField := ⟨7, 1, 0, 1, "rb1810", 100, 2, .buy, .opn, 1⟩

/-- The front's order 77. -/
def xtDetails : List (Int × OrderDetail) :=
  [(0, ⟨77, .reported, 50, "", "rb1810", 100, 2, true, 0⟩)]

/-- One order, and a restart. -/
def takenFirst : List XtEvent :=
  [.insert xtBuy 0, .take 1 77, .callback (.order 1 77 none), .restart xtDetails []]

theorem continues_takenFirst :
    AtEach (fun pre ev => Continues ((sys .rb).exec xtStart pre) ev) takenFirst ↔
      AtEach (fun pre ev => Unbroken ((sys .rb).exec xtStart pre) ev) takenFirst := by
  refine continues_iff ⟨rfl, rfl, rfl⟩ ⟨trivial, ?_, List.mem_singleton_self _, fun _ => Iff.rfl,
    trivial⟩
  exact ⟨le_rfl, show (1 : Int) < 2 by decide, List.not_mem_nil, List.not_mem_nil⟩

/-- The first order fails, the second is taken; the restarted engine counts one
order and issues id 2 again. -/
def failedFirst : List XtEvent :=
  [.insert xtBuy 0, .insert xtBuy 0, .callback (.order 1 0 (some ⟨26, "no"⟩)), .take 2 77,
    .callback (.order 2 77 none), .restart xtDetails []]

theorem not_continues_failedFirst : (sys .rb).start xtStart ∧ (sys .rb).Admits xtStart failedFirst ∧
    ¬AtEach (fun pre ev => Continues ((sys .rb).exec xtStart pre) ev) failedFirst := by
  have hadm : (sys .rb).Admits xtStart failedFirst := by
    refine ⟨trivial, trivial, trivial, ?_, List.mem_singleton_self _, fun _ => Iff.rfl, trivial⟩
    exact ⟨by decide, by decide, List.not_mem_nil, List.not_mem_nil⟩
  refine ⟨⟨rfl, rfl, rfl⟩, hadm, fun h => ?_⟩
  let s := (sys .rb).exec xtStart (failedFirst.take 5)
  have hc : s.Continues (.restart xtDetails []) := h (failedFirst.take 5) _ [] rfl
  rw [continues_restart] at hc
  have hknown : s.known = [(2, 77)] := rfl
  have hok : Ok s (.restart xtDetails []) := fun _ => Iff.rfl
  obtain ⟨n, hid, -, hle, -⟩ := size_restart [] (by rw [hknown]; decide) hok
  have hlt := hc (2, 77) (by rw [hknown]; exact List.mem_singleton_self _)
  have hstart : s.engine.requestIdStart = 1 := rfl
  rw [hknown, List.length_singleton] at hle
  rw [hid, hstart] at hlt
  dsimp only at hlt
  omega

end XtDay

end NatFramework.Td
