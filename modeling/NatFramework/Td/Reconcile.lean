import Mathlib.Algebra.BigOperators.Group.Finset.Basic
import NatFramework.Td.CtpQuery

/-!
# What a restarted CTP engine makes of the front's report

After the queries every track goes through `AccBase::onOrderTrack`. The volumes
and amounts in the tracks are the front's; the status bits that say what to do
with them are those the last process left, since `OnRspQryOrder` merges none.

* `Reconciled`: the account holds what the front reports.
* `reading_replay`: what the replay adds up to, order by order.
* `reconciled_iff`: it is what the front reports exactly when every order with a
  fill has the `EXECUTION` bit, and the `CLOSED` bits leave pending what the
  front reports as working.
-/
namespace NatFramework.Account

open Lib AccBase Posting

/-! ## Readings of an effect -/

/-- The volumes without the pending ones. -/
def UnitVol.position : UnitVol →+ UnitVol where
  toFun u :=
    { u with
      posLongYdClsIng := 0, posLongTdClsIng := 0, posLongTdOpnIng := 0, posShortYdClsIng := 0
      posShortTdClsIng := 0, posShortTdOpnIng := 0 }
  map_zero' := rfl
  map_add' u v := by ext <;> simp

/-- The position after `v` lots of a leg. -/
def Leg.filled (v : Int) : Leg → UnitVol
  | .longOpn => { posLongTd := v, posLong := v, posBuy := v }
  | .shortYdCls => { posShortYd := -v, posShort := -v, posBuy := v }
  | .shortTdCls => { posShortTd := -v, posShort := -v, posBuy := v }
  | .shortOpn => { posShortTd := v, posShort := v, posSell := v }
  | .longYdCls => { posLongYd := -v, posLong := -v, posSell := v }
  | .longTdCls => { posLongTd := -v, posLong := -v, posSell := v }

theorem Leg.filled_zero (g : Leg) : g.filled 0 = 0 := by cases g <;> rfl

theorem UnitVol.position_ing (g : Leg) (v : Int) : (g.ing v).position = 0 := by cases g <;> rfl

theorem UnitVol.position_trd (g : Leg) (v : Int) : (g.trd v).position = g.filled v := by
  cases g <;> rfl

def Effect.volHom : Effect →+ UnitVol where
  toFun := Effect.vol
  map_zero' := rfl
  map_add' _ _ := rfl

def Effect.amtHom : Effect →+ UnitAmt where
  toFun := Effect.amt
  map_zero' := rfl
  map_add' _ _ := rfl

/-- The lots a replayed track leaves pending. -/
def leftPending (t : OrderTrack) : Int :=
  (if hasAny t.status (ods .send ||| ods .tdSend) then t.vol else 0) -
    (if t.status.has .closed then t.vol - t.volTraded else 0) -
      if t.status.has .execution then t.volTraded else 0

section Track

variable (vm : Int) (t : OrderTrack)

theorem position_trackEffect : (trackEffect vm t).vol.position =
    if t.status.has .execution then (Leg.of t.dir t.off).elim 0 (·.filled t.volTraded) else 0 := by
  have hing : ∀ v : Int, (ingOf t.dir t.off v).position = 0 := by
    intro v
    unfold ingOf
    cases Leg.of t.dir t.off with
    | none => rfl
    | some g => exact UnitVol.position_ing g v
  have htrd : ∀ v : Int, (trdOf t.dir t.off v).position =
      (Leg.of t.dir t.off).elim 0 (·.filled v) := by
    intro v
    unfold trdOf
    cases Leg.of t.dir t.off with
    | none => rfl
    | some g => exact UnitVol.position_trd g v
  unfold trackEffect
  rw [Effect.add_vol, Effect.add_vol, map_add, map_add]
  have h1 : (if hasAny t.status (ods .send ||| ods .tdSend) then
      Effect.new vm t.dir t.off t.price t.vol else 0).vol.position = 0 := by
    split
    · exact hing _
    · rfl
  have h2 : (if t.status.has .closed && t.vol != t.volTraded then
      Effect.cxl vm t.dir t.off t.price (t.vol - t.volTraded) else 0).vol.position = 0 := by
    split
    · exact hing _
    · rfl
  rw [h1, h2, zero_add, zero_add]
  split
  · exact htrd _
  · rfl

theorem pendVol_trackEffect (g : Leg) : g.pendVol (trackEffect vm t).vol =
    if Leg.of t.dir t.off = some g then leftPending t else 0 := by
  unfold trackEffect leftPending
  rw [Effect.add_vol, Effect.add_vol, map_add, map_add]
  have h1 : g.pendVol (if hasAny t.status (ods .send ||| ods .tdSend) then
      Effect.new vm t.dir t.off t.price t.vol else 0).vol =
        if Leg.of t.dir t.off = some g then
          if hasAny t.status (ods .send ||| ods .tdSend) then t.vol else 0
        else 0 := by
    split
    · exact Leg.pendVol_ingOf ..
    · rw [ite_self]
      exact map_zero _
  have h2 : g.pendVol (if t.status.has .closed && t.vol != t.volTraded then
      Effect.cxl vm t.dir t.off t.price (t.vol - t.volTraded) else 0).vol =
        if Leg.of t.dir t.off = some g then
          -(if t.status.has .closed then t.vol - t.volTraded else 0)
        else 0 := by
    by_cases hc : t.status.has .closed = true
    · by_cases hv : t.vol = t.volTraded
      · simp [hc, hv]
      · rw [if_pos (by simp [hc, hv]), if_pos hc]
        exact Leg.pendVol_ingOf ..
    · rw [if_neg (by simp [hc]), if_neg hc, neg_zero, ite_self]
      exact map_zero _
  have h3 : g.pendVol (if t.status.has .execution then
      Effect.trd vm t.dir t.off t.price (t.vol = t.volTraded) t.volTraded
        ((if 0 = t.volTraded then 0 else t.amountTraded / t.volTraded) * t.volTraded)
      else 0).vol = if Leg.of t.dir t.off = some g then
        -(if t.status.has .execution then t.volTraded else 0) else 0 := by
    split
    · exact Leg.pendVol_trdOf ..
    · rw [neg_zero, ite_self]
      exact map_zero _
  rw [h1, h2, h3]
  split
  · ring
  · rfl

/-- The amount bought or sold. -/
def turnover (buy : Bool) : UnitAmt →+ ℚ where
  toFun u := if buy then u.amtBuy else u.amtSell
  map_zero' := by cases buy <;> rfl
  map_add' u v := by cases buy <;> rfl

def sideOf (buy : Bool) : Dir := if buy then .buy else .sell

theorem turnover_amtTrd (buy : Bool) (dir : Dir) (x : ℚ) :
    turnover buy (amtTrd dir x) = if dir = sideOf buy then x else 0 := by
  cases buy <;> cases dir <;> simp [turnover, amtTrd, sideOf]

theorem turnover_amtIngOf (buy : Bool) (dir : Dir) (off : Off) (x : ℚ) :
    turnover buy (amtIngOf dir off x) = 0 := by
  unfold amtIngOf
  cases Leg.of dir off with
  | none => exact map_zero _
  | some g => cases buy <;> cases g <;> rfl

theorem turnover_trackEffect (buy : Bool) : turnover buy (trackEffect vm t).amt =
    if t.status.has .execution ∧ t.dir = sideOf buy then
      (if t.volTraded = 0 then 0 else t.amountTraded) * vm
    else 0 := by
  have hamt : (if 0 = t.volTraded then 0 else t.amountTraded / t.volTraded) * (t.volTraded : ℚ) =
      if t.volTraded = 0 then 0 else t.amountTraded := by
    by_cases hv : t.volTraded = 0
    · rw [if_pos hv, hv, Int.cast_zero, mul_zero]
    · rw [if_neg (Ne.symm hv), if_neg hv, div_mul_cancel₀ _ (Int.cast_ne_zero.mpr hv)]
  unfold trackEffect
  rw [Effect.add_amt, Effect.add_amt, map_add, map_add, hamt]
  have h1 : turnover buy (if hasAny t.status (ods .send ||| ods .tdSend) then
      Effect.new vm t.dir t.off t.price t.vol else 0).amt = 0 := by
    split
    · exact turnover_amtIngOf ..
    · exact map_zero _
  have h2 : turnover buy (if t.status.has .closed && t.vol != t.volTraded then
      Effect.cxl vm t.dir t.off t.price (t.vol - t.volTraded) else 0).amt = 0 := by
    split
    · exact turnover_amtIngOf ..
    · exact map_zero _
  rw [h1, h2, zero_add, zero_add]
  by_cases hx : t.status.has .execution = true
  · rw [if_pos hx]
    simp only [hx, true_and]
    unfold Effect.trd
    rw [map_add, turnover_amtIngOf, zero_add, turnover_amtTrd]
  · rw [if_neg hx, if_neg fun h => hx h.1]
    exact map_zero _

end Track

/-- What a reading makes of the postings of tracks. -/
theorem reading_postings {M : Type} [AddCommMonoid M] (f : Effect →+ M) {info : TradeBaseInfo}
    {h : Hash} {i : InstrumentInfo} (hi : info.find h = some i) (ts : List OrderTrack) :
    f (sumAt h (postings info ts)) =
      (ts.map fun t => if t.instrHash = h then f (trackEffect i.volMultiple t) else 0).sum := by
  unfold sumAt postings
  rw [List.map_map, map_list_sum, List.map_map]
  refine congrArg List.sum (List.map_congr_left fun t _ => ?_)
  by_cases ht : t.instrHash = h
  · simp [ht, hi]
  · simp [ht]

end NatFramework.Account

namespace NatFramework.Td

open Lib Account AccBase Posting CtpEngine

/-! ## The front's report -/

/-- The order may still trade: `OnRtnOrder` closes it on none of these. -/
def OrderStatus.working : OrderStatus → Bool
  | .allTraded | .canceled | .partTradedNotQueueing => false
  | _ => true

/-- The lots that may still trade. -/
def QryOrderField.remainder (p : QryOrderField) : Int :=
  if p.orderStatus.working then p.volumeTotalOriginal - p.volumeTraded else 0

/-- The amount of the trades reported for the order. -/
def QryOrderField.amount (l' : List QryTradeField) (p : QryOrderField) : ℚ :=
  ((l'.filter (·.ref = p.ref)).map QryTradeField.amount).sum

section Report

variable (info : TradeBaseInfo) (e : CtpEngine) (l : List (Int × QryOrderField))
  (l' : List QryTradeField)

/-- The instrument, and the leg: the offset is the one of the track. -/
def QryOrderField.hash (p : QryOrderField) : Hash := e.nameHash p.instrumentId

def QryOrderField.leg (p : QryOrderField) : Option Leg :=
  Leg.of p.direction (e.getRequestTrack p.ref).off

/-- The account has a place for the order. -/
def QryOrderField.Placed (p : QryOrderField) : Prop :=
  (info.find (p.hash e)).isSome = true ∧ (p.leg e).isSome = true

/-- Besides what the loaded account `a0` holds, the account `a` holds what the
front reports: each order's fills as position, its remainder as pending. -/
structure Reconciled (a0 a : AccBase) : Prop where
  placed : ∀ x ∈ l, x.2.volumeTraded ≠ 0 ∨ x.2.remainder ≠ 0 → x.2.Placed info e
  position : ∀ h i, info.find h = some i →
    (a.booksAt h i).instr.unitVol.position = (a0.booksAt h i).instr.unitVol.position +
      (l.map fun x => if x.2.hash e = h then (x.2.leg e).elim 0 (·.filled x.2.volumeTraded)
        else 0).sum
  turnover : ∀ h i, info.find h = some i → ∀ buy : Bool,
    turnover buy (a.booksAt h i).instr.unitAmt = turnover buy (a0.booksAt h i).instr.unitAmt +
      (l.map fun x => if x.2.hash e = h ∧ x.2.direction = sideOf buy then
        x.2.amount l' * (i.volMultiple : ℚ) else 0).sum
  pending : ∀ h i, info.find h = some i → ∀ g : Leg,
    g.pendVol (a.booksAt h i).instr.unitVol = g.pendVol (a0.booksAt h i).instr.unitVol +
      (l.map fun x => if x.2.hash e = h ∧ x.2.leg e = some g then x.2.remainder else 0).sum

/-- A track without an order, or of one that was refused. -/
def Blank (t : OrderTrack) : Prop :=
  t.status.has .execution = false ∧
    hasAny t.status (ods .send ||| ods .tdSend) = t.status.has .closed ∧ t.volTraded = 0

/-- A report of each order once, with all its trades; `e` has just started, its
file holds tracks of these orders and blank ones. -/
structure FrontReport : Prop where
  fresh : e.maxRefId = e.requestIdStart - 1
  refs : (l.map (·.2.ref)).Nodup
  range : ∀ x ∈ l, e.requestIdStart ≤ x.2.ref ∧ x.2.ref < e.requestIdStart + mmapOrderTrackSize
  volumes : ∀ x ∈ l, 0 ≤ x.2.volumeTraded ∧ x.2.volumeTraded ≤ x.2.volumeTotalOriginal
  trades : ∀ t ∈ l', 1 ≤ t.volume ∧ ∃ x ∈ l, t.ref = x.2.ref
  traded : ∀ x ∈ l, ((l'.filter (·.ref = x.2.ref)).map (·.volume)).sum = x.2.volumeTraded
  others : ∀ id, e.requestIdStart ≤ id → id < e.requestIdStart + mmapOrderTrackSize →
    (∀ x ∈ l, x.2.ref ≠ id) → Blank (e.getRequestTrack id)

end Report

/-! ## The tracks that are replayed -/

theorem foldl_max_le_iff {α : Type} {f : α → Int} {l : List α} {m b : Int} :
    l.foldl (fun m x => max m (f x)) m ≤ b ↔ m ≤ b ∧ ∀ x ∈ l, f x ≤ b := by
  induction l generalizing m with
  | nil => simp
  | cons x l ih =>
    rw [List.foldl_cons, ih, max_le_iff, and_assoc, List.forall_mem_cons]

section Tracks

variable {e e' : CtpEngine} {l : List (Int × QryOrderField)} {l' : List QryTradeField}

/-- Within one lap of the array an id has its slot for itself. -/
theorem slot_inj {i j s : Int} (hi : s ≤ i ∧ i < s + mmapOrderTrackSize)
    (hj : s ≤ j ∧ j < s + mmapOrderTrackSize) : slot i = slot j ↔ i = j := by
  unfold mmapOrderTrackSize at hi hj
  rw [slot_eq_iff]
  omega

namespace FrontReport

theorem slots (hf : FrontReport e l l') : (l.map fun x => slot x.2.ref).Nodup := by
  have hmap : (l.map fun x => slot x.2.ref) = (l.map (·.2.ref)).map slot := by
    rw [List.map_map]
    rfl
  rw [hmap]
  refine List.Nodup.map_on (fun i hi j hj h => ?_) hf.refs
  obtain ⟨x, hx, rfl⟩ := List.mem_map.mp hi
  obtain ⟨y, hy, rfl⟩ := List.mem_map.mp hj
  exact (slot_inj (hf.range x hx) (hf.range y hy)).mp h

theorem tradedAmount_slot (hf : FrontReport e l l') {id : Int}
    (hid : e.requestIdStart ≤ id ∧ id < e.requestIdStart + mmapOrderTrackSize) :
    tradedAmount l' (slot id) = ((l'.filter (·.ref = id)).map QryTradeField.amount).sum := by
  have hfilter : l'.filter (slot ·.ref = slot id) = l'.filter (·.ref = id) := by
    refine List.filter_congr fun t ht => ?_
    obtain ⟨-, x, hx, hxt⟩ := hf.trades t ht
    rw [decide_eq_decide, hxt]
    exact slot_inj (hf.range x hx) hid
  unfold tradedAmount
  rw [hfilter]

/-- The track of a reported order. -/
theorem track_reported (hf : FrontReport e l l') (hr : Restored e l l' e')
    {x : Int × QryOrderField} (hx : x ∈ l) :
    e'.getRequestTrack x.2.ref =
      { x.2.merged e.nameHash x.1 (e.getRequestTrack x.2.ref) with amountTraded := x.2.amount l' } := by
  unfold Engine.getRequestTrack
  rw [hr.track, writes_of_nodup hf.slots hx, hf.tradedAmount_slot (hf.range x hx)]
  rfl

theorem blank_other (hf : FrontReport e l l') (hr : Restored e l l' e') {id : Int}
    (hid : e.requestIdStart ≤ id ∧ id < e.requestIdStart + mmapOrderTrackSize)
    (hno : ∀ x ∈ l, x.2.ref ≠ id) : Blank (e'.getRequestTrack id) := by
  have hslot : ∀ x ∈ l, slot x.2.ref ≠ slot id := fun x hx h =>
    hno x hx ((slot_inj (hf.range x hx) hid).mp h)
  unfold Engine.getRequestTrack
  rw [hr.track, writes_of_not_mem hslot]
  exact hf.others id hid.1 hid.2 hno

/-- The tracks are those of the reported orders, and blank ones. -/
theorem sum_usedTracks (hf : FrontReport e l l') (hr : Restored e l l' e') {M : Type}
    [AddCommMonoid M] (f : OrderTrack → M) (h0 : ∀ t, Blank t → f t = 0) :
    (e'.usedTracks.map f).sum = (l.map fun x => f (e'.getRequestTrack x.2.ref)).sum := by
  have hmax := foldl_max_le_iff (f := fun x : Int × QryOrderField => x.2.ref) (l := l)
    (m := e.maxRefId) (b := e'.requestId - 1)
  rw [hr.requestId, add_sub_cancel_right] at hmax
  obtain ⟨hstart, hbelow⟩ := hmax.mp le_rfl
  have hspan : e'.requestId ≤ e.requestIdStart + mmapOrderTrackSize := by
    have hle := foldl_max_le_iff (f := fun x : Int × QryOrderField => x.2.ref) (l := l)
      (m := e.maxRefId) (b := e.requestIdStart + mmapOrderTrackSize - 1)
    have hb := hle.mpr ⟨by rw [hf.fresh]; unfold mmapOrderTrackSize; omega,
      fun x hx => by have := (hf.range x hx).2; omega⟩
    rw [hr.requestId]
    omega
  let ids := (List.range (e'.requestId - e'.requestIdStart).toNat).map fun k : Nat =>
    e'.requestIdStart + (k : Int)
  have hids : ids.Nodup := List.nodup_range.map fun a b h => by
    have h' : e'.requestIdStart + (a : Int) = e'.requestIdStart + (b : Int) := h
    omega
  have hmem : ∀ id, id ∈ ids ↔ e.requestIdStart ≤ id ∧ id < e'.requestId := by
    intro id
    rw [List.mem_map, hr.start]
    constructor
    · rintro ⟨k, hk, rfl⟩
      rw [List.mem_range] at hk
      omega
    · rintro ⟨h1, h2⟩
      exact ⟨(id - e.requestIdStart).toNat, List.mem_range.mpr (by omega), by omega⟩
  have hused : e'.usedTracks = ids.map e'.getRequestTrack := by
    simp [Engine.usedTracks, ids, Function.comp_def, ← List.map_eq_flatMap]
  have hrefs : (l.map fun x => f (e'.getRequestTrack x.2.ref)) =
      (l.map (·.2.ref)).map fun id => f (e'.getRequestTrack id) := by
    rw [List.map_map]
    rfl
  rw [hused, List.map_map, hrefs, ← List.sum_toFinset _ hids, ← List.sum_toFinset _ hf.refs]
  refine (Finset.sum_subset (fun id hid => ?_) fun id hid hno => ?_).symm
  · obtain ⟨x, hx, rfl⟩ := List.mem_map.mp (List.mem_toFinset.mp hid)
    rw [List.mem_toFinset, hmem, hr.requestId]
    have h1 := (hf.range x hx).1
    have h2 := hbelow x hx
    omega
  · obtain ⟨h1, h2⟩ := (hmem id).mp (List.mem_toFinset.mp hid)
    refine h0 _ (hf.blank_other hr ⟨h1, by omega⟩ fun x hx hxid => hno ?_)
    rw [List.mem_toFinset, ← hxid]
    exact List.mem_map.mpr ⟨x, hx, rfl⟩

/-- What the replay adds up to, order by order. -/
theorem reading_replay (hf : FrontReport e l l') (hr : Restored e l l' e') {M : Type}
    [AddCommMonoid M] (f : Effect →+ M) {info : TradeBaseInfo} {h : Hash} {i : InstrumentInfo}
    (hi : info.find h = some i) (h0 : ∀ t, Blank t → f (trackEffect i.volMultiple t) = 0) :
    f (sumAt h (postings info e'.usedTracks)) =
      (l.map fun x => if x.2.hash e = h then
        f (trackEffect i.volMultiple (e'.getRequestTrack x.2.ref)) else 0).sum := by
  rw [reading_postings f hi, hf.sum_usedTracks hr]
  · refine congrArg List.sum (List.map_congr_left fun x hx => ?_)
    have hhash : (e'.getRequestTrack x.2.ref).instrHash = x.2.hash e := by
      rw [hf.track_reported hr hx]
      rfl
    rw [hhash]
  · intro t ht
    rw [h0 t ht, ite_self]

end FrontReport

end Tracks

/-! ## Blank tracks -/

section Blank

variable {t : OrderTrack} (vm : Int)

theorem Blank.position (h : Blank t) : (trackEffect vm t).vol.position = 0 := by
  rw [position_trackEffect, h.1]
  rfl

theorem Blank.pendVol (h : Blank t) (g : Leg) : g.pendVol (trackEffect vm t).vol = 0 := by
  obtain ⟨h1, h2, h3⟩ := h
  rw [pendVol_trackEffect]
  unfold leftPending
  rw [h1, h2, h3]
  split
  · split <;> simp
  · rfl

theorem Blank.turnover (h : Blank t) (buy : Bool) : turnover buy (trackEffect vm t).amt = 0 := by
  rw [turnover_trackEffect, h.1]
  simp

end Blank

/-! ## The report and the account -/

section Report

variable {info : TradeBaseInfo} {e e' : CtpEngine} {l : List (Int × QryOrderField)}
  {l' : List QryTradeField} {a0 : AccBase} {h : Hash} {i : InstrumentInfo}

/-- The status the last process left of an order. -/
def QryOrderField.left (e : CtpEngine) (p : QryOrderField) : Status :=
  (e.getRequestTrack p.ref).status

/-- The lots that the replay leaves pending of an order with its fills booked. -/
def QryOrderField.kept (e : CtpEngine) (p : QryOrderField) : Int :=
  (if hasAny (p.left e) (ods .send ||| ods .tdSend) then p.volumeTotalOriginal else 0) -
    (if (p.left e).has .closed then p.volumeTotalOriginal - p.volumeTraded else 0) - p.volumeTraded

/-- The account holds what the replay adds up to. -/
theorem reads_replay (hv : info.VolMultiplesOk) (hl : Linked info a0) (hf : FrontReport e l l')
    (hr : Restored e l l' e') (hi : info.find h = some i) :
    (((replay info e'.usedTracks a0).booksAt h i).instr.unitVol.position =
      (a0.booksAt h i).instr.unitVol.position +
        (l.map fun x => if x.2.hash e = h then if (x.2.left e).has .execution then
          (x.2.leg e).elim 0 (·.filled x.2.volumeTraded) else 0 else 0).sum) ∧
    (∀ g : Leg, g.pendVol ((replay info e'.usedTracks a0).booksAt h i).instr.unitVol =
      g.pendVol (a0.booksAt h i).instr.unitVol +
        (l.map fun x => if x.2.hash e = h then if x.2.leg e = some g then
          leftPending (e'.getRequestTrack x.2.ref) else 0 else 0).sum) ∧
    ∀ buy, turnover buy ((replay info e'.usedTracks a0).booksAt h i).instr.unitAmt =
      turnover buy (a0.booksAt h i).instr.unitAmt +
        (l.map fun x => if x.2.hash e = h then
          if (x.2.left e).has .execution ∧ x.2.direction = sideOf buy then
            (if x.2.volumeTraded = 0 then 0 else x.2.amount l') * (i.volMultiple : ℚ) else 0
          else 0).sum := by
  have hb : Booked info a0 (postings info e'.usedTracks) (replay info e'.usedTracks a0) := by
    have hrep := booked_replay hv e'.usedTracks (Booked.start hl)
    rwa [List.nil_append] at hrep
  have hm := hb.instr h i hi
  refine ⟨?_, fun g => ?_, fun buy => ?_⟩
  · rw [hm.unitVol, map_add]
    refine congrArg _ ((hf.reading_replay hr (UnitVol.position.comp Effect.volHom) hi
      fun t ht => ht.position _).trans ?_)
    refine congrArg List.sum (List.map_congr_left fun x hx => ?_)
    change (if _ then (trackEffect _ _).vol.position else 0) = _
    rw [position_trackEffect, hf.track_reported hr hx]
    rfl
  · rw [hm.unitVol, map_add]
    refine congrArg _ ((hf.reading_replay hr (g.pendVol.comp Effect.volHom) hi
      fun t ht => ht.pendVol _ g).trans ?_)
    refine congrArg List.sum (List.map_congr_left fun x hx => ?_)
    change (if _ then g.pendVol (trackEffect _ _).vol else 0) = _
    rw [pendVol_trackEffect, hf.track_reported hr hx]
    rfl
  · have hread : ∀ u u' x : UnitAmt, u'.flow = u.flow + x →
        turnover buy u' = turnover buy u + turnover buy x := by
      intro u u' x hu
      have hbuy := congrArg UnitAmt.amtBuy hu
      have hsell := congrArg UnitAmt.amtSell hu
      cases buy
      · exact hsell
      · exact hbuy
    rw [hread _ _ _ hm.unitAmt]
    refine congrArg _ ((hf.reading_replay hr ((turnover buy).comp Effect.amtHom) hi
      fun t ht => ht.turnover _ buy).trans ?_)
    refine congrArg List.sum (List.map_congr_left fun x hx => ?_)
    change (if _ then turnover buy (trackEffect _ _).amt else 0) = _
    rw [turnover_trackEffect, hf.track_reported hr hx]
    rfl

/-- The lots bought or sold. -/
def lots (buy : Bool) : UnitVol →+ Int where
  toFun u := if buy then u.posBuy else u.posSell
  map_zero' := by cases buy <;> rfl
  map_add' u v := by cases buy <;> rfl

theorem lots_filled (buy : Bool) (v : Int) (g : Leg) :
    lots buy (g.filled v) = if g.isBuy = buy then v else 0 := by
  cases buy <;> cases g <;> rfl

theorem sum_eq_iff {α : Type} {l : List α} {f g : α → Int} :
    (l.map f).sum = (l.map g).sum ↔ (l.map fun x => f x - g x).sum = 0 := by
  have h : (l.map f).sum = (l.map fun x => f x - g x).sum + (l.map g).sum := by
    rw [← List.sum_map_add]
    simp
  rw [h, add_eq_right]

theorem FrontReport.amount_zero (hf : FrontReport e l l') {x : Int × QryOrderField} (hx : x ∈ l)
    (h0 : x.2.volumeTraded = 0) : x.2.amount l' = 0 := by
  have hsum := hf.traded x hx
  rw [h0] at hsum
  have hnil : l'.filter (·.ref = x.2.ref) = [] := by
    by_contra hne
    obtain ⟨t, ht⟩ := List.exists_mem_of_ne_nil _ hne
    have hpos : ∀ v ∈ (l'.filter (·.ref = x.2.ref)).map (·.volume), 0 ≤ v := by
      intro v hv
      obtain ⟨t', ht', rfl⟩ := List.mem_map.mp hv
      have := (hf.trades t' (List.mem_of_mem_filter ht')).1
      omega
    have hz := List.all_zero_of_le_zero_le_of_sum_eq_zero hpos hsum (List.mem_map_of_mem ht)
    have := (hf.trades t (List.mem_of_mem_filter ht)).1
    omega
  unfold QryOrderField.amount
  rw [hnil]
  rfl

/-- With its fills booked, an order keeps `kept` lots pending. -/
theorem leftPending_eq (hf : FrontReport e l l') (hr : Restored e l l' e') {x : Int × QryOrderField}
    (hx : x ∈ l) (hb : x.2.volumeTraded ≠ 0 → (x.2.left e).has .execution = true) :
    leftPending (e'.getRequestTrack x.2.ref) = x.2.kept e := by
  have hexec : (if (x.2.left e).has .execution then x.2.volumeTraded else 0) = x.2.volumeTraded := by
    by_cases h0 : x.2.volumeTraded = 0
    · rw [h0, ite_self]
    · rw [if_pos (hb h0)]
  rw [hf.track_reported hr hx]
  exact congrArg (_ - _ - ·) hexec

/-- An order whose fills the account has. -/
theorem has_execution_of_position (hf : FrontReport e l l')
    (hpos : (l.map fun x => if x.2.hash e = h then if (x.2.left e).has .execution then
        (x.2.leg e).elim 0 (·.filled x.2.volumeTraded) else 0 else 0).sum =
      (l.map fun x => if x.2.hash e = h then (x.2.leg e).elim 0 (·.filled x.2.volumeTraded)
        else 0).sum) {x : Int × QryOrderField} (hx : x ∈ l) (hh : x.2.hash e = h) {g : Leg}
    (hg : x.2.leg e = some g) (h0 : x.2.volumeTraded ≠ 0) :
    (x.2.left e).has .execution = true := by
  have hlots := congrArg (lots g.isBuy) hpos
  rw [map_list_sum, map_list_sum, List.map_map, List.map_map, eq_comm, sum_eq_iff] at hlots
  -- what is missing of an order is never negative
  have hmiss : ∀ y ∈ l, lots g.isBuy (if y.2.hash e = h then
      (y.2.leg e).elim 0 (·.filled y.2.volumeTraded) else 0) -
        lots g.isBuy (if y.2.hash e = h then if (y.2.left e).has .execution then
          (y.2.leg e).elim 0 (·.filled y.2.volumeTraded) else 0 else 0) =
      if y.2.hash e = h ∧ (y.2.left e).has .execution = false ∧
        (y.2.leg e).any (·.isBuy = g.isBuy) = true then y.2.volumeTraded else 0 := by
    intro y hy
    by_cases hyh : y.2.hash e = h
    · simp only [hyh, if_true, true_and]
      cases y.2.leg e with
      | none => simp
      | some g' =>
        by_cases hex : (y.2.left e).has .execution = true
        · simp [hex]
        · rw [if_neg hex]
          simp [hex, lots_filled]
    · simp [hyh]
  have hz := List.all_zero_of_le_zero_le_of_sum_eq_zero (fun v hv => ?_) hlots
    (List.mem_map_of_mem hx)
  · by_contra hno
    have hx0 := (hmiss x hx).symm.trans hz
    rw [if_pos ⟨hh, by simpa using hno, by simp [hg]⟩] at hx0
    exact h0 hx0
  · obtain ⟨y, hy, rfl⟩ := List.mem_map.mp hv
    have hnonneg := (hf.volumes y hy).1
    change 0 ≤ lots g.isBuy _ - lots g.isBuy _
    rw [hmiss y hy]
    split
    · exact hnonneg
    · exact le_rfl

/-- The account and the report, after both queries. -/
theorem reconciled_restored_iff (hv : info.VolMultiplesOk) (hl : Linked info a0)
    (hf : FrontReport e l l') (hr : Restored e l l' e') :
    Reconciled info e l l' a0 (replay info e'.usedTracks a0) ↔
      (∀ x ∈ l, x.2.volumeTraded ≠ 0 ∨ x.2.remainder ≠ 0 → x.2.Placed info e) ∧
        (∀ x ∈ l, x.2.volumeTraded ≠ 0 → (x.2.left e).has .execution = true) ∧
          ∀ h i, info.find h = some i → ∀ g : Leg,
            (l.map fun x => (if x.2.hash e = h ∧ x.2.leg e = some g then x.2.kept e else 0) -
              if x.2.hash e = h ∧ x.2.leg e = some g then x.2.remainder else 0).sum = 0 := by
  -- with the fills booked, what is left pending is `kept`
  have hpend : (∀ x ∈ l, x.2.volumeTraded ≠ 0 → (x.2.left e).has .execution = true) →
      ∀ (h : Hash) (g : Leg), (l.map fun x => if x.2.hash e = h then if x.2.leg e = some g then
        leftPending (e'.getRequestTrack x.2.ref) else 0 else 0).sum =
          (l.map fun x => if x.2.hash e = h ∧ x.2.leg e = some g then x.2.kept e else 0).sum := by
    intro hb h g
    refine congrArg List.sum (List.map_congr_left fun x hx => ?_)
    rw [leftPending_eq hf hr hx (hb x hx), ite_and]
  constructor
  · intro hrec
    have hb : ∀ x ∈ l, x.2.volumeTraded ≠ 0 → (x.2.left e).has .execution = true := by
      intro x hx h0
      obtain ⟨hknown, hleg⟩ := hrec.placed x hx (Or.inl h0)
      obtain ⟨i, hi⟩ := Option.isSome_iff_exists.mp hknown
      obtain ⟨g, hg⟩ := Option.isSome_iff_exists.mp hleg
      have hpos := hrec.position _ i hi
      rw [(reads_replay hv hl hf hr hi).1, add_right_inj] at hpos
      exact has_execution_of_position hf hpos hx rfl hg h0
    refine ⟨hrec.placed, hb, fun h i hi g => ?_⟩
    have hp := hrec.pending h i hi g
    rw [(reads_replay hv hl hf hr hi).2.1 g, add_right_inj, hpend hb] at hp
    exact sum_eq_iff.mp hp
  · rintro ⟨hplaced, hb, hsum⟩
    refine ⟨hplaced, fun h i hi => ?_, fun h i hi buy => ?_, fun h i hi g => ?_⟩
    · rw [(reads_replay hv hl hf hr hi).1, add_right_inj]
      refine congrArg List.sum (List.map_congr_left fun x hx => ?_)
      by_cases h0 : x.2.volumeTraded = 0
      · rw [h0]
        cases x.2.leg e with
        | none => simp
        | some g => simp [Leg.filled_zero]
      · rw [if_pos (hb x hx h0)]
    · rw [(reads_replay hv hl hf hr hi).2.2 buy, add_right_inj]
      refine congrArg List.sum (List.map_congr_left fun x hx => ?_)
      by_cases h0 : x.2.volumeTraded = 0
      · rw [hf.amount_zero hx h0]
        simp
      · simp only [hb x hx h0, h0, true_and, if_false]
        rw [ite_and]
    · rw [(reads_replay hv hl hf hr hi).2.1 g, add_right_inj, hpend hb]
      exact sum_eq_iff.mpr (hsum h i hi g)

/-- The track says that the order was sent, and is not closed while the front
still works on it. -/
def QryOrderField.Behind (e : CtpEngine) (p : QryOrderField) : Prop :=
  hasAny (p.left e) (ods .send ||| ods .tdSend) = true ∧
    ((p.left e).has .closed = true → p.orderStatus.working = false)

/-- Nothing of the order stays pending that the front does not work on. -/
def QryOrderField.Released (e : CtpEngine) (p : QryOrderField) : Prop :=
  p.volumeTotalOriginal = p.volumeTraded ∨ (p.left e).has .closed = true ∨
    p.orderStatus.working = true

/-- An order behind the front keeps too much pending or the right amount. -/
theorem kept_sub_remainder {p : QryOrderField} (hp : p.Behind e)
    (hle : p.volumeTraded ≤ p.volumeTotalOriginal) :
    0 ≤ p.kept e - p.remainder ∧ (p.kept e - p.remainder = 0 ↔ p.Released e) := by
  obtain ⟨hsent, hclosed⟩ := hp
  unfold QryOrderField.kept QryOrderField.remainder QryOrderField.Released
  rw [hsent]
  by_cases hc : (p.left e).has .closed = true
  · simp [hc, hclosed hc]
  · by_cases hw : p.orderStatus.working = true
    · simp [hc, hw]
    · simp only [hc, hw, if_true, Bool.false_eq_true, if_false, or_false]
      omega

theorem released_iff (hf : FrontReport e l l') (hback : ∀ x ∈ l, x.2.Behind e) :
    (∀ h i, info.find h = some i → ∀ g : Leg,
      (l.map fun x => (if x.2.hash e = h ∧ x.2.leg e = some g then x.2.kept e else 0) -
        if x.2.hash e = h ∧ x.2.leg e = some g then x.2.remainder else 0).sum = 0) ↔
      ∀ x ∈ l, x.2.Placed info e → x.2.Released e := by
  have hterm : ∀ (h : Hash) (g : Leg), ∀ x ∈ l,
      0 ≤ (if x.2.hash e = h ∧ x.2.leg e = some g then x.2.kept e else 0) -
        if x.2.hash e = h ∧ x.2.leg e = some g then x.2.remainder else 0 := by
    intro h g x hx
    split
    · exact (kept_sub_remainder (hback x hx) (hf.volumes x hx).2).1
    · exact le_rfl
  constructor
  · rintro hsum x hx ⟨hknown, hleg⟩
    obtain ⟨i, hi⟩ := Option.isSome_iff_exists.mp hknown
    obtain ⟨g, hg⟩ := Option.isSome_iff_exists.mp hleg
    have hz := List.all_zero_of_le_zero_le_of_sum_eq_zero (fun v hv => ?_) (hsum _ i hi g)
      (List.mem_map_of_mem hx)
    · rw [if_pos ⟨rfl, hg⟩, if_pos ⟨rfl, hg⟩] at hz
      exact (kept_sub_remainder (hback x hx) (hf.volumes x hx).2).2.mp hz
    · obtain ⟨y, hy, rfl⟩ := List.mem_map.mp hv
      exact hterm _ g y hy
  · intro hall h i hi g
    refine List.sum_eq_zero fun v hv => ?_
    obtain ⟨x, hx, rfl⟩ := List.mem_map.mp hv
    by_cases hx' : x.2.hash e = h ∧ x.2.leg e = some g
    · obtain ⟨rfl, hg⟩ := hx'
      rw [if_pos ⟨rfl, hg⟩, if_pos ⟨rfl, hg⟩]
      refine (kept_sub_remainder (hback x hx) (hf.volumes x hx).2).2.mpr (hall x hx ⟨?_, ?_⟩)
      · rw [hi]
        rfl
      · rw [hg]
        rfl
    · rw [if_neg hx', if_neg hx', sub_zero]

/-- **Restart reconciliation.** On the trading day of the track file, the queries
and the replay leave in the account what the front reports exactly when every
order with something to hold has a place, every order with a fill has the
`EXECUTION` bit in the track left behind, and on each leg the pending lots are
right in sum; where no track is ahead of the front, exactly when every order the
front does not work on, and did not fill, has the `CLOSED` bit there. -/
theorem reconciled_iff (hv : info.VolMultiplesOk) (hl : Linked info a0) {tradingDay : String}
    {orders : List (QryAnswer QryOrderField)} {trades : List (QryAnswer QryTradeField)}
    (hday : e.trackDay = tradingDay)
    (ho : Addressed QryOrderField.userId QryOrderField.ref e orders)
    (ht : Addressed QryTradeField.userId QryTradeField.ref e trades)
    (hf : FrontReport e (reportedOrders 0 orders) (reportedTrades trades))
    (h : e.updateOrderTrack tradingDay orders trades = (e', true)) :
    (Reconciled info e (reportedOrders 0 orders) (reportedTrades trades) a0
        (replay info e'.usedTracks a0) ↔
      (∀ x ∈ reportedOrders 0 orders,
        x.2.volumeTraded ≠ 0 ∨ x.2.remainder ≠ 0 → x.2.Placed info e) ∧
      (∀ x ∈ reportedOrders 0 orders,
        x.2.volumeTraded ≠ 0 → (x.2.left e).has .execution = true) ∧
      ∀ h i, info.find h = some i → ∀ g : Leg, ((reportedOrders 0 orders).map fun x =>
        (if x.2.hash e = h ∧ x.2.leg e = some g then x.2.kept e else 0) -
          if x.2.hash e = h ∧ x.2.leg e = some g then x.2.remainder else 0).sum = 0) ∧
    ((∀ x ∈ reportedOrders 0 orders, x.2.Behind e) →
      (Reconciled info e (reportedOrders 0 orders) (reportedTrades trades) a0
          (replay info e'.usedTracks a0) ↔
        (∀ x ∈ reportedOrders 0 orders,
          x.2.volumeTraded ≠ 0 ∨ x.2.remainder ≠ 0 → x.2.Placed info e) ∧
        (∀ x ∈ reportedOrders 0 orders,
          x.2.volumeTraded ≠ 0 → (x.2.left e).has .execution = true) ∧
        ∀ x ∈ reportedOrders 0 orders, x.2.Placed info e → x.2.Released e)) := by
  have hiff := reconciled_restored_iff hv hl hf (restored_of_update hday ho ht h)
  exact ⟨hiff, fun hback => hiff.trans
    (and_congr_right fun _ => and_congr_right fun _ => released_iff hf hback)⟩

end Report

/-! ## A buy of two lots -/

/-- The track that was left: sent, and with the given bits. -/
def rbLeftTrack (status : Status) : OrderTrack :=
  { status := ods .tdSend ||| status, instrHash := 1, instr := "rb1810", price := 10, vol := 2
    dir := .buy, off := .opn, from_ := 7, orderRef := 1 }

def rbLeft (status : Status) : CtpEngine :=
  { requestTrack := Function.update (fun _ => {}) (slot 1) (rbLeftTrack status)
    nameHash := TradeBaseInfo.rb.nameHash, accountUnits := [⟨0, 0⟩], trackDay := "20180926" }

/-- The front reports the buy with some of its lots traded. -/
def reportBuy (orderStatus : OrderStatus) (volumeTraded : Int) : List (QryAnswer QryOrderField) :=
  [{ rsps := [⟨some ⟨0, "1", "rb1810", orderStatus, 10, 2, volumeTraded, .buy, 0, 0⟩, 1, true⟩] }]

def reportLots (volume : Int) : List (QryAnswer QryTradeField) :=
  [{ rsps := [⟨some ⟨0, "1", 9, volume⟩, 2, true⟩] }]

theorem addressed_rb (status : Status) (orderStatus : OrderStatus) (v : Int) :
    Addressed QryOrderField.userId QryOrderField.ref (rbLeft status) (reportBuy orderStatus v) ∧
      Addressed QryTradeField.userId QryTradeField.ref (rbLeft status) (reportLots v) := by
  have href : CString.atoi "1" = 1 := by decide +kernel
  constructor
  · intro a ha r hr
    rw [List.mem_singleton.mp ha] at hr
    rw [List.mem_singleton.mp hr]
    refine ⟨rfl, fun p hp => ?_⟩
    cases hp
    exact ⟨rfl, by rw [QryOrderField.ref, href]; rfl⟩
  · intro a ha r hr
    rw [List.mem_singleton.mp ha] at hr
    rw [List.mem_singleton.mp hr]
    refine ⟨rfl, fun p hp => ?_⟩
    cases hp
    exact ⟨rfl, by rw [QryTradeField.ref, href]; rfl⟩

theorem frontReport_rb (status : Status) (orderStatus : OrderStatus) {v : Int} (hv : 1 ≤ v ∧ v ≤ 2) :
    FrontReport (rbLeft status) (reportedOrders 0 (reportBuy orderStatus v))
      (reportedTrades (reportLots v)) := by
  have href : CString.atoi "1" = 1 := by decide +kernel
  have horders : reportedOrders 0 (reportBuy orderStatus v) =
      [(0, ⟨0, "1", "rb1810", orderStatus, 10, 2, v, .buy, 0, 0⟩)] := rfl
  have htrades : reportedTrades (reportLots v) = [⟨0, "1", 9, v⟩] := rfl
  rw [horders, htrades]
  refine ⟨rfl, List.nodup_singleton _, ?_, ?_, ?_, ?_, ?_⟩
  · simp [QryOrderField.ref, href, rbLeft, mmapOrderTrackSize]
  · simp only [List.mem_singleton, forall_eq]
    omega
  · simp [QryOrderField.ref, QryTradeField.ref, hv.1]
  · simp [QryOrderField.ref, QryTradeField.ref]
  · intro id h1 h2 hno
    have hid : slot id ≠ slot 1 := by
      have hone : (rbLeft status).requestIdStart ≤ 1 ∧
          (1 : Int) < (rbLeft status).requestIdStart + mmapOrderTrackSize := by
        change (1 : Int) ≤ 1 ∧ (1 : Int) < 1 + mmapOrderTrackSize
        decide
      rw [Ne, slot_inj ⟨h1, h2⟩ hone]
      simpa [QryOrderField.ref, href, eq_comm] using hno
    have htrack : (rbLeft status).getRequestTrack id =
        Function.update (fun _ : Int => ({} : OrderTrack)) (slot 1) (rbLeftTrack status) (slot id) :=
      rfl
    rw [htrack, Function.update_of_ne hid]
    exact ⟨rfl, rfl, rfl⟩

/-- One lot was booked before the engine went down, and the front works on the
other. -/
theorem reconciled_rb :
    let e := rbLeft (ods .accept ||| ods .execution)
    let l := reportedOrders 0 (reportBuy .partTradedQueueing 1)
    let l' := reportedTrades (reportLots 1)
    let e' := (e.updateOrderTrack "20180926" (reportBuy .partTradedQueueing 1) (reportLots 1)).1
    (Reconciled .rb e l l' {} (replay .rb e'.usedTracks {}) ↔
      (∀ x ∈ l, x.2.volumeTraded ≠ 0 ∨ x.2.remainder ≠ 0 → x.2.Placed .rb e) ∧
      (∀ x ∈ l, x.2.volumeTraded ≠ 0 → (x.2.left e).has .execution = true) ∧
      ∀ h i, TradeBaseInfo.rb.find h = some i → ∀ g : Leg, (l.map fun x =>
        (if x.2.hash e = h ∧ x.2.leg e = some g then x.2.kept e else 0) -
          if x.2.hash e = h ∧ x.2.leg e = some g then x.2.remainder else 0).sum = 0) ∧
    ((∀ x ∈ l, x.2.Behind e) →
      (Reconciled .rb e l l' {} (replay .rb e'.usedTracks {}) ↔
        (∀ x ∈ l, x.2.volumeTraded ≠ 0 ∨ x.2.remainder ≠ 0 → x.2.Placed .rb e) ∧
        (∀ x ∈ l, x.2.volumeTraded ≠ 0 → (x.2.left e).has .execution = true) ∧
        ∀ x ∈ l, x.2.Placed .rb e → x.2.Released e)) :=
  reconciled_iff TradeBaseInfo.rb_volMultiplesOk linked_empty rfl (addressed_rb _ _ _).1
    (addressed_rb _ .unknown 1).2 (frontReport_rb _ _ (by decide)) (Prod.ext rfl (by decide +kernel))

/-- The order traded, or was cancelled, while the engine was down: its fills are
missing from the position, and its lots stay pending. -/
theorem not_reconciled_rb :
    let e := rbLeft (ods .accept)
    let filled := e.updateOrderTrack "20180926" (reportBuy .allTraded 2) (reportLots 2)
    let cut := e.updateOrderTrack "20180926" (reportBuy .canceled 1) (reportLots 1)
    (filled.2 = true ∧ FrontReport e (reportedOrders 0 (reportBuy .allTraded 2))
        (reportedTrades (reportLots 2)) ∧
      ¬Reconciled .rb e (reportedOrders 0 (reportBuy .allTraded 2)) (reportedTrades (reportLots 2)) {}
        (replay .rb filled.1.usedTracks {})) ∧
    cut.2 = true ∧ FrontReport e (reportedOrders 0 (reportBuy .canceled 1))
        (reportedTrades (reportLots 1)) ∧
      ¬Reconciled .rb e (reportedOrders 0 (reportBuy .canceled 1)) (reportedTrades (reportLots 1)) {}
        (replay .rb cut.1.usedTracks {}) := by
  refine ⟨⟨by decide +kernel, frontReport_rb _ _ (by decide), fun h => ?_⟩, by decide +kernel,
    frontReport_rb _ _ (by decide), fun h => ?_⟩
  · exact absurd (h.position 1 TradeBaseInfo.rb1810 rfl) (by decide +kernel)
  · exact absurd (h.pending 1 TradeBaseInfo.rb1810 rfl .longOpn) (by decide +kernel)

end NatFramework.Td
