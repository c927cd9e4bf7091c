import Mathlib.Algebra.Group.Prod
import NatFramework.Account.Units

/-!
# The order events of one instrument

`account/ModInstr`, `ModPrd`, `ModAcc`: an event of a `ModInstr` writes the
instrument itself and, through `p_prd` and `p_acc`, the product and the
account. `Books` is the three of them as one event sees them; a helper of
`Books` applies one unit event at the levels the source applies it at.

* `Leg`: the six (direction, offset) pairs the switches know; the others only
  log.
* `onNew_vols`, `onCxl_vols`, `onTrd_vols`: what each event adds to the volumes,
  in whatever numbers the amounts are.
* `onNew_eq`, `onCxl_eq`, `onTrd_eq`, `onTickPx_eq`: each event as sums, in exact
  arithmetic.
* `Balanced`: the product and the account move by exactly what the instrument
  moves by, for every event and also for unknown directions and offsets.
-/
namespace NatFramework.Account

open Lib

/-! ## The three levels -/

/-- mirrors account/ModPrd.h:15-28 -/
@[ext] structure ModPrd (α : Type := ℚ) [OfNat α 0] where
  prdName : String := ""
  unitVol : UnitVol := 0
  unitAmt : UnitAmt α := {}
  unitPnl : UnitPnl α := {}
  deriving DecidableEq, Repr

/-- mirrors account/ModAcc.h:10-22 -/
@[ext] structure ModAcc (α : Type := ℚ) [OfNat α 0] where
  unfilledOrderCnt : Int := 0
  unitAmt : UnitAmt α := {}
  unitPnl : UnitPnl α := {}
  deriving DecidableEq, Repr

/-- `p_prd` is the address of a node of `map_prd_`; `p_acc` only ever points at
the one `mod_acc_`, so that it is set or null.
mirrors account/ModInstr.h:15-40 -/
@[ext] structure ModInstr (α : Type := ℚ) [OfNat α 0] where
  unitVol : UnitVol := 0
  unitAmt : UnitAmt α := {}
  unitPx : UnitPx α := {}
  unitPnl : UnitPnl α := {}
  pPrd : Option (Ptr Hash) := none
  pAcc : Bool := false
  instrName : String := ""
  volMultiple : Int := 0
  deriving DecidableEq, Repr

variable {α : Type} [OfNat α 0]

namespace ModPrd

/-- mirrors account/ModPrd.cpp:5-10 -/
def init (name : String) (p : ModPrd α) : ModPrd α := { p with prdName := name }

/-- mirrors account/ModPrd.cpp:45-50 -/
def onSwitchDay (p : ModPrd α) : ModPrd α :=
  { p with
    unitVol := p.unitVol.onSwitchDay
    unitAmt := p.unitAmt.onSwitchDay
    unitPnl := p.unitPnl.onSwitchDay }

end ModPrd

/-- mirrors account/ModAcc.cpp:34-39 -/
def ModAcc.onSwitchDay (a : ModAcc α) : ModAcc α where
  unfilledOrderCnt := 0
  unitAmt := a.unitAmt.onSwitchDay
  unitPnl := a.unitPnl.onSwitchDay

namespace ModInstr

/-- mirrors account/ModInstr.cpp:8-18 -/
def init (name : String) (vm : Int) (m : ModInstr α) : Option (ModInstr α) :=
  if vm < 0 then none else some { m with instrName := name, volMultiple := vm }

/-- mirrors account/ModInstr.cpp:54-59 -/
def onSwitchDay (m : ModInstr α) : ModInstr α :=
  { m with
    unitVol := m.unitVol.onSwitchDay
    unitAmt := m.unitAmt.onSwitchDay
    unitPx := m.unitPx.onSwitchDay
    unitPnl := m.unitPnl.onSwitchDay }

end ModInstr

/-- An instrument with the product and the account it points at. -/
@[ext] structure Books (α : Type := ℚ) [OfNat α 0] where
  instr : ModInstr α
  prd : ModPrd α
  acc : ModAcc α
  deriving DecidableEq, Repr

namespace Books

/-- `unit_vol.f(..); p_prd->unit_vol.f(..);` -/
@[simps] def vol (f : UnitVol → UnitVol) (b : Books α) : Books α where
  instr := { b.instr with unitVol := f b.instr.unitVol }
  prd := { b.prd with unitVol := f b.prd.unitVol }
  acc := b.acc

/-- `unit_amt.f(..); p_prd->unit_amt.f(..); p_acc->unit_amt.f(..);` -/
@[simps] def amt (f : UnitAmt α → UnitAmt α) (b : Books α) : Books α where
  instr := { b.instr with unitAmt := f b.instr.unitAmt }
  prd := { b.prd with unitAmt := f b.prd.unitAmt }
  acc := { b.acc with unitAmt := f b.acc.unitAmt }

/-- `unit_pnl.f(..); p_prd->unit_pnl.f(..); p_acc->unit_pnl.f(..);` -/
@[simps] def pnl (f : UnitPnl α → UnitPnl α) (b : Books α) : Books α where
  instr := { b.instr with unitPnl := f b.instr.unitPnl }
  prd := { b.prd with unitPnl := f b.prd.unitPnl }
  acc := { b.acc with unitPnl := f b.acc.unitPnl }

/-- `unit_amt.f(..);` -/
@[simps] def instrAmt (f : UnitAmt α → UnitAmt α) (b : Books α) : Books α where
  instr := { b.instr with unitAmt := f b.instr.unitAmt }
  prd := b.prd
  acc := b.acc

/-- A write to `unit_px`. -/
@[simps] def px (f : UnitPx α → UnitPx α) (b : Books α) : Books α where
  instr := { b.instr with unitPx := f b.instr.unitPx }
  prd := b.prd
  acc := b.acc

/-- `p_acc->unfilled_order_cnt += d;` -/
@[simps] def unfilled (d : Int) (b : Books α) : Books α where
  instr := b.instr
  prd := b.prd
  acc := { b.acc with unfilledOrderCnt := b.acc.unfilledOrderCnt + d }

end Books

/-! ## The events -/

namespace Books

section Events

variable [OfNat α 1] [Add α] [Sub α] [Mul α] [Div α] [Neg α] [IntCast α] [DecidableEq α]

open UnitVol UnitAmt UnitPnl UnitPx

/-- In `double` the source also skips the negative zero, which adds nothing.
mirrors account/ModInstr.cpp:61-99 -/
def onTickPx (tickPx : α) (b : Books α) : Books α :=
  let delta := calcAmtChangeOnPxChange tickPx b.instr.unitPx.lastPx b.instr.unitVol.posLong
    b.instr.volMultiple
  let b := if 0 ≠ delta then b.amt (onAmtLongChange delta) else b
  let delta := calcAmtChangeOnPxChange tickPx b.instr.unitPx.lastPx b.instr.unitVol.posShort
    b.instr.volMultiple
  let b := if 0 ≠ delta then b.amt (onAmtShortChange delta) else b
  let delta := calcPosPnlChangeOnPxChange tickPx b.instr.unitPx.lastPx
    b.instr.unitVol.posLongYdIni b.instr.unitVol.posShortYdIni b.instr.volMultiple
  let b := if 0 ≠ delta then b.pnl (onPosPnlChange delta) else b
  let delta := calcTrdPnlChangeOnPxChange tickPx b.instr.unitPx.lastPx
    b.instr.unitVol.posBuy b.instr.unitVol.posSell b.instr.volMultiple
  let b := if 0 ≠ delta then b.pnl (onTrdPnlChange delta) else b
  b.px fun u => { u with lastPx := tickPx }

/-- mirrors account/ModInstr.cpp:109-186 -/
def onNew (dir : Dir) (off : Off) (px : α) (vol : Int) (b : Books α) : Books α :=
  let amtIngChg := calcAmtIngChangeOnNewCxlTrd px vol b.instr.volMultiple
  let b := b.unfilled 1
  match dir with
  | .buy =>
    match off with
    | .opn => (b.vol (onBuyOpnNew vol)).amt (onAmtLongTdAddIngChange amtIngChg)
    | .closeYesterday => (b.vol (onBuyClsYdNew vol)).amt (onAmtShortYdSubIngChange amtIngChg)
    | .closeToday => (b.vol (onBuyClsTdNew vol)).amt (onAmtShortTdSubIngChange amtIngChg)
    | _ => b
  | .sell =>
    match off with
    | .opn => (b.vol (onSellOpnNew vol)).amt (onAmtShortTdAddIngChange amtIngChg)
    | .closeYesterday => (b.vol (onSellClsYdNew vol)).amt (onAmtLongYdSubIngChange amtIngChg)
    | .closeToday => (b.vol (onSellClsTdNew vol)).amt (onAmtLongTdSubIngChange amtIngChg)
    | _ => b
  | .unknown _ => b

/-- mirrors account/ModInstr.cpp:188-254 -/
def onCxl (dir : Dir) (off : Off) (px : α) (cxlVol : Int) (b : Books α) : Books α :=
  let amtIngChg := -1 * calcAmtIngChangeOnNewCxlTrd px cxlVol b.instr.volMultiple
  let b := b.unfilled (-1)
  match dir with
  | .buy =>
    match off with
    | .opn => (b.vol (onBuyOpnCxl cxlVol)).amt (onAmtLongTdAddIngChange amtIngChg)
    | .closeYesterday => (b.vol (onBuyClsYdCxl cxlVol)).amt (onAmtShortYdSubIngChange amtIngChg)
    | .closeToday => (b.vol (onBuyClsTdCxl cxlVol)).amt (onAmtShortTdSubIngChange amtIngChg)
    | _ => b
  | .sell =>
    match off with
    | .opn => (b.vol (onSellOpnCxl cxlVol)).amt (onAmtShortTdAddIngChange amtIngChg)
    | .closeYesterday => (b.vol (onSellClsYdCxl cxlVol)).amt (onAmtLongYdSubIngChange amtIngChg)
    | .closeToday => (b.vol (onSellClsTdCxl cxlVol)).amt (onAmtLongTdSubIngChange amtIngChg)
    | _ => b
  | .unknown _ => b

/-- `unit_px.avg_px_buy = unit_px.calcAvgPx(unit_amt.amt_buy, unit_vol.pos_buy, vol_multiple);` -/
def avgPxBuy (b : Books α) : Books α :=
  b.px fun u =>
    { u with avgPxBuy := calcAvgPx b.instr.unitAmt.amtBuy b.instr.unitVol.posBuy b.instr.volMultiple }

/-- `unit_px.avg_px_sell = unit_px.calcAvgPx(unit_amt.amt_sell, unit_vol.pos_sell, vol_multiple);` -/
def avgPxSell (b : Books α) : Books α :=
  b.px fun u =>
    { u with
      avgPxSell := calcAvgPx b.instr.unitAmt.amtSell b.instr.unitVol.posSell b.instr.volMultiple }

/-- An offset the inner switches do not know still changes the bought or sold
amount, since these lines stand behind them.
mirrors account/ModInstr.cpp:256-363 -/
def onTrd (dir : Dir) (off : Off) (px : α) (vol volTraded : Int) (trdPx : α) (trdVol : Int)
    (b : Books α) : Books α :=
  let b := b.onTickPx trdPx
  let amtIngChg := -1 * calcAmtIngChangeOnNewCxlTrd px trdVol b.instr.volMultiple
  let amtChg := calcAmtChangeOnTrd trdPx trdVol b.instr.volMultiple
  let b := if vol = volTraded then b.unfilled (-1) else b
  match dir with
  | .buy =>
    let b := match off with
      | .opn =>
        ((b.vol (onBuyOpnTrd trdVol)).amt (onAmtLongTdAddIngChange amtIngChg)).amt
          (onAmtLongChange amtChg)
      | .closeYesterday =>
        ((b.vol (onBuyClsYdTrd trdVol)).amt (onAmtShortYdSubIngChange amtIngChg)).amt
          (onAmtShortChange (-1 * amtChg))
      | .closeToday =>
        ((b.vol (onBuyClsTdTrd trdVol)).amt (onAmtShortTdSubIngChange amtIngChg)).amt
          (onAmtShortChange (-1 * amtChg))
      | _ => b
    (b.instrAmt (onAmtBuyChange amtChg)).avgPxBuy
  | .sell =>
    let b := match off with
      | .opn =>
        ((b.vol (onSellOpnTrd trdVol)).amt (onAmtShortTdAddIngChange amtIngChg)).amt
          (onAmtShortChange amtChg)
      | .closeYesterday =>
        ((b.vol (onSellClsYdTrd trdVol)).amt (onAmtLongYdSubIngChange amtIngChg)).amt
          (onAmtLongChange (-1 * amtChg))
      | .closeToday =>
        ((b.vol (onSellClsTdTrd trdVol)).amt (onAmtLongTdSubIngChange amtIngChg)).amt
          (onAmtLongChange (-1 * amtChg))
      | _ => b
    (b.instrAmt (onAmtSellChange amtChg)).avgPxSell
  | .unknown _ => b

end Events

end Books

/-! ## The six legs -/

/-- What an order adds to or takes from: the opening and the two closing
offsets of each direction. -/
inductive Leg where
  | longOpn | shortYdCls | shortTdCls
  | shortOpn | longYdCls | longTdCls
  deriving DecidableEq, Repr

namespace Leg

def of : Dir → Off → Option Leg
  | .buy, .opn => some .longOpn
  | .buy, .closeYesterday => some .shortYdCls
  | .buy, .closeToday => some .shortTdCls
  | .sell, .opn => some .shortOpn
  | .sell, .closeYesterday => some .longYdCls
  | .sell, .closeToday => some .longTdCls
  | _, _ => none

def isBuy : Leg → Bool
  | .longOpn | .shortYdCls | .shortTdCls => true
  | _ => false

/-- The pending volume of a leg, as a change. -/
def ing (l : Leg) : Int →+ UnitVol where
  toFun v := match l with
    | .longOpn => { posLongTdOpnIng := v }
    | .shortYdCls => { posShortYdClsIng := v }
    | .shortTdCls => { posShortTdClsIng := v }
    | .shortOpn => { posShortTdOpnIng := v }
    | .longYdCls => { posLongYdClsIng := v }
    | .longTdCls => { posLongTdClsIng := v }
  map_zero' := by cases l <;> rfl
  map_add' v w := by cases l <;> ext <;> simp

/-- A fill of a leg, as a change. -/
def trd (l : Leg) : Int →+ UnitVol where
  toFun v := match l with
    | .longOpn => { posLongTdOpnIng := -v, posLongTd := v, posLong := v, posBuy := v }
    | .shortYdCls => { posShortYdClsIng := -v, posShortYd := -v, posShort := -v, posBuy := v }
    | .shortTdCls => { posShortTdClsIng := -v, posShortTd := -v, posShort := -v, posBuy := v }
    | .shortOpn => { posShortTdOpnIng := -v, posShortTd := v, posShort := v, posSell := v }
    | .longYdCls => { posLongYdClsIng := -v, posLongYd := -v, posLong := -v, posSell := v }
    | .longTdCls => { posLongTdClsIng := -v, posLongTd := -v, posLong := -v, posSell := v }
  map_zero' := by cases l <;> rfl
  map_add' v w := by cases l <;> ext <;> simp <;> ring

/-- The pending amount of a leg, as a change. -/
def amtIng (l : Leg) : ℚ →+ UnitAmt where
  toFun a := match l with
    | .longOpn => { amtLongTdAddIng := a }
    | .shortYdCls => { amtShortYdSubIng := a }
    | .shortTdCls => { amtShortTdSubIng := a }
    | .shortOpn => { amtShortTdAddIng := a }
    | .longYdCls => { amtLongYdSubIng := a }
    | .longTdCls => { amtLongTdSubIng := a }
  map_zero' := by cases l <;> rfl
  map_add' v w := by cases l <;> ext <;> simp

/-- The position amount a fill moves. -/
def amtPos (l : Leg) : ℚ →+ UnitAmt where
  toFun a := match l with
    | .longOpn => { amtLong := a }
    | .shortYdCls | .shortTdCls => { amtShort := -1 * a }
    | .shortOpn => { amtShort := a }
    | .longYdCls | .longTdCls => { amtLong := -1 * a }
  map_zero' := by cases l <;> ext <;> simp
  map_add' v w := by cases l <;> ext <;> simp <;> ring

end Leg

/-! ## What the events do to the volumes -/

section Volumes

variable (dir : Dir) (off : Off)

def ingOf : Int →+ UnitVol := (Leg.of dir off).elim 0 Leg.ing

def trdOf : Int →+ UnitVol := (Leg.of dir off).elim 0 Leg.trd

end Volumes

/-- No volume has changed, nor the unfilled count. -/
structure SameCounts (b b' : Books α) : Prop where
  instr : b'.instr.unitVol = b.instr.unitVol
  prd : b'.prd.unitVol = b.prd.unitVol
  unfilled : b'.acc.unfilledOrderCnt = b.acc.unfilledOrderCnt

theorem SameCounts.trans {b b' b'' : Books α} (h : SameCounts b b') (h' : SameCounts b' b'') :
    SameCounts b b'' :=
  ⟨h'.instr.trans h.instr, h'.prd.trans h.prd, h'.unfilled.trans h.unfilled⟩

theorem SameCounts.guard {b b' : Books α} (c : Prop) [Decidable c] (h : SameCounts b b') :
    SameCounts b (if c then b' else b) := by
  split
  · exact h
  · exact ⟨rfl, rfl, rfl⟩

namespace Books

variable [Add α] [Sub α] [Mul α] [IntCast α] (b : Books α)

/-- What a price leaves alone. -/
theorem onTickPx_frame [DecidableEq α] (px : α) :
    SameCounts b (b.onTickPx px) := by
  unfold onTickPx
  extract_lets d₁ b₁ d₂ b₂ d₃ b₃ d₄ b₄
  have h₁ : SameCounts b b₁ := SameCounts.guard _ ⟨rfl, rfl, rfl⟩
  have h₂ : SameCounts b₁ b₂ := SameCounts.guard _ ⟨rfl, rfl, rfl⟩
  have h₃ : SameCounts b₂ b₃ := SameCounts.guard _ ⟨rfl, rfl, rfl⟩
  have h₄ : SameCounts b₃ b₄ := SameCounts.guard _ ⟨rfl, rfl, rfl⟩
  exact (((h₁.trans h₂).trans h₃).trans h₄).trans ⟨rfl, rfl, rfl⟩

@[simp] theorem onTickPx_unitVol [DecidableEq α] (px : α) :
    (b.onTickPx px).instr.unitVol = b.instr.unitVol := (b.onTickPx_frame px).instr

@[simp] theorem onTickPx_prdVol [DecidableEq α] (px : α) :
    (b.onTickPx px).prd.unitVol = b.prd.unitVol := (b.onTickPx_frame px).prd

@[simp] theorem onTickPx_unfilled [DecidableEq α] (px : α) :
    (b.onTickPx px).acc.unfilledOrderCnt = b.acc.unfilledOrderCnt := (b.onTickPx_frame px).unfilled

end Books

namespace Books

variable [Add α] [Mul α] [IntCast α] (b : Books α) (dir : Dir) (off : Off)

theorem onNew_vols (px : α) (vol : Int) :
    (b.onNew dir off px vol).instr.unitVol = b.instr.unitVol + ingOf dir off vol ∧
      (b.onNew dir off px vol).prd.unitVol = b.prd.unitVol + ingOf dir off vol := by
  cases hl : Leg.of dir off with
  | none =>
    simp only [ingOf, hl, Option.elim_none, AddMonoidHom.zero_apply, add_zero]
    cases dir <;> cases off <;> first | exact ⟨rfl, rfl⟩ | cases hl
  | some l =>
    simp only [ingOf, hl, Option.elim_some]
    cases dir <;> cases off <;> cases hl <;> exact ⟨rfl, rfl⟩

@[simp] theorem onNew_unitVol (px : α) (vol : Int) :
    (b.onNew dir off px vol).instr.unitVol = b.instr.unitVol + ingOf dir off vol :=
  (b.onNew_vols dir off px vol).1

@[simp] theorem onNew_unfilled (px : α) (vol : Int) :
    (b.onNew dir off px vol).acc.unfilledOrderCnt = b.acc.unfilledOrderCnt + 1 := by
  cases dir <;> cases off <;> rfl

variable [OfNat α 1] [Neg α]

theorem onCxl_vols (px : α) (vol : Int) :
    (b.onCxl dir off px vol).instr.unitVol = b.instr.unitVol + ingOf dir off (-vol) ∧
      (b.onCxl dir off px vol).prd.unitVol = b.prd.unitVol + ingOf dir off (-vol) := by
  cases hl : Leg.of dir off with
  | none =>
    simp only [ingOf, hl, Option.elim_none, AddMonoidHom.zero_apply, add_zero]
    cases dir <;> cases off <;> first | exact ⟨rfl, rfl⟩ | cases hl
  | some l =>
    simp only [ingOf, hl, Option.elim_some]
    cases dir <;> cases off <;> cases hl <;> exact ⟨rfl, rfl⟩

@[simp] theorem onCxl_unitVol (px : α) (vol : Int) :
    (b.onCxl dir off px vol).instr.unitVol = b.instr.unitVol + ingOf dir off (-vol) :=
  (b.onCxl_vols dir off px vol).1

@[simp] theorem onCxl_unfilled (px : α) (vol : Int) :
    (b.onCxl dir off px vol).acc.unfilledOrderCnt = b.acc.unfilledOrderCnt - 1 := by
  cases dir <;> cases off <;> rfl

variable [Sub α] [Div α] [DecidableEq α] (px : α) (vol volTraded : Int) (trdPx : α) (trdVol : Int)

theorem onTrd_vols :
    (b.onTrd dir off px vol volTraded trdPx trdVol).instr.unitVol =
        b.instr.unitVol + trdOf dir off trdVol ∧
      (b.onTrd dir off px vol volTraded trdPx trdVol).prd.unitVol =
        b.prd.unitVol + trdOf dir off trdVol := by
  have hu : ∀ b : Books α, (if vol = volTraded then b.unfilled (-1) else b).instr.unitVol =
      b.instr.unitVol ∧ (if vol = volTraded then b.unfilled (-1) else b).prd.unitVol =
      b.prd.unitVol := fun b => by split <;> exact ⟨rfl, rfl⟩
  have hi := (hu (b.onTickPx trdPx)).1.trans (b.onTickPx_unitVol trdPx)
  have hp := (hu (b.onTickPx trdPx)).2.trans (b.onTickPx_prdVol trdPx)
  cases hl : Leg.of dir off with
  | none =>
    simp only [trdOf, hl, Option.elim_none, AddMonoidHom.zero_apply, add_zero]
    cases dir <;> cases off <;> first | exact ⟨hi, hp⟩ | cases hl
  | some l =>
    simp only [trdOf, hl, Option.elim_some]
    rw [← hi, ← hp]
    cases dir <;> cases off <;> cases hl <;> exact ⟨rfl, rfl⟩

@[simp] theorem onTrd_unitVol :
    (b.onTrd dir off px vol volTraded trdPx trdVol).instr.unitVol =
      b.instr.unitVol + trdOf dir off trdVol :=
  (b.onTrd_vols dir off px vol volTraded trdPx trdVol).1

@[simp] theorem onTrd_unfilled :
    (b.onTrd dir off px vol volTraded trdPx trdVol).acc.unfilledOrderCnt =
      b.acc.unfilledOrderCnt + if vol = volTraded then -1 else 0 := by
  have h0 : (if vol = volTraded then (b.onTickPx trdPx).unfilled (-1)
      else b.onTickPx trdPx).acc.unfilledOrderCnt =
      b.acc.unfilledOrderCnt + if vol = volTraded then -1 else 0 := by
    rw [← b.onTickPx_unfilled trdPx]
    split
    · rfl
    · exact (add_zero _).symm
  rw [← h0]
  cases dir <;> cases off <;> rfl

end Books

/-! ## What every event keeps -/

/-- Names, multiple and pointers are as before, and the volumes of the product
move with the instrument's, in whatever numbers the amounts are. -/
structure Keeps (b b' : Books α) : Prop where
  prdName : b'.prd.prdName = b.prd.prdName
  pPrd : b'.instr.pPrd = b.instr.pPrd
  pAcc : b'.instr.pAcc = b.instr.pAcc
  instrName : b'.instr.instrName = b.instr.instrName
  volMultiple : b'.instr.volMultiple = b.instr.volMultiple
  unitVol : b'.prd.unitVol - b.prd.unitVol = b'.instr.unitVol - b.instr.unitVol

namespace Keeps

variable {b b' b'' : Books α}

theorem refl (b : Books α) : Keeps b b := ⟨rfl, rfl, rfl, rfl, rfl, by simp⟩

theorem trans (h : Keeps b b') (h' : Keeps b' b'') : Keeps b b'' where
  prdName := h'.prdName.trans h.prdName
  pPrd := h'.pPrd.trans h.pPrd
  pAcc := h'.pAcc.trans h.pAcc
  instrName := h'.instrName.trans h.instrName
  volMultiple := h'.volMultiple.trans h.volMultiple
  unitVol := by rw [← sub_add_sub_cancel, h'.unitVol, h.unitVol, sub_add_sub_cancel]

theorem guard (c : Prop) [Decidable c] (h : Keeps b b') : Keeps b (if c then b' else b) := by
  split
  · exact h
  · exact refl b

theorem amt (b : Books α) (f : UnitAmt α → UnitAmt α) : Keeps b (b.amt f) :=
  ⟨rfl, rfl, rfl, rfl, rfl, by simp⟩

theorem pnl (b : Books α) (f : UnitPnl α → UnitPnl α) : Keeps b (b.pnl f) :=
  ⟨rfl, rfl, rfl, rfl, rfl, by simp⟩

theorem px (b : Books α) (f : UnitPx α → UnitPx α) : Keeps b (b.px f) :=
  ⟨rfl, rfl, rfl, rfl, rfl, by simp⟩

section Events

variable [Add α] [Mul α] [IntCast α]

theorem onTickPx [Sub α] [DecidableEq α] (b : Books α) (p : α) : Keeps b (b.onTickPx p) := by
  unfold Books.onTickPx
  extract_lets d₁ b₁ d₂ b₂ d₃ b₃ d₄ b₄
  have h₁ : Keeps b b₁ := guard _ (amt _ _)
  have h₂ : Keeps b₁ b₂ := guard _ (amt _ _)
  have h₃ : Keeps b₂ b₃ := guard _ (pnl _ _)
  have h₄ : Keeps b₃ b₄ := guard _ (pnl _ _)
  exact (((h₁.trans h₂).trans h₃).trans h₄).trans (px _ _)

theorem onNew (b : Books α) (dir : Dir) (off : Off) (p : α) (v : Int) :
    Keeps b (b.onNew dir off p v) := by
  have hv := b.onNew_vols dir off p v
  have hd : (b.onNew dir off p v).prd.unitVol - b.prd.unitVol =
      (b.onNew dir off p v).instr.unitVol - b.instr.unitVol := by rw [hv.1, hv.2]; simp
  cases dir <;> cases off <;> exact ⟨rfl, rfl, rfl, rfl, rfl, hd⟩

variable [OfNat α 1] [Neg α]

theorem onCxl (b : Books α) (dir : Dir) (off : Off) (p : α) (v : Int) :
    Keeps b (b.onCxl dir off p v) := by
  have hv := b.onCxl_vols dir off p v
  have hd : (b.onCxl dir off p v).prd.unitVol - b.prd.unitVol =
      (b.onCxl dir off p v).instr.unitVol - b.instr.unitVol := by rw [hv.1, hv.2]; simp
  cases dir <;> cases off <;> exact ⟨rfl, rfl, rfl, rfl, rfl, hd⟩

theorem onTrd [Sub α] [Div α] [DecidableEq α] (b : Books α) (dir : Dir) (off : Off) (p : α)
    (v vt : Int) (tp : α) (tv : Int) : Keeps b (b.onTrd dir off p v vt tp tv) := by
  have hv := b.onTrd_vols dir off p v vt tp tv
  have hd : (b.onTrd dir off p v vt tp tv).prd.unitVol - b.prd.unitVol =
      (b.onTrd dir off p v vt tp tv).instr.unitVol - b.instr.unitVol := by rw [hv.1, hv.2]; simp
  have hu : ∀ b : Books α, Keeps b (if v = vt then b.unfilled (-1) else b) := fun b =>
    guard _ ⟨rfl, rfl, rfl, rfl, rfl, by simp⟩
  obtain ⟨h1, h2, h3, h4, h5, -⟩ := (onTickPx b tp).trans (hu _)
  cases dir <;> cases off <;> exact ⟨h1, h2, h3, h4, h5, hd⟩

end Events

end Keeps

/-! ## The events as sums -/

/-- The bought or sold amount a fill moves. -/
def amtTrd (dir : Dir) : ℚ →+ UnitAmt where
  toFun a := match dir with
    | .buy => { amtBuy := a }
    | .sell => { amtSell := a }
    | .unknown _ => 0
  map_zero' := by cases dir <;> rfl
  map_add' v w := by cases dir <;> ext <;> simp

@[simp] theorem amtLong_amtTrd (dir : Dir) (a : ℚ) : (amtTrd dir a).amtLong = 0 := by
  cases dir <;> rfl

@[simp] theorem amtShort_amtTrd (dir : Dir) (a : ℚ) : (amtTrd dir a).amtShort = 0 := by
  cases dir <;> rfl

@[simp] theorem shared_amtTrd (dir : Dir) (a : ℚ) : (amtTrd dir a).shared = 0 := by
  cases dir <;> rfl

section Changes

variable (dir : Dir) (off : Off)

def amtIngOf : ℚ →+ UnitAmt := (Leg.of dir off).elim 0 Leg.amtIng

def amtPosOf : ℚ →+ UnitAmt := (Leg.of dir off).elim 0 Leg.amtPos

end Changes

/-- The revaluation of the position amounts by a price. -/
@[simps] def tickAmt (m : ModInstr) (px : ℚ) : UnitAmt where
  amtLongYdSubIng := 0
  amtLongTdAddIng := 0
  amtLongTdSubIng := 0
  amtLong := (px - m.unitPx.lastPx) * m.unitVol.posLong * m.volMultiple
  amtShortYdSubIng := 0
  amtShortTdAddIng := 0
  amtShortTdSubIng := 0
  amtShort := (px - m.unitPx.lastPx) * m.unitVol.posShort * m.volMultiple
  amtBuy := 0
  amtSell := 0

/-- The revaluation of the pnl by a price. -/
@[simps] def tickPnl (m : ModInstr) (px : ℚ) : UnitPnl where
  posPnl := (px - m.unitPx.lastPx) *
    ((m.unitVol.posLongYdIni - m.unitVol.posShortYdIni : Int) : ℚ) * m.volMultiple
  trdPnl := (px - m.unitPx.lastPx) *
    ((m.unitVol.posBuy - m.unitVol.posSell : Int) : ℚ) * m.volMultiple

namespace Books

variable (b : Books)

/-- The two lines behind the inner switches of `onTrd`. -/
def turnover (dir : Dir) (amtChg : ℚ) (b : Books) : Books :=
  match dir with
  | .buy => (b.instrAmt (UnitAmt.onAmtBuyChange amtChg)).avgPxBuy
  | .sell => (b.instrAmt (UnitAmt.onAmtSellChange amtChg)).avgPxSell
  | .unknown _ => b

/-- Skipping a zero change is the same as making it. -/
theorem amt_skip (f : ℚ → UnitAmt → UnitAmt) (h0 : ∀ u, f 0 u = u) (d : ℚ) :
    (if 0 ≠ d then b.amt (f d) else b) = b.amt (f d) := by
  by_cases hd : d = 0
  · subst hd; simp [amt, h0]
  · rw [if_pos (Ne.symm hd)]

theorem pnl_skip (f : ℚ → UnitPnl → UnitPnl) (h0 : ∀ u, f 0 u = u) (d : ℚ) :
    (if 0 ≠ d then b.pnl (f d) else b) = b.pnl (f d) := by
  by_cases hd : d = 0
  · subst hd; simp [pnl, h0]
  · rw [if_pos (Ne.symm hd)]

theorem vol_zero : b.vol (· + 0) = b := by simp [vol]

theorem amt_zero : b.amt (· + 0) = b := by simp [amt]

theorem unfilled_if (p : Prop) [Decidable p] (d : Int) :
    (if p then b.unfilled d else b) = b.unfilled (if p then d else 0) := by
  split <;> simp [unfilled]

theorem onTickPx_eq (px : ℚ) :
    b.onTickPx px = ((b.amt (· + tickAmt b.instr px)).pnl (· + tickPnl b.instr px)).px
      fun u => { u with lastPx := px } := by
  unfold onTickPx
  simp only [amt_skip _ UnitAmt.onAmtLongChange fun u => by simp [UnitAmt.onAmtLongChange],
    amt_skip _ UnitAmt.onAmtShortChange fun u => by simp [UnitAmt.onAmtShortChange],
    pnl_skip _ UnitPnl.onPosPnlChange fun u => by simp [UnitPnl.onPosPnlChange],
    pnl_skip _ UnitPnl.onTrdPnlChange fun u => by simp [UnitPnl.onTrdPnlChange]]
  ext <;> simp [UnitAmt.onAmtLongChange, UnitAmt.onAmtShortChange, UnitPnl.onPosPnlChange,
    UnitPnl.onTrdPnlChange, UnitAmt.calcAmtChangeOnPxChange, UnitPnl.calcPosPnlChangeOnPxChange,
    UnitPnl.calcTrdPnlChangeOnPxChange]

variable (dir : Dir) (off : Off)

theorem onNew_eq (px : ℚ) (vol : Int) :
    b.onNew dir off px vol =
      ((b.unfilled 1).vol (· + ingOf dir off vol)).amt
        (· + amtIngOf dir off (px * vol * b.instr.volMultiple)) := by
  cases hl : Leg.of dir off with
  | none =>
    simp only [ingOf, amtIngOf, hl, Option.elim_none, AddMonoidHom.zero_apply, vol_zero, amt_zero]
    cases dir <;> cases off <;> first | rfl | cases hl
  | some l =>
    simp only [ingOf, amtIngOf, hl, Option.elim_some]
    cases dir <;> cases off <;> cases hl <;> simp only [onNew, UnitAmt.onAmtLongTdAddIngChange_eq, UnitAmt.onAmtLongYdSubIngChange_eq,
      UnitAmt.onAmtLongTdSubIngChange_eq, UnitAmt.onAmtShortTdAddIngChange_eq, UnitAmt.onAmtShortYdSubIngChange_eq,
      UnitAmt.onAmtShortTdSubIngChange_eq] <;> rfl

theorem onCxl_eq (px : ℚ) (vol : Int) :
    b.onCxl dir off px vol =
      ((b.unfilled (-1)).vol (· + ingOf dir off (-vol))).amt
        (· + amtIngOf dir off (-1 * (px * vol * b.instr.volMultiple))) := by
  cases hl : Leg.of dir off with
  | none =>
    simp only [ingOf, amtIngOf, hl, Option.elim_none, AddMonoidHom.zero_apply, vol_zero, amt_zero]
    cases dir <;> cases off <;> first | rfl | cases hl
  | some l =>
    simp only [ingOf, amtIngOf, hl, Option.elim_some]
    cases dir <;> cases off <;> cases hl <;> simp only [onCxl, UnitAmt.onAmtLongTdAddIngChange_eq, UnitAmt.onAmtLongYdSubIngChange_eq,
      UnitAmt.onAmtLongTdSubIngChange_eq, UnitAmt.onAmtShortTdAddIngChange_eq, UnitAmt.onAmtShortYdSubIngChange_eq,
      UnitAmt.onAmtShortTdSubIngChange_eq] <;> rfl

theorem onTrd_eq (px : ℚ) (vol volTraded : Int) (trdPx : ℚ) (trdVol : Int) :
    b.onTrd dir off px vol volTraded trdPx trdVol =
      (((((b.onTickPx trdPx).unfilled (if vol = volTraded then -1 else 0)).vol
        (· + trdOf dir off trdVol)).amt
        (· + amtIngOf dir off (-1 * (px * trdVol * b.instr.volMultiple)))).amt
        (· + amtPosOf dir off (trdPx * trdVol * b.instr.volMultiple))).turnover dir
          (trdPx * trdVol * b.instr.volMultiple) := by
  have hvm : (b.onTickPx trdPx).instr.volMultiple = b.instr.volMultiple := by simp [onTickPx_eq]
  cases hl : Leg.of dir off with
  | none =>
    simp only [trdOf, amtIngOf, amtPosOf, hl, Option.elim_none, AddMonoidHom.zero_apply, vol_zero,
      amt_zero]
    cases dir <;> cases off <;> first | (simp only [onTrd, hvm, unfilled_if]; rfl) | cases hl
  | some l =>
    simp only [trdOf, amtIngOf, amtPosOf, hl, Option.elim_some]
    cases dir <;> cases off <;> cases hl <;> simp only [onTrd, hvm, unfilled_if,
      UnitAmt.onAmtLongTdAddIngChange_eq, UnitAmt.onAmtLongYdSubIngChange_eq,
      UnitAmt.onAmtLongTdSubIngChange_eq, UnitAmt.onAmtShortTdAddIngChange_eq, UnitAmt.onAmtShortYdSubIngChange_eq,
      UnitAmt.onAmtShortTdSubIngChange_eq, UnitAmt.onAmtLongChange_eq, UnitAmt.onAmtShortChange_eq] <;> rfl

/-! ### What `turnover` changes -/

@[simp] theorem turnover_unitVol (a : ℚ) : (b.turnover dir a).instr.unitVol = b.instr.unitVol := by
  cases dir <;> rfl

@[simp] theorem turnover_unitAmt (a : ℚ) :
    (b.turnover dir a).instr.unitAmt = b.instr.unitAmt + amtTrd dir a := by
  cases dir with
  | buy => rw [turnover, UnitAmt.onAmtBuyChange_eq]; rfl
  | sell => rw [turnover, UnitAmt.onAmtSellChange_eq]; rfl
  | unknown _ => exact (add_zero _).symm

@[simp] theorem turnover_unitPnl (a : ℚ) : (b.turnover dir a).instr.unitPnl = b.instr.unitPnl := by
  cases dir <;> rfl

@[simp] theorem turnover_lastPx (a : ℚ) :
    (b.turnover dir a).instr.unitPx.lastPx = b.instr.unitPx.lastPx := by cases dir <;> rfl

@[simp] theorem turnover_stlPxYd (a : ℚ) :
    (b.turnover dir a).instr.unitPx.stlPxYd = b.instr.unitPx.stlPxYd := by cases dir <;> rfl

@[simp] theorem turnover_volMultiple (a : ℚ) :
    (b.turnover dir a).instr.volMultiple = b.instr.volMultiple := by cases dir <;> rfl

@[simp] theorem turnover_pPrd (a : ℚ) : (b.turnover dir a).instr.pPrd = b.instr.pPrd := by
  cases dir <;> rfl

@[simp] theorem turnover_pAcc (a : ℚ) : (b.turnover dir a).instr.pAcc = b.instr.pAcc := by
  cases dir <;> rfl

@[simp] theorem turnover_instrName (a : ℚ) :
    (b.turnover dir a).instr.instrName = b.instr.instrName := by cases dir <;> rfl

@[simp] theorem turnover_prd (a : ℚ) : (b.turnover dir a).prd = b.prd := by cases dir <;> rfl

@[simp] theorem turnover_acc (a : ℚ) : (b.turnover dir a).acc = b.acc := by cases dir <;> rfl

/-! ### What the events change -/

@[simp] theorem onNew_unitAmt (px : ℚ) (vol : Int) :
    (b.onNew dir off px vol).instr.unitAmt =
      b.instr.unitAmt + amtIngOf dir off (px * vol * b.instr.volMultiple) := by
  simp [onNew_eq]

@[simp] theorem onCxl_unitAmt (px : ℚ) (vol : Int) :
    (b.onCxl dir off px vol).instr.unitAmt =
      b.instr.unitAmt + amtIngOf dir off (-1 * (px * vol * b.instr.volMultiple)) := by
  simp [onCxl_eq]

@[simp] theorem onTrd_unitAmt (px : ℚ) (vol volTraded : Int) (trdPx : ℚ) (trdVol : Int) :
    (b.onTrd dir off px vol volTraded trdPx trdVol).instr.unitAmt =
      b.instr.unitAmt + tickAmt b.instr trdPx +
        amtIngOf dir off (-1 * (px * trdVol * b.instr.volMultiple)) +
        amtPosOf dir off (trdPx * trdVol * b.instr.volMultiple) +
        amtTrd dir (trdPx * trdVol * b.instr.volMultiple) := by
  simp [onTrd_eq, onTickPx_eq]

end Books

/-! ## The product and the account move with the instrument -/

/-- What an instrument contributes to its product; the last two to the account. -/
abbrev Contrib := UnitVol × UnitAmt × UnitPnl

def ModInstr.contrib (m : ModInstr) : Contrib := (m.unitVol, m.unitAmt.shared, m.unitPnl)

def ModPrd.contrib (p : ModPrd) : Contrib := (p.unitVol, p.unitAmt.shared, p.unitPnl)

def ModAcc.contrib (a : ModAcc) : UnitAmt × UnitPnl := (a.unitAmt.shared, a.unitPnl)

/-- The product and the account have moved by what the instrument has moved
by, and no name or pointer has changed. -/
structure Balanced (b b' : Books) : Prop extends Keeps b b' where
  prd : b'.prd.contrib - b.prd.contrib = b'.instr.contrib - b.instr.contrib
  acc : b'.acc.contrib - b.acc.contrib = b'.instr.contrib.2 - b.instr.contrib.2

namespace Balanced

variable {b b' b'' : Books}

theorem refl (b : Books) : Balanced b b := ⟨Keeps.refl b, by simp, by simp⟩

theorem trans (h : Balanced b b') (h' : Balanced b' b'') : Balanced b b'' where
  toKeeps := h.toKeeps.trans h'.toKeeps
  prd := by rw [← sub_add_sub_cancel, h'.prd, h.prd, sub_add_sub_cancel]
  acc := by rw [← sub_add_sub_cancel, h'.acc, h.acc, sub_add_sub_cancel]

/-- An event that a guard may skip. -/
theorem guard (c : Prop) [Decidable c] (h : Balanced b b') : Balanced b (if c then b' else b) := by
  split
  · exact h
  · exact refl b

theorem vol (b : Books) (d : UnitVol) : Balanced b (b.vol (· + d)) := by
  refine ⟨⟨rfl, rfl, rfl, rfl, rfl, by simp⟩, ?_, ?_⟩ <;>
    simp [ModInstr.contrib, ModPrd.contrib, ModAcc.contrib]

theorem amt (b : Books) (d : UnitAmt) : Balanced b (b.amt (· + d)) := by
  refine ⟨Keeps.amt _ _, ?_, ?_⟩ <;>
    simp [ModInstr.contrib, ModPrd.contrib, ModAcc.contrib]

theorem pnl (b : Books) (d : UnitPnl) : Balanced b (b.pnl (· + d)) := by
  refine ⟨Keeps.pnl _ _, ?_, ?_⟩ <;>
    simp [ModInstr.contrib, ModPrd.contrib, ModAcc.contrib]

theorem px (b : Books) (f : UnitPx → UnitPx) : Balanced b (b.px f) := by
  refine ⟨Keeps.px _ _, ?_, ?_⟩ <;>
    simp [ModInstr.contrib, ModPrd.contrib, ModAcc.contrib]

theorem unfilled (b : Books) (d : Int) : Balanced b (b.unfilled d) := by
  refine ⟨⟨rfl, rfl, rfl, rfl, rfl, by simp⟩, ?_, ?_⟩ <;>
    simp [ModInstr.contrib, ModPrd.contrib, ModAcc.contrib]

/-- The bought and sold amounts are kept by the instrument alone, outside of
what it contributes. -/
theorem turnover (b : Books) (dir : Dir) (a : ℚ) : Balanced b (b.turnover dir a) := by
  refine ⟨⟨by simp, by simp, by simp, by simp, by simp, by simp⟩, ?_, ?_⟩ <;>
    simp [ModInstr.contrib, ModPrd.contrib, ModAcc.contrib]

theorem onTickPx (b : Books) (p : ℚ) : Balanced b (b.onTickPx p) := by
  rw [Books.onTickPx_eq]
  exact ((amt _ _).trans (pnl _ _)).trans (px _ _)

theorem onNew (b : Books) (dir : Dir) (off : Off) (p : ℚ) (v : Int) :
    Balanced b (b.onNew dir off p v) := by
  rw [Books.onNew_eq]
  exact ((unfilled _ _).trans (vol _ _)).trans (amt _ _)

theorem onCxl (b : Books) (dir : Dir) (off : Off) (p : ℚ) (v : Int) :
    Balanced b (b.onCxl dir off p v) := by
  rw [Books.onCxl_eq]
  exact ((unfilled _ _).trans (vol _ _)).trans (amt _ _)

theorem onTrd (b : Books) (dir : Dir) (off : Off) (p : ℚ) (v vt : Int) (tp : ℚ) (tv : Int) :
    Balanced b (b.onTrd dir off p v vt tp tv) := by
  rw [Books.onTrd_eq]
  exact (((((onTickPx _ _).trans (unfilled _ _)).trans (vol _ _)).trans (amt _ _)).trans
    (amt _ _)).trans (turnover _ _ _)

end Balanced

end NatFramework.Account
