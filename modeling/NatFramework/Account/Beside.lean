import NatFramework.Account.ModInstr

/-!
# A fill beside the pending orders

The six legs of an order keep its pending volume and amount in fields of their
own, which neither the valuation nor the turnover reads.

* `onTrd_beside`: a fill does not see an order that is pending beside it.
* `onNew_onTrd`: an order and its fill are the fill, and the order pending beside it.
* `samePending_onNew_onTrd`: the fill takes back what the order has added.
-/
namespace NatFramework.Account

open Lib

/-! ## Pending and settled -/

/-- The pending volumes. -/
@[simps] def UnitVol.pending (u : UnitVol) : UnitVol where
  posLongYdIni := 0
  posLongYd := 0
  posLongTd := 0
  posLong := 0
  posLongYdClsIng := u.posLongYdClsIng
  posLongTdClsIng := u.posLongTdClsIng
  posLongTdOpnIng := u.posLongTdOpnIng
  posShortYdIni := 0
  posShortYd := 0
  posShortTd := 0
  posShort := 0
  posShortYdClsIng := u.posShortYdClsIng
  posShortTdClsIng := u.posShortTdClsIng
  posShortTdOpnIng := u.posShortTdOpnIng
  posBuy := 0
  posSell := 0

/-- The pending amounts. -/
@[simps] def UnitAmt.pending (u : UnitAmt) : UnitAmt where
  amtLongYdSubIng := u.amtLongYdSubIng
  amtLongTdAddIng := u.amtLongTdAddIng
  amtLongTdSubIng := u.amtLongTdSubIng
  amtLong := 0
  amtShortYdSubIng := u.amtShortYdSubIng
  amtShortTdAddIng := u.amtShortTdAddIng
  amtShortTdSubIng := u.amtShortTdSubIng
  amtShort := 0
  amtBuy := 0
  amtSell := 0

theorem UnitVol.pending_add (u v : UnitVol) : (u + v).pending = u.pending + v.pending := by
  ext <;> simp

theorem UnitAmt.pending_add (u v : UnitAmt) : (u + v).pending = u.pending + v.pending := by
  ext <;> simp

theorem Leg.pending_ing (l : Leg) (v : Int) : (l.ing v).pending = l.ing v := by
  cases l <;> rfl

theorem Leg.pending_trd (l : Leg) (v : Int) : (l.trd v).pending = -l.ing v := by
  cases l <;> ext <;> simp [Leg.trd, Leg.ing]

theorem Leg.pending_amtIng (l : Leg) (a : ℚ) : (l.amtIng a).pending = l.amtIng a := by
  cases l <;> rfl

theorem Leg.pending_amtPos (l : Leg) (a : ℚ) : (l.amtPos a).pending = 0 := by
  cases l <;> rfl

theorem pending_tickAmt (m : ModInstr) (px : ℚ) : (tickAmt m px).pending = 0 := by
  ext <;> rfl

theorem pending_amtTrd (dir : Dir) (a : ℚ) : (amtTrd dir a).pending = 0 := by
  cases dir <;> rfl

namespace Books

/-- What is left of the three levels without the orders. -/
def settled (b : Books) : Books where
  instr :=
    { b.instr with
      unitVol := b.instr.unitVol - b.instr.unitVol.pending
      unitAmt := b.instr.unitAmt - b.instr.unitAmt.pending }
  prd :=
    { b.prd with
      unitVol := b.prd.unitVol - b.prd.unitVol.pending
      unitAmt := b.prd.unitAmt - b.prd.unitAmt.pending }
  acc :=
    { b.acc with
      unfilledOrderCnt := 0
      unitAmt := b.acc.unitAmt - b.acc.unitAmt.pending }

/-- The orders that are pending at both levels have the same volumes, at all
three the same amounts, and there are as many. -/
structure SamePending (b b' : Books) : Prop where
  vol : b'.instr.unitVol.pending = b.instr.unitVol.pending
  prdVol : b'.prd.unitVol.pending = b.prd.unitVol.pending
  amt : b'.instr.unitAmt.pending = b.instr.unitAmt.pending
  prdAmt : b'.prd.unitAmt.pending = b.prd.unitAmt.pending
  accAmt : b'.acc.unitAmt.pending = b.acc.unitAmt.pending
  unfilled : b'.acc.unfilledOrderCnt = b.acc.unfilledOrderCnt

/-- The fill of an order of its own. -/
def fill (dir : Dir) (off : Off) (px : ℚ) (vol : Int) (b : Books) : Books :=
  b.onTrd dir off px vol vol px vol

variable {dir : Dir} {off : Off} {l : Leg} (b : Books)

/-- An order that is pending, beside what the books hold. -/
def beside (d : UnitVol) (e : UnitAmt) (b : Books) : Books :=
  ((b.unfilled 1).vol (· + d)).amt (· + e)

section Beside

variable {d : UnitVol} {e : UnitAmt}

/-- What is pending plays no part in a revaluation. -/
theorem onTickPx_beside (hd : d.pending = d) (p : ℚ) : (b.beside d e).onTickPx p = (b.onTickPx p).beside d e := by
  have h1 : d.posLong = 0 := by rw [← hd]; rfl
  have h2 : d.posShort = 0 := by rw [← hd]; rfl
  have h3 : d.posLongYdIni = 0 := by rw [← hd]; rfl
  have h4 : d.posShortYdIni = 0 := by rw [← hd]; rfl
  have h5 : d.posBuy = 0 := by rw [← hd]; rfl
  have h6 : d.posSell = 0 := by rw [← hd]; rfl
  have hamt : tickAmt (b.beside d e).instr p = tickAmt b.instr p := by
    ext <;> simp [beside, h1, h2]
  have hpnl : tickPnl (b.beside d e).instr p = tickPnl b.instr p := by
    ext <;> simp [beside, h3, h4, h5, h6]
  rw [onTickPx_eq, onTickPx_eq, hamt, hpnl]
  ext : 2 <;> simp only [beside, vol, amt, pnl, px, unfilled] <;> abel

/-- Nor in the turnover. -/
theorem turnover_beside (hd : d.pending = d) (he : e.pending = e) (a : ℚ) :
    (b.beside d e).turnover dir a = (b.turnover dir a).beside d e := by
  have h1 : d.posBuy = 0 := by rw [← hd]; rfl
  have h2 : d.posSell = 0 := by rw [← hd]; rfl
  have h3 : e.amtBuy = 0 := by rw [← he]; rfl
  have h4 : e.amtSell = 0 := by rw [← he]; rfl
  cases dir with
  | buy =>
    ext : 2 <;> simp only [turnover, beside, vol, amt, px, unfilled, instrAmt, avgPxBuy,
      UnitAmt.onAmtBuyChange_eq]
    · abel
    · simp [h1, h3]
  | sell =>
    ext : 2 <;> simp only [turnover, beside, vol, amt, px, unfilled, instrAmt, avgPxSell,
      UnitAmt.onAmtSellChange_eq]
    · abel
    · simp [h2, h4]
  | unknown code => rfl

theorem vol_beside (u : UnitVol) : (b.beside d e).vol (· + u) = (b.vol (· + u)).beside d e := by
  ext : 2 <;> simp only [beside, vol, amt, unfilled] <;> abel

theorem amt_beside (u : UnitAmt) : (b.beside d e).amt (· + u) = (b.amt (· + u)).beside d e := by
  ext : 2 <;> simp only [beside, vol, amt, unfilled] <;> abel

theorem unfilled_beside (n : Int) : (b.beside d e).unfilled n = (b.unfilled n).beside d e := by
  ext : 2 <;> simp only [beside, vol, amt, unfilled]
  omega

theorem onTrd_beside (hd : d.pending = d) (he : e.pending = e) (px : ℚ) (vol volTraded : Int)
    (trdPx : ℚ) (trdVol : Int) :
    (b.beside d e).onTrd dir off px vol volTraded trdPx trdVol =
      (b.onTrd dir off px vol volTraded trdPx trdVol).beside d e := by
  have hvm : (b.beside d e).instr.volMultiple = b.instr.volMultiple := rfl
  rw [onTrd_eq, onTrd_eq, onTickPx_beside b hd, unfilled_beside, vol_beside, amt_beside, amt_beside,
    turnover_beside _ hd he, hvm]

/-- What is settled does not show what is pending. -/
theorem settled_beside (hd : d.pending = d) (he : e.pending = e) :
    (b.beside d e).settled = b.settled := by
  have hv : ∀ u : UnitVol, u + d - (u + d).pending = u - u.pending := by
    intro u
    rw [UnitVol.pending_add, hd]
    abel
  have ha : ∀ u : UnitAmt, u + e - (u + e).pending = u - u.pending := by
    intro u
    rw [UnitAmt.pending_add, he]
    abel
  ext : 2 <;> simp only [settled, beside, vol, amt, unfilled, hv, ha]

end Beside

/-- An order and its fill are the fill, and the order pending beside it. -/
theorem onNew_onTrd (hl : Leg.of dir off = some l) (px : ℚ) (vol : Int) :
    (b.onNew dir off px vol).onTrd dir off px vol vol px vol =
      (b.fill dir off px vol).beside (l.ing vol) (l.amtIng (px * vol * b.instr.volMultiple)) := by
  have hnew : b.onNew dir off px vol =
      b.beside (l.ing vol) (l.amtIng (px * vol * b.instr.volMultiple)) := by
    rw [onNew_eq, ingOf, amtIngOf, hl]
    rfl
  rw [hnew, onTrd_beside b (l.pending_ing vol) (l.pending_amtIng _)]
  rfl

/-- The fill takes back what the order has added. -/
theorem samePending_onNew_onTrd (hl : Leg.of dir off = some l) (px : ℚ) (vol : Int) :
    b.SamePending ((b.onNew dir off px vol).onTrd dir off px vol vol px vol) := by
  have hneg : ∀ a : ℚ, (-l.amtIng a).pending = -l.amtIng a := fun a => by
    rw [← map_neg, l.pending_amtIng]
  rw [onNew_onTrd b hl, fill, onTrd_eq, trdOf, amtIngOf, amtPosOf, hl]
  simp only [Option.elim_some, onTickPx_eq, beside]
  constructor
  · simp [UnitVol.pending_add, Leg.pending_ing, Leg.pending_trd]
  · simp [UnitVol.pending_add, Leg.pending_ing, Leg.pending_trd]
  · simp [UnitAmt.pending_add, Leg.pending_amtIng, Leg.pending_amtPos, pending_tickAmt, pending_amtTrd,
      hneg]
  · simp [UnitAmt.pending_add, Leg.pending_amtIng, Leg.pending_amtPos, pending_tickAmt, hneg]
  · simp [UnitAmt.pending_add, Leg.pending_amtIng, Leg.pending_amtPos, pending_tickAmt, hneg]
  · simp

end Books

end NatFramework.Account
