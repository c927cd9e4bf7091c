import NatFramework.Account.MarkToMarket

/-!
# Orders the switches do not know

`onNew`, `onCxl` and `onTrd` raise an alert on a direction or offset that their
switches do not know, and go on: the count of unfilled orders stands before the
switches, the bought and sold amounts behind the inner ones.

* `refused_iff`: exactly when an event that is alerted leaves all three levels.
* `cxl_new`: the cancel of such an order takes back what the order has left.
-/
namespace NatFramework.Account

open UnitPx

namespace InstrEvent

/-- The revaluation at the trade price, which a fill makes first. -/
def revalued : InstrEvent → Books → Books
  | trd _ _ _ _ _ trdPx _, b => b.onTickPx trdPx
  | _, b => b

/-- An event that is alerted changes nothing but the valuation. -/
def Refused (e : InstrEvent) (b : Books) : Prop := ¬e.Known → e.apply b = e.revalued b

/-- The two lines behind the inner switches write what is there already. -/
def NoTurnover (dir : Dir) (amt : ℚ) (m : ModInstr) : Prop :=
  match dir with
  | .buy =>
    amt = 0 ∧ m.unitPx.avgPxBuy = calcAvgPx m.unitAmt.amtBuy m.unitVol.posBuy m.volMultiple
  | .sell =>
    amt = 0 ∧ m.unitPx.avgPxSell = calcAvgPx m.unitAmt.amtSell m.unitVol.posSell m.volMultiple
  | .unknown _ => True

/-- A known pair, or a fill that neither completes its order nor moves the
bought or sold amount. -/
def Spared : InstrEvent → Books → Prop
  | trd dir off _ vol volTraded trdPx trdVol, b =>
    (Leg.of dir off).isSome ∨
      vol ≠ volTraded ∧ NoTurnover dir (trdPx * trdVol * b.instr.volMultiple) b.instr
  | e, _ => e.Known

end InstrEvent

namespace Books

variable {dir : Dir} {off : Off} (b : Books)

theorem onNew_refused (hl : Leg.of dir off = none) (px : ℚ) (vol : Int) :
    b.onNew dir off px vol = b.unfilled 1 := by
  simp only [onNew_eq, ingOf, amtIngOf, hl, Option.elim_none, AddMonoidHom.zero_apply,
    vol_zero, amt_zero]

theorem onCxl_refused (hl : Leg.of dir off = none) (px : ℚ) (vol : Int) :
    b.onCxl dir off px vol = b.unfilled (-1) := by
  simp only [onCxl_eq, ingOf, amtIngOf, hl, Option.elim_none, AddMonoidHom.zero_apply,
    vol_zero, amt_zero]

theorem onTrd_refused (hl : Leg.of dir off = none) (px : ℚ) (vol volTraded : Int) (trdPx : ℚ)
    (trdVol : Int) :
    b.onTrd dir off px vol volTraded trdPx trdVol =
      ((b.onTickPx trdPx).unfilled (if vol = volTraded then -1 else 0)).turnover dir
        (trdPx * trdVol * b.instr.volMultiple) := by
  simp only [onTrd_eq, trdOf, amtIngOf, amtPosOf, hl, Option.elim_none, AddMonoidHom.zero_apply,
    vol_zero, amt_zero]

theorem unfilled_zero : b.unfilled 0 = b := by simp [unfilled]

theorem unfilled_eq_iff (d : Int) : b.unfilled d = b ↔ d = 0 := by
  constructor
  · intro h
    have hcnt := congrArg (fun c => c.acc.unfilledOrderCnt) h
    simp only [unfilled] at hcnt
    omega
  · rintro rfl
    exact b.unfilled_zero

theorem turnover_eq_iff (amt : ℚ) :
    b.turnover dir amt = b ↔ InstrEvent.NoTurnover dir amt b.instr := by
  cases dir with
  | buy =>
    simp only [turnover, avgPxBuy, px, instrAmt, UnitAmt.onAmtBuyChange_eq, InstrEvent.NoTurnover]
    constructor
    · intro h
      have hamt := congrArg (fun c => c.instr.unitAmt.amtBuy) h
      have hpx := congrArg (fun c => c.instr.unitPx.avgPxBuy) h
      simp at hamt hpx
      subst hamt
      simpa using hpx.symm
    · rintro ⟨rfl, hpx⟩
      ext <;> simp [hpx]
  | sell =>
    simp only [turnover, avgPxSell, px, instrAmt, UnitAmt.onAmtSellChange_eq, InstrEvent.NoTurnover]
    constructor
    · intro h
      have hamt := congrArg (fun c => c.instr.unitAmt.amtSell) h
      have hpx := congrArg (fun c => c.instr.unitPx.avgPxSell) h
      simp at hamt hpx
      subst hamt
      simpa using hpx.symm
    · rintro ⟨rfl, hpx⟩
      ext <;> simp [hpx]
  | unknown code => simp [turnover, InstrEvent.NoTurnover]

/-- A tick moves neither what the turnover reads nor what it writes. -/
theorem noTurnover_onTickPx (p amt : ℚ) :
    InstrEvent.NoTurnover dir amt (b.onTickPx p).instr ↔ InstrEvent.NoTurnover dir amt b.instr := by
  cases dir <;> simp [InstrEvent.NoTurnover, onTickPx_eq]

/-- What an alerted order leaves, its cancel takes back. -/
theorem cxl_new (hl : Leg.of dir off = none) (p p' : ℚ) (v v' : Int) :
    (b.onNew dir off p v).onCxl dir off p' v' = b := by
  rw [onNew_refused b hl, onCxl_refused _ hl]
  simp [unfilled]

end Books

namespace InstrEvent

/-- **What an alert leaves.** An order or a cancel that is alerted always moves
the count of unfilled orders; a fill spares the account only as `Spared` says. -/
theorem refused_iff (e : InstrEvent) (b : Books) : Refused e b ↔ Spared e b := by
  cases e with
  | new dir off px vol =>
    simp only [Refused, Known, Spared, apply, revalued, Bool.not_eq_true,
      Option.isSome_eq_false_iff, Option.isNone_iff_eq_none]
    cases hl : Leg.of dir off with
    | none => simp [Books.onNew_refused b hl, Books.unfilled_eq_iff]
    | some l => simp
  | cxl dir off px vol =>
    simp only [Refused, Known, Spared, apply, revalued, Bool.not_eq_true,
      Option.isSome_eq_false_iff, Option.isNone_iff_eq_none]
    cases hl : Leg.of dir off with
    | none => simp [Books.onCxl_refused b hl, Books.unfilled_eq_iff]
    | some l => simp
  | trd dir off px vol volTraded trdPx trdVol =>
    simp only [Refused, Known, Spared, apply, revalued, Bool.not_eq_true,
      Option.isSome_eq_false_iff, Option.isNone_iff_eq_none]
    cases hl : Leg.of dir off with
    | some l => simp
    | none =>
      rw [Books.onTrd_refused b hl]
      simp only [forall_const, Option.isSome_none, Bool.false_eq_true, false_or]
      by_cases hv : vol = volTraded
      · -- the last fill takes the order off the count
        simp only [hv, if_true, ne_eq, not_true_eq_false, false_and, iff_false]
        intro h
        have hcnt := congrArg (fun c => c.acc.unfilledOrderCnt) h
        simp only [Books.turnover_acc, Books.unfilled] at hcnt
        omega
      · simp only [hv, if_false, Books.unfilled_zero, Books.turnover_eq_iff,
          Books.noTurnover_onTickPx, ne_eq, not_false_eq_true, true_and]
  | tickPx px => simp [Refused, Known, Spared]
  | switchDay => simp [Refused, Known, Spared]

/-- A forced close of 1 at 10 with multiple 5: the order, its cancel and its
fill. -/
theorem forceClose_not_refused :
    ¬Refused (.new .sell .forceClose 10 1) ⟨{ volMultiple := 5 }, {}, {}⟩ ∧
      ¬Refused (.cxl .sell .forceClose 10 1) ⟨{ volMultiple := 5 }, {}, {}⟩ ∧
        ¬Refused (.trd .sell .forceClose 10 1 1 10 1) ⟨{ volMultiple := 5 }, {}, {}⟩ := by
  refine ⟨fun h => ?_, fun h => ?_, fun h => ?_⟩
  all_goals
    have hcnt := congrArg (fun c : Books => c.acc.unfilledOrderCnt) (h (by simp [Known, Leg.of]))
    revert hcnt
    decide +kernel

end InstrEvent

end NatFramework.Account
