import NatFramework.Risk.RiskInstr

/-!
# The net amount limit

A pending buy raises the net long amount whatever its offset, a pending sell the
net short one: of the six pending amounts three belong to buys and three to
sells. `IsNetAmountCorrect` adds the pending closes of short
positions for both directions, so that for a sell it looks at two amounts that
belong to buys.

* `isNetAmountCorrect_iff`: what the check compares.
* `decides_iff`, `symmetric_iff`: when it decides as the pending amounts say, and
  when the same way for both directions.
-/
namespace NatFramework.Risk

open Lib Account

/-! ## Pending buys and pending sells -/

/-- The amounts `onNew` books for pending buys. -/
def pendBuy (u : UnitAmt) : ℚ := u.amtLongTdAddIng + u.amtShortYdSubIng + u.amtShortTdSubIng

/-- The amounts `onNew` books for pending sells. -/
def pendSell (u : UnitAmt) : ℚ := u.amtShortTdAddIng + u.amtLongYdSubIng + u.amtLongTdSubIng

/-- The pending closes of long positions, which are sells. -/
def longCls (u : UnitAmt) : ℚ := u.amtLongYdSubIng + u.amtLongTdSubIng

/-- The pending closes of short positions, which are buys. -/
def shortCls (u : UnitAmt) : ℚ := u.amtShortYdSubIng + u.amtShortTdSubIng

/-- The position on the side of an order over the other side's, with the pending
openings and the order itself. -/
def netOpen (u : UnitAmt) (dir : Dir) (amount : ℚ) : ℚ :=
  (if dir = .buy then u.amtLong - u.amtShort + u.amtLongTdAddIng
    else u.amtShort - u.amtLong + u.amtShortTdAddIng) + amount

/-- The net amount that the order would bring about, pending orders of its side
included, is within the limit. -/
def NetWithin (th : ℚ) (u : UnitAmt) (dir : Dir) (amount : ℚ) : Prop :=
  if dir = .buy then u.amtLong - u.amtShort + pendBuy u + amount ≤ th
  else u.amtShort - u.amtLong + pendSell u + amount ≤ th

instance (th : ℚ) (u : UnitAmt) (dir : Dir) (amount : ℚ) : Decidable (NetWithin th u dir amount) := by
  unfold NetWithin
  infer_instance

/-- The limit does not lie between the amount with the pending closes of the one
position and that with the pending closes of the other. -/
def SameSide (th : ℚ) (u : UnitAmt) (dir : Dir) (amount : ℚ) : Prop :=
  netOpen u dir amount + shortCls u ≤ th ↔ netOpen u dir amount + longCls u ≤ th

theorem netWithin_iff (th : ℚ) (u : UnitAmt) (dir : Dir) (amount : ℚ) :
    NetWithin th u dir amount ↔
      netOpen u dir amount + (if dir = .buy then shortCls u else longCls u) ≤ th := by
  unfold NetWithin netOpen pendBuy pendSell shortCls longCls
  split
  · rw [show u.amtLong - u.amtShort + (u.amtLongTdAddIng + u.amtShortYdSubIng + u.amtShortTdSubIng) +
      amount = u.amtLong - u.amtShort + u.amtLongTdAddIng + amount +
        (u.amtShortYdSubIng + u.amtShortTdSubIng) by ring]
  · rw [show u.amtShort - u.amtLong + (u.amtShortTdAddIng + u.amtLongYdSubIng + u.amtLongTdSubIng) +
      amount = u.amtShort - u.amtLong + u.amtShortTdAddIng + amount +
        (u.amtLongYdSubIng + u.amtLongTdSubIng) by ring]

namespace RiskAcc

/-- What the check compares, for both directions. -/
theorem isNetAmountCorrect_iff (r : RiskAcc) (u : UnitAmt) (dir : Dir) (amount : ℚ) :
    r.isNetAmountCorrect u dir amount = true ↔
      netOpen u dir amount + shortCls u ≤ r.netAmtThreshold := by
  unfold isNetAmountCorrect netOpen shortCls
  split
  · rw [decide_eq_true_eq, show u.amtLong - u.amtShort + u.amtLongTdAddIng + u.amtShortYdSubIng +
      u.amtShortTdSubIng + amount = u.amtLong - u.amtShort + u.amtLongTdAddIng + amount +
        (u.amtShortYdSubIng + u.amtShortTdSubIng) by ring]
  · rw [decide_eq_true_eq, show u.amtShort - u.amtLong + u.amtShortTdAddIng + u.amtShortYdSubIng +
      u.amtShortTdSubIng + amount = u.amtShort - u.amtLong + u.amtShortTdAddIng + amount +
        (u.amtShortYdSubIng + u.amtShortTdSubIng) by ring]

/-- The checks before that of the net amount let the order through. -/
def ReachesNet (acc : ModAcc) (dir : Dir) (off : Off) (amount : ℚ) (r : RiskAcc) : Prop :=
  r.isUnfilledOrderCountCorrect acc = true ∧
    (off = .opn → dir = .buy → r.isLongAmountCorrect acc.unitAmt amount = true) ∧
    (off = .opn → dir ≠ .buy → r.isShortAmountCorrect acc.unitAmt amount = true)

theorem check_ne_iff (r : RiskAcc) (acc : ModAcc) (dir : Dir) (off : Off) (px : ℚ) (vol vm : Int) :
    r.check acc dir off px vol vm ≠ -112 ↔ (r.ReachesNet acc dir off (px * vol * vm) →
      r.isNetAmountCorrect acc.unitAmt dir (px * vol * vm) = true) := by
  unfold check ReachesNet
  dsimp only
  split
  · rename_i h
    exact iff_of_true (by decide) fun hr => by simp [hr.1] at h
  split
  · rename_i h
    exact iff_of_true (by decide) fun hr => by simp [hr.2.1 h.1 h.2.1] at h
  split
  · rename_i h
    exact iff_of_true (by decide) fun hr => by simp [hr.2.2 h.1 h.2.1] at h
  rename_i h1 h2 h3
  have hr : r.isUnfilledOrderCountCorrect acc = true ∧
      (off = .opn → dir = .buy → r.isLongAmountCorrect acc.unitAmt (px * vol * vm) = true) ∧
      (off = .opn → dir ≠ .buy → r.isShortAmountCorrect acc.unitAmt (px * vol * vm) = true) := by
    refine ⟨by simpa using h1, fun ho hd => ?_, fun ho hd => ?_⟩
    · simpa [ho, hd] using h2
    · simpa [ho, hd] using h3
  split
  · rename_i h4
    exact iff_of_false (fun h => h rfl) fun h => by simp [h hr] at h4
  · rename_i h4
    exact iff_of_true (by decide) fun _ => by simpa using h4

end RiskAcc

/-! ## Long and short exchanged -/

/-- An account's amounts with long and short, bought and sold exchanged. -/
def mirror (u : UnitAmt) : UnitAmt where
  amtLongYdSubIng := u.amtShortYdSubIng
  amtLongTdAddIng := u.amtShortTdAddIng
  amtLongTdSubIng := u.amtShortTdSubIng
  amtLong := u.amtShort
  amtShortYdSubIng := u.amtLongYdSubIng
  amtShortTdAddIng := u.amtLongTdAddIng
  amtShortTdSubIng := u.amtLongTdSubIng
  amtShort := u.amtLong
  amtBuy := u.amtSell
  amtSell := u.amtBuy

/-- The other direction; what is not a buy is checked as a sell. -/
def opposite (dir : Dir) : Dir := if dir = .buy then .sell else .buy

theorem netOpen_mirror (u : UnitAmt) (dir : Dir) (amount : ℚ) :
    netOpen (mirror u) (opposite dir) amount = netOpen u dir amount := by
  unfold netOpen opposite mirror
  by_cases hd : dir = .buy
  · simp [hd]
  · simp [hd]

/-- The check refuses with its own code exactly the orders that exceed the limit. -/
def Decides (r : RiskAcc) (acc : ModAcc) (dir : Dir) (off : Off) (px : ℚ) (vol vm : Int) : Prop :=
  r.check acc dir off px vol vm ≠ -112 ↔
    NetWithin r.netAmtThreshold acc.unitAmt dir (px * vol * vm)

/-- The check decides alike when long and short, buy and sell are exchanged. -/
def Symmetric (r : RiskAcc) (acc : ModAcc) (dir : Dir) (px : ℚ) (vol vm : Int) : Prop :=
  r.isNetAmountCorrect (mirror acc.unitAmt) (opposite dir) (px * vol * vm) =
    r.isNetAmountCorrect acc.unitAmt dir (px * vol * vm)

theorem decides_iff (r : RiskAcc) (acc : ModAcc) (dir : Dir) (off : Off) (px : ℚ) (vol vm : Int) :
    Decides r acc dir off px vol vm ↔
      (r.ReachesNet acc dir off (px * vol * vm) →
        dir = .buy ∨ SameSide r.netAmtThreshold acc.unitAmt dir (px * vol * vm)) ∧
      (¬r.ReachesNet acc dir off (px * vol * vm) →
        NetWithin r.netAmtThreshold acc.unitAmt dir (px * vol * vm)) := by
  unfold Decides
  rw [r.check_ne_iff, r.isNetAmountCorrect_iff, netWithin_iff]
  by_cases hr : r.ReachesNet acc dir off (px * vol * vm)
  · simp only [hr, true_implies, not_true_eq_false, false_implies, and_true]
    by_cases hd : dir = .buy
    · simp [hd]
    · simp only [hd, if_false, false_or]
      exact Iff.rfl
  · simp [hr]

theorem symmetric_iff (r : RiskAcc) (acc : ModAcc) (dir : Dir) (px : ℚ) (vol vm : Int) :
    Symmetric r acc dir px vol vm ↔
      SameSide r.netAmtThreshold acc.unitAmt dir (px * vol * vm) := by
  unfold Symmetric SameSide
  rw [Bool.eq_iff_iff, r.isNetAmountCorrect_iff, r.isNetAmountCorrect_iff, netOpen_mirror]
  exact iff_comm

/-- When the net amount check decides as the pending amounts say, and when the
same way for both directions. -/
theorem netSound_iff (r : RiskAcc) (acc : ModAcc) (dir : Dir) (off : Off) (px : ℚ) (vol vm : Int) :
    (Decides r acc dir off px vol vm ↔
      (r.ReachesNet acc dir off (px * vol * vm) →
        dir = .buy ∨ SameSide r.netAmtThreshold acc.unitAmt dir (px * vol * vm)) ∧
      (¬r.ReachesNet acc dir off (px * vol * vm) →
        NetWithin r.netAmtThreshold acc.unitAmt dir (px * vol * vm))) ∧
    (Symmetric r acc dir px vol vm ↔
      SameSide r.netAmtThreshold acc.unitAmt dir (px * vol * vm)) :=
  ⟨decides_iff r acc dir off px vol vm, symmetric_iff r acc dir px vol vm⟩

/-- A pending sell that closes a long position of today leaves no room for one
more, and the check lets it through; the same the other way round it refuses. -/
theorem not_netSound :
    let r : RiskAcc := ⟨10, 1000, 1000, 150⟩
    let acc : ModAcc := { unitAmt := { amtLongTdSubIng := 100 } }
    r.check acc .sell .closeToday 10 1 10 = 0 ∧
      r.check { unitAmt := mirror acc.unitAmt } .buy .closeToday 10 1 10 = -112 ∧
      ¬Decides r acc .sell .closeToday 10 1 10 ∧ ¬Symmetric r acc .sell 10 1 10 := by
  refine ⟨by decide +kernel, by decide +kernel, fun h => ?_, fun h => ?_⟩
  · exact absurd (h.mp (by decide +kernel)) (by decide +kernel)
  · revert h
    unfold Symmetric
    decide +kernel

end NatFramework.Risk
