import NatFramework.Account.AccBase
import NatFramework.Lib.CInt

/-!
# The checks of the risk module

`risk/RiskInstr`, `RiskPrd`, `RiskAcc` and `ConfUtil`: pre-trade checks against
thresholds read from the configuration. A check answers 0 or a negative code.

* The configuration is a record of what reading its entries gives (`Setting`);
  a node of `ConfUtil::getValue` maps names to entries.
* A call that reads a missing key through the `operator[]` of a const `json` does
  not return: its assertion ends the process. The answer of such a call is
  `none`.
* `p_unit_vol` is the address of a node of the account; `CTimer`'s time is an
  argument.
* The limit checks add `int`s, which wrap. A counter is an `Int`.
* `Admitted`: what a check that answers 0 has found at its level.
-/
namespace NatFramework.Risk

open Lib Account

/-! ## Configuration -/

/-- What reading an entry gives: the key is `missing`; or the value, or its
parent, has not the type that is asked for and an exception is thrown. -/
inductive Setting (α : Type) where
  | missing
  | unreadable
  | value (v : α)
  deriving DecidableEq, Repr

def Setting.isValue {α : Type} : Setting α → Bool
  | value _ => true
  | _ => false

abbrev ConfNode (α : Type) := String → Setting α

/-- The nodes of `j_conf` that the risk module reads. -/
structure RiskConf where
  /-- `/RiskForGeneral/allowed_instrument` -/
  allowedInstrument : Setting (List String) := .missing
  /-- `/RiskForGeneral/allowed_max_unfilled_order_number` -/
  allowedMaxUnfilledOrderNumber : Setting Int := .missing
  /-- `/RiskForOrder/allowed_order_size` -/
  allowedOrderSize : Setting (ConfNode Int) := .missing
  /-- `/RiskForOrder/intensity_cycle_order_count` -/
  intensityCycleOrderCount : Setting (ConfNode Int) := .missing
  /-- `/RiskForOrder/intensity_cycle_time_span` -/
  intensityCycleTimeSpan : Setting (ConfNode ℚ) := .missing
  /-- `/RiskForInstrument/..` -/
  instrLongVolume : Setting (ConfNode Int) := .missing
  instrShortVolume : Setting (ConfNode Int) := .missing
  instrNetVolume : Setting (ConfNode Int) := .missing
  /-- `/RiskForProduct/..` -/
  prdLongVolume : Setting (ConfNode Int) := .missing
  prdShortVolume : Setting (ConfNode Int) := .missing
  prdNetVolume : Setting (ConfNode Int) := .missing
  /-- `/RiskForAccount/..` -/
  accLongAmount : Setting ℚ := .missing
  accShortAmount : Setting ℚ := .missing
  accNetAmount : Setting ℚ := .missing

/-- Instrument before product before default; `missing` when there is none of
them, which is answered `false`.
mirrors risk/ConfUtil.h:24-37 -/
def getValue {α : Type} (j : ConfNode α) (prd instr : String) : Setting α :=
  match j instr with
  | .missing =>
    match j prd with
    | .missing => j "default"
    | x => x
  | x => x

/-- `getValue(.., j_conf[node], ..)`: the node is read first, and a node without
a value makes the caller fail as an exception does. -/
def readValue {α : Type} (node : Setting (ConfNode α)) (prd instr : String) : Setting α :=
  match node with
  | .missing => .missing
  | .unreadable => .unreadable
  | .value j =>
    match getValue j prd instr with
    | .value v => .value v
    | _ => .unreadable

/-- Whether `productOrInstrumentToInstrSet(names)` contains `instr`.
mirrors common/CTradeBaseInfo.cpp:99-114 -/
def inInstrSet (info : TradeBaseInfo) (names : List String) (instr : String) : Bool :=
  names.any fun x =>
    info.instrInfo.entries.any fun e =>
      if x == e.2.instr || x == e.2.product || (x == "all" || x == "All") then e.2.instr == instr
      else x == instr

/-! ## Instruments -/

/-- mirrors risk/RiskInstr.h:20-48 -/
structure RiskInstr where
  intensityCycleOrderCount : Int := 0
  intensityCycleTimeRecord : Int := 0
  pUnitVol : Option (Ptr Hash) := none
  intensityCycleOrderCountThreshold : Int := 0
  intensityCycleTimeSpanThreshold : ℚ := 0
  isAllowed : Bool := false
  allowedOrderSizeThreshold : Int := 0
  longVolumeThreshold : Int := 0
  shortVolumeThreshold : Int := 0
  netVolumeThreshold : Int := 0
  deriving DecidableEq, Repr

namespace RiskInstr

/-- A missing value leaves what was read before it. `map_instr_` has the
instrument when this is called, so that `operator[]` makes no node.
mirrors risk/RiskInstr.cpp:12-92 -/
def init (conf : RiskConf) (info : TradeBaseInfo) (i : InstrumentInfo) (ab : AccBase)
    (r : RiskInstr) : RiskInstr × Option Bool :=
  let r := { r with pUnitVol := some (ab.mapInstr.addr i.instrHash) }
  match conf.allowedInstrument with
  | .missing => (r, none)
  | .unreadable => (r, some false)
  | .value names =>
  let r := if inInstrSet info names i.instr then { r with isAllowed := true } else r
  match readValue conf.allowedOrderSize i.product i.instr with
  | .missing => (r, none)
  | .unreadable => (r, some false)
  | .value v =>
  let r := { r with allowedOrderSizeThreshold := v }
  match readValue conf.intensityCycleOrderCount i.product i.instr with
  | .missing => (r, none)
  | .unreadable => (r, some false)
  | .value v =>
  let r := { r with intensityCycleOrderCountThreshold := v }
  match readValue conf.intensityCycleTimeSpan i.product i.instr with
  | .missing => (r, none)
  | .unreadable => (r, some false)
  | .value v =>
  let r := { r with intensityCycleTimeSpanThreshold := v * 1000000000 }
  match readValue conf.instrLongVolume i.product i.instr with
  | .missing => (r, none)
  | .unreadable => (r, some false)
  | .value v =>
  let r := { r with longVolumeThreshold := v }
  match readValue conf.instrShortVolume i.product i.instr with
  | .missing => (r, none)
  | .unreadable => (r, some false)
  | .value v =>
  let r := { r with shortVolumeThreshold := v }
  match readValue conf.instrNetVolume i.product i.instr with
  | .missing => (r, none)
  | .unreadable => (r, some false)
  | .value v => ({ r with netVolumeThreshold := v }, some true)

/-- `*p_unit_vol` -/
def unitVol (ab : AccBase) (r : RiskInstr) : UnitVol :=
  ((r.pUnitVol.bind ab.mapInstr.deref).map (·.unitVol)).getD 0

/-- mirrors risk/RiskInstr.cpp:96-103 -/
def isIntensityNormal (execTime : Int) (r : RiskInstr) : Bool :=
  !(decide (r.intensityCycleOrderCount ≥ r.intensityCycleOrderCountThreshold) &&
    decide (((execTime - r.intensityCycleTimeRecord : Int) : ℚ) < r.intensityCycleTimeSpanThreshold))

/-- mirrors risk/RiskInstr.cpp:106-108 -/
def isSizeCorrect (size : Int) (r : RiskInstr) : Bool := size ≤ r.allowedOrderSizeThreshold

/-- mirrors risk/RiskInstr.cpp:112-115 -/
def isInstrumentLongVolumeCorrect (u : UnitVol) (vol : Int) (r : RiskInstr) : Bool :=
  wrap (u.posLong + u.posLongTdOpnIng + vol) ≤ r.longVolumeThreshold

/-- mirrors risk/RiskInstr.cpp:119-122 -/
def isInstrumentShortVolumeCorrect (u : UnitVol) (vol : Int) (r : RiskInstr) : Bool :=
  wrap (u.posShort + u.posShortTdOpnIng + vol) ≤ r.shortVolumeThreshold

/-- mirrors risk/RiskInstr.cpp:125-139 -/
def isInstrumentNetVolumeCorrect (u : UnitVol) (dir : Dir) (vol : Int) (r : RiskInstr) : Bool :=
  if dir = .buy then
    wrap (u.posLong - u.posShort + u.posShortYdClsIng + u.posLongTdOpnIng + u.posShortTdClsIng +
      vol) ≤ r.netVolumeThreshold
  else
    wrap (u.posShort - u.posLong + u.posLongYdClsIng + u.posShortTdOpnIng + u.posLongTdClsIng +
      vol) ≤ r.netVolumeThreshold

/-- mirrors risk/RiskInstr.cpp:150-176 -/
def check (ab : AccBase) (dir : Dir) (off : Off) (vol nano : Int) (r : RiskInstr) : Int :=
  let u := r.unitVol ab
  if !r.isAllowed then -200
  else if !r.isSizeCorrect vol then -202
  else if !r.isIntensityNormal nano then -203
  else if off = .opn ∧ dir = .buy ∧ !r.isInstrumentLongVolumeCorrect u vol then -210
  else if off = .opn ∧ dir ≠ .buy ∧ !r.isInstrumentShortVolumeCorrect u vol then -211
  else if !r.isInstrumentNetVolumeCorrect u dir vol then -212
  else 0

/-- The offset chosen for `Auto` and `Close`; a refused request keeps its own.
mirrors risk/RiskInstr.cpp:182-220 -/
def parseAutoOffset (ab : AccBase) (dir : Dir) (off : Off) (vol : Int) (r : RiskInstr) : Off × Int :=
  let u := r.unitVol ab
  match dir with
  | .buy =>
    if u.posShortYd - u.posShortYdClsIng ≥ vol then (.closeYesterday, 0)
    else if off ≠ .close ∧ r.longVolumeThreshold - u.posLong - u.posLongTdOpnIng ≥ vol then (.opn, 0)
    else if u.posShortTd - u.posShortTdClsIng ≥ vol then (.closeToday, 0)
    else (off, -270)
  | .sell =>
    if u.posLongYd - u.posLongYdClsIng ≥ vol then (.closeYesterday, 0)
    else if off ≠ .close ∧ r.shortVolumeThreshold - u.posShort - u.posShortTdOpnIng ≥ vol then
      (.opn, 0)
    else if u.posLongTd - u.posLongTdClsIng ≥ vol then (.closeToday, 0)
    else (off, -271)
  | .unknown _ => (off, -272)

/-- mirrors risk/RiskInstr.cpp:228-233 -/
def onNew (nano : Int) (r : RiskInstr) : RiskInstr :=
  let r := { r with intensityCycleOrderCount := r.intensityCycleOrderCount + 1 }
  if r.intensityCycleOrderCount > r.intensityCycleOrderCountThreshold then
    { r with intensityCycleOrderCount := 1, intensityCycleTimeRecord := nano }
  else r

end RiskInstr

/-! ## Products -/

/-- mirrors risk/RiskPrd.h:9-25 -/
structure RiskPrd where
  pUnitVol : Option (Ptr Hash) := none
  longVolumeThreshold : Int := 0
  shortVolumeThreshold : Int := 0
  netVolumeThreshold : Int := 0
  deriving DecidableEq, Repr

namespace RiskPrd

/-- mirrors risk/RiskPrd.cpp:9-44 -/
def init (conf : RiskConf) (info : TradeBaseInfo) (prdName : String) (ab : AccBase)
    (r : RiskPrd) : RiskPrd × Option Bool :=
  let r := { r with pUnitVol := some (ab.mapPrd.addr (info.nameHash prdName)) }
  match readValue conf.prdLongVolume prdName "" with
  | .missing => (r, none)
  | .unreadable => (r, some false)
  | .value v =>
  let r := { r with longVolumeThreshold := v }
  match readValue conf.prdShortVolume prdName "" with
  | .missing => (r, none)
  | .unreadable => (r, some false)
  | .value v =>
  let r := { r with shortVolumeThreshold := v }
  match readValue conf.prdNetVolume prdName "" with
  | .missing => (r, none)
  | .unreadable => (r, some false)
  | .value v => ({ r with netVolumeThreshold := v }, some true)

/-- `*p_unit_vol` -/
def unitVol (ab : AccBase) (r : RiskPrd) : UnitVol :=
  ((r.pUnitVol.bind ab.mapPrd.deref).map (·.unitVol)).getD 0

/-- mirrors risk/RiskPrd.cpp:47-49 -/
def isProductLongVolumeCorrect (u : UnitVol) (vol : Int) (r : RiskPrd) : Bool :=
  wrap (u.posLong + u.posLongTdOpnIng + vol) ≤ r.longVolumeThreshold

/-- mirrors risk/RiskPrd.cpp:52-54 -/
def isProductShortVolumeCorrect (u : UnitVol) (vol : Int) (r : RiskPrd) : Bool :=
  wrap (u.posShort + u.posShortTdOpnIng + vol) ≤ r.shortVolumeThreshold

/-- mirrors risk/RiskPrd.cpp:57-67 -/
def isProductNetVolumeCorrect (u : UnitVol) (dir : Dir) (vol : Int) (r : RiskPrd) : Bool :=
  if dir = .buy then
    wrap (u.posLong - u.posShort + u.posShortYdClsIng + u.posLongTdOpnIng + u.posShortTdClsIng +
      vol) ≤ r.netVolumeThreshold
  else
    wrap (u.posShort - u.posLong + u.posLongYdClsIng + u.posShortTdOpnIng + u.posLongTdClsIng +
      vol) ≤ r.netVolumeThreshold

/-- mirrors risk/RiskPrd.cpp:69-85 -/
def check (ab : AccBase) (dir : Dir) (off : Off) (vol : Int) (r : RiskPrd) : Int :=
  let u := r.unitVol ab
  if off = .opn ∧ dir = .buy ∧ !r.isProductLongVolumeCorrect u vol then -300
  else if off = .opn ∧ dir ≠ .buy ∧ !r.isProductShortVolumeCorrect u vol then -301
  else if !r.isProductNetVolumeCorrect u dir vol then -302
  else 0

end RiskPrd

/-! ## The account -/

/-- mirrors risk/RiskAcc.h:8-27 -/
structure RiskAcc where
  unfilledOrdCntThreshold : Int := 0
  amtLongThreshold : ℚ := 0
  amtShortThreshold : ℚ := 0
  netAmtThreshold : ℚ := 0
  deriving DecidableEq, Repr

namespace RiskAcc

/-- mirrors risk/RiskAcc.cpp:5-30 -/
def init (conf : RiskConf) (r : RiskAcc) : RiskAcc × Option Bool :=
  match conf.allowedMaxUnfilledOrderNumber with
  | .missing => (r, none)
  | .unreadable => (r, some false)
  | .value v =>
  let r := { r with unfilledOrdCntThreshold := v }
  match conf.accLongAmount with
  | .missing => (r, none)
  | .unreadable => (r, some false)
  | .value v =>
  let r := { r with amtLongThreshold := v }
  match conf.accShortAmount with
  | .missing => (r, none)
  | .unreadable => (r, some false)
  | .value v =>
  let r := { r with amtShortThreshold := v }
  match conf.accNetAmount with
  | .missing => (r, none)
  | .unreadable => (r, some false)
  | .value v => ({ r with netAmtThreshold := v }, some true)

/-- mirrors risk/RiskAcc.cpp:55-57 -/
def isUnfilledOrderCountCorrect (acc : ModAcc) (r : RiskAcc) : Bool :=
  acc.unfilledOrderCnt < r.unfilledOrdCntThreshold

/-- mirrors risk/RiskAcc.cpp:60-62 -/
def isLongAmountCorrect (u : UnitAmt) (amount : ℚ) (r : RiskAcc) : Bool :=
  u.amtLong + u.amtLongTdAddIng + amount ≤ r.amtLongThreshold

/-- mirrors risk/RiskAcc.cpp:65-67 -/
def isShortAmountCorrect (u : UnitAmt) (amount : ℚ) (r : RiskAcc) : Bool :=
  u.amtShort + u.amtShortTdAddIng + amount ≤ r.amtShortThreshold

/-- Both branches add the two pending closes of short positions.
mirrors risk/RiskAcc.cpp:70-82 -/
def isNetAmountCorrect (u : UnitAmt) (dir : Dir) (amount : ℚ) (r : RiskAcc) : Bool :=
  if dir = .buy then
    u.amtLong - u.amtShort + u.amtLongTdAddIng + u.amtShortYdSubIng + u.amtShortTdSubIng + amount ≤
      r.netAmtThreshold
  else
    u.amtShort - u.amtLong + u.amtShortTdAddIng + u.amtShortYdSubIng + u.amtShortTdSubIng + amount ≤
      r.netAmtThreshold

/-- mirrors risk/RiskAcc.cpp:32-52 -/
def check (acc : ModAcc) (dir : Dir) (off : Off) (px : ℚ) (vol volMultiple : Int) (r : RiskAcc) :
    Int :=
  let amount := px * vol * volMultiple
  if !r.isUnfilledOrderCountCorrect acc then -100
  else if off = .opn ∧ dir = .buy ∧ !r.isLongAmountCorrect acc.unitAmt amount then -110
  else if off = .opn ∧ dir ≠ .buy ∧ !r.isShortAmountCorrect acc.unitAmt amount then -111
  else if !r.isNetAmountCorrect acc.unitAmt dir amount then -112
  else 0

end RiskAcc

/-! ## What a passed check has found -/

/-- The volume limits of an instrument or a product. -/
structure Thresholds where
  long : Int
  short : Int
  net : Int
  deriving DecidableEq, Repr

def RiskInstr.thresholds (r : RiskInstr) : Thresholds :=
  ⟨r.longVolumeThreshold, r.shortVolumeThreshold, r.netVolumeThreshold⟩

def RiskPrd.thresholds (r : RiskPrd) : Thresholds :=
  ⟨r.longVolumeThreshold, r.shortVolumeThreshold, r.netVolumeThreshold⟩

/-- With the order pending in full the exposures it adds to are in the limits. -/
structure Admitted (th : Thresholds) (u : UnitVol) (dir : Dir) (off : Off) (vol : Int) : Prop where
  long : off = .opn → dir = .buy → u.posLong + u.posLongTdOpnIng + vol ≤ th.long
  short : off = .opn → dir ≠ .buy → u.posShort + u.posShortTdOpnIng + vol ≤ th.short
  netLong : dir = .buy → u.posLong - u.posShort +
    (u.posLongTdOpnIng + u.posShortYdClsIng + u.posShortTdClsIng) + vol ≤ th.net
  netShort : dir ≠ .buy → u.posShort - u.posLong +
    (u.posShortTdOpnIng + u.posLongYdClsIng + u.posLongTdClsIng) + vol ≤ th.net

/-- The sums of the checks do not leave the range of `int`. -/
structure SumsFit (u : UnitVol) (dir : Dir) (off : Off) (vol : Int) : Prop where
  long : off = .opn → dir = .buy → InInt (u.posLong + u.posLongTdOpnIng + vol)
  short : off = .opn → dir ≠ .buy → InInt (u.posShort + u.posShortTdOpnIng + vol)
  netLong : dir = .buy → InInt (u.posLong - u.posShort + u.posShortYdClsIng + u.posLongTdOpnIng +
    u.posShortTdClsIng + vol)
  netShort : dir ≠ .buy → InInt (u.posShort - u.posLong + u.posLongYdClsIng + u.posShortTdOpnIng +
    u.posLongTdClsIng + vol)

/-- The two checks of a level, which differ in their codes only. -/
theorem admitted_of_not {th : Thresholds} {u : UnitVol} {dir : Dir} {off : Off} {vol : Int}
    (hs : SumsFit u dir off vol)
    (h1 : off = .opn → dir = .buy → wrap (u.posLong + u.posLongTdOpnIng + vol) ≤ th.long)
    (h2 : off = .opn → dir ≠ .buy → wrap (u.posShort + u.posShortTdOpnIng + vol) ≤ th.short)
    (h3 : if dir = .buy then
        wrap (u.posLong - u.posShort + u.posShortYdClsIng + u.posLongTdOpnIng + u.posShortTdClsIng +
          vol) ≤ th.net
      else
        wrap (u.posShort - u.posLong + u.posLongYdClsIng + u.posShortTdOpnIng + u.posLongTdClsIng +
          vol) ≤ th.net) : Admitted th u dir off vol := by
  refine ⟨fun ho hd => ?_, fun ho hd => ?_, fun hd => ?_, fun hd => ?_⟩
  · have h := h1 ho hd
    rwa [wrap_of_inInt (hs.long ho hd)] at h
  · have h := h2 ho hd
    rwa [wrap_of_inInt (hs.short ho hd)] at h
  · rw [if_pos hd, wrap_of_inInt (hs.netLong hd)] at h3
    omega
  · rw [if_neg hd, wrap_of_inInt (hs.netShort hd)] at h3
    omega

theorem RiskPrd.admitted_of_check {r : RiskPrd} {ab : AccBase} {dir : Dir} {off : Off} {vol : Int}
    (hs : SumsFit (r.unitVol ab) dir off vol) (h : r.check ab dir off vol = 0) :
    Admitted r.thresholds (r.unitVol ab) dir off vol := by
  simp only [check] at h
  split at h
  · cases h
  split at h
  · cases h
  split at h
  · cases h
  rename_i h1 h2 h3
  simp only [isProductLongVolumeCorrect, isProductShortVolumeCorrect, isProductNetVolumeCorrect,
    Bool.not_eq_true', decide_eq_false_iff_not, not_and, not_not] at h1 h2 h3
  refine admitted_of_not hs h1 h2 ?_
  by_cases hd : dir = .buy
  · rw [if_pos hd] at h3 ⊢
    exact of_decide_eq_true (Bool.eq_true_of_not_eq_false h3)
  · rw [if_neg hd] at h3 ⊢
    exact of_decide_eq_true (Bool.eq_true_of_not_eq_false h3)

theorem RiskInstr.admitted_of_check {r : RiskInstr} {ab : AccBase} {dir : Dir} {off : Off}
    {vol nano : Int} (hs : SumsFit (r.unitVol ab) dir off vol)
    (h : r.check ab dir off vol nano = 0) :
    Admitted r.thresholds (r.unitVol ab) dir off vol := by
  simp only [check] at h
  split at h
  · cases h
  split at h
  · cases h
  split at h
  · cases h
  split at h
  · cases h
  split at h
  · cases h
  split at h
  · cases h
  rename_i h1 h2 h3
  simp only [isInstrumentLongVolumeCorrect, isInstrumentShortVolumeCorrect,
    isInstrumentNetVolumeCorrect, Bool.not_eq_true', decide_eq_false_iff_not, not_and,
    not_not] at h1 h2 h3
  refine admitted_of_not hs h1 h2 ?_
  by_cases hd : dir = .buy
  · rw [if_pos hd] at h3 ⊢
    exact of_decide_eq_true (Bool.eq_true_of_not_eq_false h3)
  · rw [if_neg hd] at h3 ⊢
    exact of_decide_eq_true (Bool.eq_true_of_not_eq_false h3)

end NatFramework.Risk
