import Mathlib.Algebra.Group.Equiv.TypeTags
import Mathlib.Algebra.Group.Int.Defs
import Mathlib.Algebra.Group.Hom.Defs
import Mathlib.Algebra.Order.Ring.Rat
import Mathlib.Tactic.Ring
import Mathlib.Tactic.Simps.Basic
import NatFramework.Base

/-!
# The units of the account: volumes, amounts, prices, pnl

`account/UnitVol`, `UnitAmt`, `UnitPx`, `UnitPnl`. Prices and amounts are numbers
of a type `α` with the operations the code uses: `Float`, the `double` of the code,
or `ℚ`, the same in exact arithmetic, which stands where no `α` is named.

The 18 volume events and the 10 amount events each add fixed numbers to some
fields, so `UnitVol` and, in exact arithmetic, `UnitAmt` and `UnitPnl` are made
additive groups (field by field) and an event is `u + {the fields it changes}`,
the unnamed fields being 0.
-/
namespace NatFramework.Account

/-- An `int` as a `double`. -/
instance intCastFloat : IntCast Float := ⟨Float.ofInt⟩

/-! ## UnitVol -/

/-- mirrors account/UnitVol.h:32-49 -/
@[ext] structure UnitVol where
  posLongYdIni : Int := 0
  posLongYd : Int := 0
  posLongTd : Int := 0
  posLong : Int := 0
  posLongYdClsIng : Int := 0
  posLongTdClsIng : Int := 0
  posLongTdOpnIng : Int := 0
  posShortYdIni : Int := 0
  posShortYd : Int := 0
  posShortTd : Int := 0
  posShort : Int := 0
  posShortYdClsIng : Int := 0
  posShortTdClsIng : Int := 0
  posShortTdOpnIng : Int := 0
  posBuy : Int := 0
  posSell : Int := 0
  deriving DecidableEq, Repr

namespace UnitVol

@[simps] instance : Zero UnitVol where zero := {}

@[simps] instance : Add UnitVol where
  add a b :=
    ⟨a.posLongYdIni + b.posLongYdIni, a.posLongYd + b.posLongYd, a.posLongTd + b.posLongTd,
     a.posLong + b.posLong, a.posLongYdClsIng + b.posLongYdClsIng,
     a.posLongTdClsIng + b.posLongTdClsIng, a.posLongTdOpnIng + b.posLongTdOpnIng,
     a.posShortYdIni + b.posShortYdIni, a.posShortYd + b.posShortYd,
     a.posShortTd + b.posShortTd, a.posShort + b.posShort,
     a.posShortYdClsIng + b.posShortYdClsIng, a.posShortTdClsIng + b.posShortTdClsIng,
     a.posShortTdOpnIng + b.posShortTdOpnIng, a.posBuy + b.posBuy, a.posSell + b.posSell⟩

@[simps] instance : Neg UnitVol where
  neg a :=
    ⟨-a.posLongYdIni, -a.posLongYd, -a.posLongTd, -a.posLong, -a.posLongYdClsIng,
     -a.posLongTdClsIng, -a.posLongTdOpnIng, -a.posShortYdIni, -a.posShortYd, -a.posShortTd,
     -a.posShort, -a.posShortYdClsIng, -a.posShortTdClsIng, -a.posShortTdOpnIng, -a.posBuy,
     -a.posSell⟩

@[simps] instance : Sub UnitVol where
  sub a b :=
    ⟨a.posLongYdIni - b.posLongYdIni, a.posLongYd - b.posLongYd, a.posLongTd - b.posLongTd,
     a.posLong - b.posLong, a.posLongYdClsIng - b.posLongYdClsIng,
     a.posLongTdClsIng - b.posLongTdClsIng, a.posLongTdOpnIng - b.posLongTdOpnIng,
     a.posShortYdIni - b.posShortYdIni, a.posShortYd - b.posShortYd, a.posShortTd - b.posShortTd,
     a.posShort - b.posShort, a.posShortYdClsIng - b.posShortYdClsIng,
     a.posShortTdClsIng - b.posShortTdClsIng, a.posShortTdOpnIng - b.posShortTdOpnIng,
     a.posBuy - b.posBuy, a.posSell - b.posSell⟩

instance : AddCommGroup UnitVol where
  add_assoc a b c := by ext <;> simp [add_assoc]
  zero_add a := by ext <;> simp
  add_zero a := by ext <;> simp
  neg_add_cancel a := by ext <;> simp
  add_comm a b := by ext <;> simp [add_comm]
  sub_eq_add_neg a b := by ext <;> simp [sub_eq_add_neg]
  nsmul := nsmulRec
  zsmul := zsmulRec

/-- mirrors account/UnitVol.cpp:58-74 -/
def onSwitchDay (u : UnitVol) : UnitVol where
  posLongYdIni := u.posLong
  posLongYdClsIng := 0
  posLongYd := u.posLong
  posLongTdOpnIng := 0
  posLongTdClsIng := 0
  posLongTd := 0
  posLong := u.posLong
  posShortYdIni := u.posShort
  posShortYdClsIng := 0
  posShortYd := u.posShort
  posShortTdOpnIng := 0
  posShortTdClsIng := 0
  posShortTd := 0
  posShort := u.posShort
  posBuy := 0
  posSell := 0

/-- mirrors account/UnitVol.cpp:76-79 -/
def onBuyOpnNew (vol : Int) (u : UnitVol) : UnitVol := u + { posLongTdOpnIng := vol }

/-- mirrors account/UnitVol.cpp:81-84 -/
def onBuyOpnCxl (vol : Int) (u : UnitVol) : UnitVol := u + { posLongTdOpnIng := -vol }

/-- mirrors account/UnitVol.cpp:86-92 -/
def onBuyOpnTrd (vol : Int) (u : UnitVol) : UnitVol :=
  u + { posLongTdOpnIng := -vol, posLongTd := vol, posLong := vol, posBuy := vol }

/-- mirrors account/UnitVol.cpp:94-97 -/
def onSellOpnNew (vol : Int) (u : UnitVol) : UnitVol := u + { posShortTdOpnIng := vol }

/-- mirrors account/UnitVol.cpp:99-102 -/
def onSellOpnCxl (vol : Int) (u : UnitVol) : UnitVol := u + { posShortTdOpnIng := -vol }

/-- mirrors account/UnitVol.cpp:104-110 -/
def onSellOpnTrd (vol : Int) (u : UnitVol) : UnitVol :=
  u + { posShortTdOpnIng := -vol, posShortTd := vol, posShort := vol, posSell := vol }

/-- mirrors account/UnitVol.cpp:112-115 -/
def onBuyClsYdNew (vol : Int) (u : UnitVol) : UnitVol := u + { posShortYdClsIng := vol }

/-- mirrors account/UnitVol.cpp:117-120 -/
def onBuyClsYdCxl (vol : Int) (u : UnitVol) : UnitVol := u + { posShortYdClsIng := -vol }

/-- mirrors account/UnitVol.cpp:122-128 -/
def onBuyClsYdTrd (vol : Int) (u : UnitVol) : UnitVol :=
  u + { posShortYdClsIng := -vol, posShortYd := -vol, posShort := -vol, posBuy := vol }

/-- mirrors account/UnitVol.cpp:130-133 -/
def onSellClsYdNew (vol : Int) (u : UnitVol) : UnitVol := u + { posLongYdClsIng := vol }

/-- mirrors account/UnitVol.cpp:135-138 -/
def onSellClsYdCxl (vol : Int) (u : UnitVol) : UnitVol := u + { posLongYdClsIng := -vol }

/-- mirrors account/UnitVol.cpp:140-146 -/
def onSellClsYdTrd (vol : Int) (u : UnitVol) : UnitVol :=
  u + { posLongYdClsIng := -vol, posLongYd := -vol, posLong := -vol, posSell := vol }

/-- mirrors account/UnitVol.cpp:148-151 -/
def onBuyClsTdNew (vol : Int) (u : UnitVol) : UnitVol := u + { posShortTdClsIng := vol }

/-- mirrors account/UnitVol.cpp:153-156 -/
def onBuyClsTdCxl (vol : Int) (u : UnitVol) : UnitVol := u + { posShortTdClsIng := -vol }

/-- mirrors account/UnitVol.cpp:158-164 -/
def onBuyClsTdTrd (vol : Int) (u : UnitVol) : UnitVol :=
  u + { posShortTdClsIng := -vol, posShortTd := -vol, posShort := -vol, posBuy := vol }

/-- mirrors account/UnitVol.cpp:166-169 -/
def onSellClsTdNew (vol : Int) (u : UnitVol) : UnitVol := u + { posLongTdClsIng := vol }

/-- mirrors account/UnitVol.cpp:171-174 -/
def onSellClsTdCxl (vol : Int) (u : UnitVol) : UnitVol := u + { posLongTdClsIng := -vol }

/-- mirrors account/UnitVol.cpp:176-182 -/
def onSellClsTdTrd (vol : Int) (u : UnitVol) : UnitVol :=
  u + { posLongTdClsIng := -vol, posLongTd := -vol, posLong := -vol, posSell := vol }

end UnitVol

/-! ## UnitAmt -/

/-- mirrors account/UnitAmt.h:30-46 -/
@[ext] structure UnitAmt (α : Type := ℚ) [OfNat α 0] where
  amtLongYdSubIng : α := 0
  amtLongTdAddIng : α := 0
  amtLongTdSubIng : α := 0
  amtLong : α := 0
  amtShortYdSubIng : α := 0
  amtShortTdAddIng : α := 0
  amtShortTdSubIng : α := 0
  amtShort : α := 0
  amtBuy : α := 0
  amtSell : α := 0
  deriving DecidableEq, Repr

namespace UnitAmt

variable {α : Type} [OfNat α 0] [Add α] [Sub α] [Mul α] [Div α] [Neg α] [IntCast α]

@[simps] instance : Zero (UnitAmt α) where zero := {}

@[simps] instance : Add UnitAmt where
  add a b :=
    ⟨a.amtLongYdSubIng + b.amtLongYdSubIng, a.amtLongTdAddIng + b.amtLongTdAddIng,
     a.amtLongTdSubIng + b.amtLongTdSubIng, a.amtLong + b.amtLong,
     a.amtShortYdSubIng + b.amtShortYdSubIng, a.amtShortTdAddIng + b.amtShortTdAddIng,
     a.amtShortTdSubIng + b.amtShortTdSubIng, a.amtShort + b.amtShort, a.amtBuy + b.amtBuy,
     a.amtSell + b.amtSell⟩

@[simps] instance : Neg UnitAmt where
  neg a :=
    ⟨-a.amtLongYdSubIng, -a.amtLongTdAddIng, -a.amtLongTdSubIng, -a.amtLong,
     -a.amtShortYdSubIng, -a.amtShortTdAddIng, -a.amtShortTdSubIng, -a.amtShort, -a.amtBuy,
     -a.amtSell⟩

@[simps] instance : Sub UnitAmt where
  sub a b :=
    ⟨a.amtLongYdSubIng - b.amtLongYdSubIng, a.amtLongTdAddIng - b.amtLongTdAddIng,
     a.amtLongTdSubIng - b.amtLongTdSubIng, a.amtLong - b.amtLong,
     a.amtShortYdSubIng - b.amtShortYdSubIng, a.amtShortTdAddIng - b.amtShortTdAddIng,
     a.amtShortTdSubIng - b.amtShortTdSubIng, a.amtShort - b.amtShort, a.amtBuy - b.amtBuy,
     a.amtSell - b.amtSell⟩

instance : AddCommGroup UnitAmt where
  add_assoc a b c := by ext <;> simp [add_assoc]
  zero_add a := by ext <;> simp
  add_zero a := by ext <;> simp
  neg_add_cancel a := by ext <;> simp
  add_comm a b := by ext <;> simp [add_comm]
  sub_eq_add_neg a b := by ext <;> simp [sub_eq_add_neg]
  nsmul := nsmulRec
  zsmul := zsmulRec

/-- mirrors account/UnitAmt.cpp:46-56 -/
def onSwitchDay (u : UnitAmt α) : UnitAmt α :=
  { u with
    amtLongYdSubIng := 0, amtLongTdAddIng := 0, amtLongTdSubIng := 0
    amtShortYdSubIng := 0, amtShortTdAddIng := 0, amtShortTdSubIng := 0
    amtBuy := 0, amtSell := 0 }

/-- mirrors account/UnitAmt.cpp:58-61 -/
def calcAmtChangeOnPxChange (curPx lastPx : α) (pos volMultiple : Int) : α :=
  (curPx - lastPx) * pos * volMultiple

/-- mirrors account/UnitAmt.cpp:63-66 -/
def calcAmtChangeOnTrd (trdPx : α) (trdVol volMultiple : Int) : α := trdPx * trdVol * volMultiple

/-- mirrors account/UnitAmt.cpp:68-71 -/
def calcAmtIngChangeOnNewCxlTrd (px : α) (vol volMultiple : Int) : α := px * vol * volMultiple

/-- mirrors account/UnitAmt.cpp:73-76 -/
def onAmtLongYdSubIngChange (amt : α) (u : UnitAmt α) : UnitAmt α :=
  { u with amtLongYdSubIng := u.amtLongYdSubIng + amt }

/-- mirrors account/UnitAmt.cpp:78-81 -/
def onAmtLongTdAddIngChange (amt : α) (u : UnitAmt α) : UnitAmt α :=
  { u with amtLongTdAddIng := u.amtLongTdAddIng + amt }

/-- mirrors account/UnitAmt.cpp:83-86 -/
def onAmtLongTdSubIngChange (amt : α) (u : UnitAmt α) : UnitAmt α :=
  { u with amtLongTdSubIng := u.amtLongTdSubIng + amt }

/-- mirrors account/UnitAmt.cpp:88-91 -/
def onAmtLongChange (amt : α) (u : UnitAmt α) : UnitAmt α :=
  { u with amtLong := u.amtLong + amt }

/-- mirrors account/UnitAmt.cpp:93-96 -/
def onAmtShortYdSubIngChange (amt : α) (u : UnitAmt α) : UnitAmt α :=
  { u with amtShortYdSubIng := u.amtShortYdSubIng + amt }

/-- mirrors account/UnitAmt.cpp:98-101 -/
def onAmtShortTdAddIngChange (amt : α) (u : UnitAmt α) : UnitAmt α :=
  { u with amtShortTdAddIng := u.amtShortTdAddIng + amt }

/-- mirrors account/UnitAmt.cpp:103-106 -/
def onAmtShortTdSubIngChange (amt : α) (u : UnitAmt α) : UnitAmt α :=
  { u with amtShortTdSubIng := u.amtShortTdSubIng + amt }

/-- mirrors account/UnitAmt.cpp:108-111 -/
def onAmtShortChange (amt : α) (u : UnitAmt α) : UnitAmt α :=
  { u with amtShort := u.amtShort + amt }

/-- mirrors account/UnitAmt.cpp:113-116 -/
def onAmtBuyChange (amt : α) (u : UnitAmt α) : UnitAmt α :=
  { u with amtBuy := u.amtBuy + amt }

/-- mirrors account/UnitAmt.cpp:118-121 -/
def onAmtSellChange (amt : α) (u : UnitAmt α) : UnitAmt α :=
  { u with amtSell := u.amtSell + amt }

/-! In exact arithmetic an event adds what it changes. -/

theorem onAmtLongYdSubIngChange_eq (amt : ℚ) :
    onAmtLongYdSubIngChange amt = fun u : UnitAmt => u + { amtLongYdSubIng := amt } := by
  funext u
  ext <;> simp [onAmtLongYdSubIngChange]

theorem onAmtLongTdAddIngChange_eq (amt : ℚ) :
    onAmtLongTdAddIngChange amt = fun u : UnitAmt => u + { amtLongTdAddIng := amt } := by
  funext u
  ext <;> simp [onAmtLongTdAddIngChange]

theorem onAmtLongTdSubIngChange_eq (amt : ℚ) :
    onAmtLongTdSubIngChange amt = fun u : UnitAmt => u + { amtLongTdSubIng := amt } := by
  funext u
  ext <;> simp [onAmtLongTdSubIngChange]

theorem onAmtLongChange_eq (amt : ℚ) :
    onAmtLongChange amt = fun u : UnitAmt => u + { amtLong := amt } := by
  funext u
  ext <;> simp [onAmtLongChange]

theorem onAmtShortYdSubIngChange_eq (amt : ℚ) :
    onAmtShortYdSubIngChange amt = fun u : UnitAmt => u + { amtShortYdSubIng := amt } := by
  funext u
  ext <;> simp [onAmtShortYdSubIngChange]

theorem onAmtShortTdAddIngChange_eq (amt : ℚ) :
    onAmtShortTdAddIngChange amt = fun u : UnitAmt => u + { amtShortTdAddIng := amt } := by
  funext u
  ext <;> simp [onAmtShortTdAddIngChange]

theorem onAmtShortTdSubIngChange_eq (amt : ℚ) :
    onAmtShortTdSubIngChange amt = fun u : UnitAmt => u + { amtShortTdSubIng := amt } := by
  funext u
  ext <;> simp [onAmtShortTdSubIngChange]

theorem onAmtShortChange_eq (amt : ℚ) :
    onAmtShortChange amt = fun u : UnitAmt => u + { amtShort := amt } := by
  funext u
  ext <;> simp [onAmtShortChange]

theorem onAmtBuyChange_eq (amt : ℚ) :
    onAmtBuyChange amt = fun u : UnitAmt => u + { amtBuy := amt } := by
  funext u
  ext <;> simp [onAmtBuyChange]

theorem onAmtSellChange_eq (amt : ℚ) :
    onAmtSellChange amt = fun u : UnitAmt => u + { amtSell := amt } := by
  funext u
  ext <;> simp [onAmtSellChange]

/-- The fields that the product and the account keep as well: all but the
bought and sold amounts. -/
def shared : UnitAmt →+ UnitAmt where
  toFun u := { u with amtBuy := 0, amtSell := 0 }
  map_zero' := rfl
  map_add' a b := by ext <;> simp

end UnitAmt

/-! ## UnitPnl -/

/-- mirrors account/UnitPnl.h:21-22 -/
@[ext] structure UnitPnl (α : Type := ℚ) [OfNat α 0] where
  posPnl : α := 0
  trdPnl : α := 0
  deriving DecidableEq, Repr

namespace UnitPnl

variable {α : Type} [OfNat α 0] [Add α] [Sub α] [Mul α] [Div α] [Neg α] [IntCast α]

@[simps] instance : Zero (UnitPnl α) where zero := {}

@[simps] instance : Add UnitPnl where
  add a b :=
    ⟨a.posPnl + b.posPnl, a.trdPnl + b.trdPnl⟩

@[simps] instance : Neg UnitPnl where
  neg a :=
    ⟨-a.posPnl, -a.trdPnl⟩

@[simps] instance : Sub UnitPnl where
  sub a b :=
    ⟨a.posPnl - b.posPnl, a.trdPnl - b.trdPnl⟩

instance : AddCommGroup UnitPnl where
  add_assoc a b c := by ext <;> simp [add_assoc]
  zero_add a := by ext <;> simp
  add_zero a := by ext <;> simp
  neg_add_cancel a := by ext <;> simp
  add_comm a b := by ext <;> simp [add_comm]
  sub_eq_add_neg a b := by ext <;> simp [sub_eq_add_neg]
  nsmul := nsmulRec
  zsmul := zsmulRec

/-- mirrors account/UnitPnl.cpp:30-34 -/
def onSwitchDay (_ : UnitPnl α) : UnitPnl α := { posPnl := 0, trdPnl := 0 }

/-- mirrors account/UnitPnl.cpp:36-39 -/
def calcPosPnlChangeOnPxChange (curPx lastPx : α) (posLongYdIni posShortYdIni volMultiple : Int) : α :=
  (curPx - lastPx) * ((posLongYdIni - posShortYdIni : Int) : α) * volMultiple

/-- mirrors account/UnitPnl.cpp:41-44 -/
def calcTrdPnlChangeOnPxChange (curPx lastPx : α) (posBuy posSell volMultiple : Int) : α :=
  (curPx - lastPx) * ((posBuy - posSell : Int) : α) * volMultiple

/-- mirrors account/UnitPnl.cpp:46-49 -/
def onPosPnlChange (delta : α) (u : UnitPnl α) : UnitPnl α := { u with posPnl := u.posPnl + delta }

/-- mirrors account/UnitPnl.cpp:51-54 -/
def onTrdPnlChange (delta : α) (u : UnitPnl α) : UnitPnl α := { u with trdPnl := u.trdPnl + delta }

theorem onPosPnlChange_eq (delta : ℚ) : onPosPnlChange delta = fun u : UnitPnl => u + { posPnl := delta } := by
  funext u
  ext <;> simp [onPosPnlChange]

theorem onTrdPnlChange_eq (delta : ℚ) : onTrdPnlChange delta = fun u : UnitPnl => u + { trdPnl := delta } := by
  funext u
  ext <;> simp [onTrdPnlChange]

end UnitPnl

/-! ## UnitPx -/

/-- mirrors account/UnitPx.h:18-21 -/
@[ext] structure UnitPx (α : Type := ℚ) [OfNat α 0] where
  stlPxYd : α := 0
  lastPx : α := 0
  avgPxBuy : α := 0
  avgPxSell : α := 0
  deriving DecidableEq, Repr

namespace UnitPx

variable {α : Type} [OfNat α 0] [Add α] [Sub α] [Mul α] [Div α] [Neg α] [IntCast α]

/-- mirrors account/UnitPx.cpp:34-39 -/
def onSwitchDay (u : UnitPx α) : UnitPx α := { u with stlPxYd := u.lastPx, avgPxBuy := 0, avgPxSell := 0 }

/-- mirrors account/UnitPx.cpp:41-51 -/
def calcAvgPx (amt : α) (pos volMultiple : Int) : α :=
  if pos = 0 ∨ volMultiple = 0 then 0 else amt / pos / volMultiple

end UnitPx

end NatFramework.Account
