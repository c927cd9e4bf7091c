import Mathlib.Data.Rat.Defs
import Mathlib.Algebra.Order.Ring.Rat
import NatFramework.Base

/-!
# One bar

`bar/BarHelper` and `bar/Bar2`: where a tick lies in the trading day, and what
a bar takes from it.

* A day starts at `intra_day_base_sec` Beijing time. That static variable is the
  parameter `base` here; divisions are those of C, towards zero.
* `bob` and `eob` are seconds after the start of the day until `settle` turns
  them into nanoseconds.
* `double` prices and amounts are exact rationals. The order book of a tick is
  left out, no bar reads it.
-/
namespace NatFramework.Bar

/-- mirrors include/ATStructure.h:108-142 -/
structure UnitedMarketData where
  instrHash : Hash := 0
  lastPx : ℚ := 0
  cumVol : Int := 0
  cumTurnover : ℚ := 0
  openInterest : ℚ := 0
  exchTime : Int := 0
  deriving DecidableEq, Repr

/-! ## BarHelper -/

/-- mirrors bar/BarHelper.cpp:8 -/
def intraDayBaseSec : Int := 18 * 3600

/-- mirrors bar/BarHelper.cpp:15-17 -/
def getBaseSec (base nano : Int) : Int :=
  (nano.tdiv 1000000000 + 8 * 3600 - base).tdiv 86400 * 86400 - 8 * 3600 + base

/-- mirrors bar/BarHelper.cpp:19-21 -/
def getBaseIntervalFromBjtSec (base bjtSec : Int) : Int := (bjtSec - base + 86400).tmod 86400

/-- mirrors bar/BarHelper.cpp:23-26 -/
def getBaseIntervalFromNano (base nano : Int) : Int := nano.tdiv 1000000000 - getBaseSec base nano

/-- The second of the trading day a tick falls in. -/
abbrev UnitedMarketData.sec (base : Int) (umd : UnitedMarketData) : Int :=
  getBaseIntervalFromNano base umd.exchTime

/-! ## Bar2 -/

/-- mirrors include/ATStructure.h:144-165 (`Bar`) and bar/Bar2.h:8-30 -/
structure Bar2 where
  instrHash : Hash := -1
  instr : String := ""
  cycleSec : Int := 0
  bob : Int := 0
  eob : Int := 0
  open_ : ℚ := 0
  high : ℚ := 0
  low : ℚ := 0
  close : ℚ := 0
  deltaClose : ℚ := 0
  cumVol : Int := 0
  vol : Int := 0
  cumTurnover : ℚ := 0
  turnover : ℚ := 0
  openInt : ℚ := 0
  deltaOpenInt : ℚ := 0
  isAuction : Bool := false
  adjustBob : Int := 0
  adjustEob : Int := 0
  baseSec : Int := 0
  preBaseSec : Int := 0
  preClose : ℚ := 0
  preCumVol : Int := 0
  preCumTurnover : ℚ := 0
  preOpenInt : ℚ := 0
  settleSec : Int := 0
  deriving DecidableEq, Repr

/-- The three answers of `isInCurBar`: 0, 1 and -1. -/
inductive Pos where
  | cur | next | pre
  deriving DecidableEq, Repr

namespace Bar2

variable (base : Int)

/-- mirrors bar/Bar2.cpp:4-18 -/
def isInCurBar (b : Bar2) (baseSecInterval : Int) : Pos :=
  if b.adjustBob ≤ baseSecInterval ∧ baseSecInterval < b.adjustEob then .cur
  else if b.adjustEob ≤ baseSecInterval then .next
  else .pre

/-- mirrors bar/Bar2.cpp:20-38 -/
def isNeedUpdateOpen (b : Bar2) (umd : UnitedMarketData) : Bool :=
  if b.isAuction then
    let sec := getBaseIntervalFromNano base umd.exchTime
    decide (b.bob ≤ sec ∧ sec < b.eob)
  else decide (b.open_ = 0)

/-- mirrors bar/Bar2.cpp:40-43 -/
def isNeedUpdatePre (b : Bar2) : Bool := decide (b.preClose = 0)

/-- mirrors bar/Bar2.cpp:45-58 -/
def isNeedUpdateOhlc (b : Bar2) (umd : UnitedMarketData) : Bool :=
  let sec := getBaseIntervalFromNano base umd.exchTime
  decide (b.bob ≤ sec ∧ sec < b.eob) || decide (b.settleSec ≠ 0 ∧ sec = b.settleSec)

/-- mirrors bar/Bar2.cpp:60-78 -/
def isNeedSettle (b : Bar2) (umd : UnitedMarketData) : Bool :=
  let sec := getBaseIntervalFromNano base umd.exchTime
  if b.isAuction then decide (b.bob ≤ sec ∧ sec < b.eob)
  else decide (b.settleSec ≠ 0 ∧ sec = b.settleSec)

/-- mirrors bar/Bar2.cpp:80-83 -/
def updateOpen (b : Bar2) (umd : UnitedMarketData) : Bar2 := { b with open_ := umd.lastPx }

/-- mirrors bar/Bar2.cpp:85-105 -/
def updateBar (b : Bar2) (umd : UnitedMarketData) : Bar2 :=
  { b with
    high := if umd.lastPx > b.high then umd.lastPx else b.high
    low := if umd.lastPx < b.low ∨ b.low = 0 then umd.lastPx else b.low
    close := umd.lastPx
    cumVol := umd.cumVol
    cumTurnover := umd.cumTurnover
    openInt := umd.openInterest
    baseSec := if b.baseSec = 0 then getBaseSec base umd.exchTime else b.baseSec }

/-- mirrors bar/Bar2.cpp:107-115 -/
def updatePre (b : Bar2) (umd : UnitedMarketData) : Bar2 :=
  { b with
    preBaseSec := getBaseSec base umd.exchTime
    preClose := umd.lastPx
    preCumVol := umd.cumVol
    preCumTurnover := umd.cumTurnover
    preOpenInt := umd.openInterest }

/-- The first part of `settle`: a bar without a tick repeats its reference values.
mirrors bar/Bar2.cpp:119-126 -/
def fillEmpty (b : Bar2) (umd : UnitedMarketData) : Bar2 :=
  if b.open_ = 0 then
    { b with
      open_ := b.preClose
      high := b.preClose
      low := b.preClose
      close := b.preClose
      cumVol := b.preCumVol
      cumTurnover := b.preCumTurnover
      openInt := b.preOpenInt
      baseSec := getBaseSec base umd.exchTime }
  else b

/-- mirrors bar/Bar2.cpp:117-137 -/
def settle (b : Bar2) (umd : UnitedMarketData) : Bar2 :=
  let b := b.fillEmpty base umd
  { b with
    deltaClose := b.close - b.preClose
    vol := b.cumVol - b.preCumVol
    turnover := b.cumTurnover - b.preCumTurnover
    deltaOpenInt := b.openInt - b.preOpenInt
    bob := (b.bob + b.baseSec) * 1000000000
    eob := (b.eob + b.baseSec) * 1000000000 }

/-! ### Where a tick lies -/

theorem isInCurBar_eq_next {b : Bar2} {sec : Int} : b.isInCurBar sec = .next ↔ b.adjustEob ≤ sec := by
  unfold isInCurBar
  split
  · simp; omega
  · split <;> simp [*]

theorem isInCurBar_eq_cur {b : Bar2} {sec : Int} :
    b.isInCurBar sec = .cur ↔ b.adjustBob ≤ sec ∧ sec < b.adjustEob := by
  unfold isInCurBar
  split
  · simp [*]
  · split <;> simp [*]

theorem isInCurBar_eq_pre {b : Bar2} {sec : Int} :
    b.isInCurBar sec = .pre ↔ sec < b.adjustBob ∧ sec < b.adjustEob := by
  unfold isInCurBar
  split
  · simp; omega
  · split
    · simp; omega
    · simp; omega

/-! ### What each update leaves alone -/

/-- Two bars with the same times: what `isInCurBar` and the tests of a tick read,
prices apart. -/
structure SameTimes (b b' : Bar2) : Prop where
  bob : b'.bob = b.bob
  eob : b'.eob = b.eob
  adjustBob : b'.adjustBob = b.adjustBob
  adjustEob : b'.adjustEob = b.adjustEob
  settleSec : b'.settleSec = b.settleSec
  isAuction : b'.isAuction = b.isAuction

theorem SameTimes.refl (b : Bar2) : SameTimes b b := ⟨rfl, rfl, rfl, rfl, rfl, rfl⟩

theorem SameTimes.trans {a b c : Bar2} (h : SameTimes a b) (h' : SameTimes b c) : SameTimes a c :=
  ⟨h'.bob.trans h.bob, h'.eob.trans h.eob, h'.adjustBob.trans h.adjustBob,
    h'.adjustEob.trans h.adjustEob, h'.settleSec.trans h.settleSec, h'.isAuction.trans h.isAuction⟩

theorem sameTimes_updateOpen (b : Bar2) (umd : UnitedMarketData) : SameTimes b (b.updateOpen umd) :=
  ⟨rfl, rfl, rfl, rfl, rfl, rfl⟩

theorem sameTimes_updatePre (b : Bar2) (umd : UnitedMarketData) :
    SameTimes b (b.updatePre base umd) := ⟨rfl, rfl, rfl, rfl, rfl, rfl⟩

theorem sameTimes_fillEmpty (b : Bar2) (umd : UnitedMarketData) :
    SameTimes b (b.fillEmpty base umd) := by
  unfold fillEmpty
  split
  · exact ⟨rfl, rfl, rfl, rfl, rfl, rfl⟩
  · exact SameTimes.refl b

@[simp] theorem settle_adjustBob (b : Bar2) (umd : UnitedMarketData) :
    (b.settle base umd).adjustBob = b.adjustBob := (b.sameTimes_fillEmpty base umd).adjustBob

@[simp] theorem settle_adjustEob (b : Bar2) (umd : UnitedMarketData) :
    (b.settle base umd).adjustEob = b.adjustEob := (b.sameTimes_fillEmpty base umd).adjustEob

@[simp] theorem updatePre_open (b : Bar2) (umd : UnitedMarketData) :
    (b.updatePre base umd).open_ = b.open_ := rfl

@[simp] theorem updatePre_preClose (b : Bar2) (umd : UnitedMarketData) :
    (b.updatePre base umd).preClose = umd.lastPx := rfl

theorem settle_open (b : Bar2) (umd : UnitedMarketData) :
    (b.settle base umd).open_ = if b.open_ = 0 then b.preClose else b.open_ := by
  simp only [settle, fillEmpty]
  split <;> simp_all

/-- What `settle` leaves, against the times `b0` the bar was generated with. -/
structure Settled (b0 b : Bar2) : Prop where
  bob : b.bob = (b0.bob + b.baseSec) * 1000000000
  eob : b.eob = (b0.eob + b.baseSec) * 1000000000
  vol : b.vol = b.cumVol - b.preCumVol
  turnover : b.turnover = b.cumTurnover - b.preCumTurnover
  deltaClose : b.deltaClose = b.close - b.preClose
  deltaOpenInt : b.deltaOpenInt = b.openInt - b.preOpenInt

theorem SameTimes.settled {b0 b : Bar2} (h : SameTimes b0 b) (umd : UnitedMarketData) :
    Settled b0 (b.settle base umd) where
  bob := by
    have hb := (b.sameTimes_fillEmpty base umd).bob
    simp only [settle, hb, h.bob]
  eob := by
    have hb := (b.sameTimes_fillEmpty base umd).eob
    simp only [settle, hb, h.eob]
  vol := rfl
  turnover := rfl
  deltaClose := rfl
  deltaOpenInt := rfl

end Bar2

end NatFramework.Bar
