import NatFramework.Lib.Checked
import NatFramework.Lib.CInt
import NatFramework.Lib.Guarded

/-!
# The signals of a tick

`execute_model/CBaseSignal`: what a tick traded on each side, and how its order book
differs from the one before.

* `GetRealTradeVol` divides the volume by where its average price lies between the
  best quotes before and after. It is a row of `if` statements, of which the last
  one met decides; twelve of them solve a line between two quotes (`Span`).
* `GetOBDMap2` merges the five levels before and after, the bids from the highest
  price down and the asks from the lowest up.
* Prices are in ticks. A `double` is a rational number; where an `int` overflows
  there is no result (`Arith`).
-/
namespace NatFramework.Execute

open Lib

/-- What the two functions read of a tick. mirrors execute_model/CMarketStruct.h:16-28 -/
structure CMarketStruct where
  askv : Vector Int 5
  askp : Vector Int 5
  bidv : Vector Int 5
  bidp : Vector Int 5
  lastaskp : Vector Int 5
  lastaskv : Vector Int 5
  lastbidp : Vector Int 5
  lastbidv : Vector Int 5
  tradevol : Int
  turnover : Int
  avgprice : ℚ

/-- The quotes before and after do not cross. -/
structure CMarketStruct.Quoted (ms : CMarketStruct) : Prop where
  last : ms.lastbidp[0] < ms.lastaskp[0]
  cur : ms.bidp[0] < ms.askp[0]

/-- Prices and volumes that the levels of one side have changed by. -/
structure Delta where
  px : Vector Int 10
  vol : Vector Int 10

def Delta.zero : Delta := ⟨.replicate 10 0, .replicate 10 0⟩

/-- What they set. mirrors execute_model/CBaseSignal.h:16-36 -/
structure CBaseSignal where
  realtradeaskvol : ℚ
  realtradebidvol : ℚ
  type : Int
  deltaMdBid : Delta
  deltaMdAsk : Delta

/-! ## The traded volume -/

/-- mirrors execute_model/CBaseSignal.cpp:193-195 -/
def solvelinear (lastvol turnover priceLow priceHigh : Int) : Arith ℚ := do
  let amount ← int32 (priceHigh * lastvol)
  let minus ← int32 (-priceHigh)
  let width ← int32 (minus + priceLow)
  div (0 + turnover - amount) width

/-- One of the cases that solve a line. -/
structure Span where
  type : Int
  guard : Bool
  low : Int
  high : Int

def eps : ℚ := 1 / 10000

namespace CMarketStruct

variable (ms : CMarketStruct)

/-- The average price is outside all quotes. mirrors execute_model/CBaseSignal.cpp:86-95 -/
def outer : List (Guarded Undefined (ℚ × Int)) :=
  let Bt1 := ms.bidp[0]
  let Bt := ms.lastbidp[0]
  let At1 := ms.askp[0]
  let At := ms.lastaskp[0]
  let avg := ms.avgprice
  [⟨avg < Bt ∧ avg < Bt1, do
      let w1 ← div (avg - Bt) (avg - Bt + avg - Bt1)
      return (w1 * ms.tradevol, 1)⟩,
    ⟨avg > At ∧ avg > At1, do
      let w1 ← div (avg - At) (avg - At + avg - At1)
      return ((1 - w1) * ms.tradevol, 2)⟩]

/-- mirrors execute_model/CBaseSignal.cpp:96-124 -/
def risen : List Span :=
  let Bt1 := ms.bidp[0]
  let Bt := ms.lastbidp[0]
  let At1 := ms.askp[0]
  let At := ms.lastaskp[0]
  let avg := ms.avgprice
  [⟨3, Bt ≤ Bt1 ∧ Bt1 < avg ∧ avg ≤ At1 ∧ At1 ≤ At, Bt1, At1⟩,
    ⟨4, Bt ≤ avg ∧ avg ≤ Bt1 ∧ At1 ≤ At, Bt, At1⟩,
    ⟨5, Bt ≤ Bt1 ∧ At1 ≤ avg ∧ avg ≤ At, Bt1, At⟩,
    ⟨6, Bt ≤ Bt1 ∧ Bt1 ≤ avg ∧ avg < At ∧ At ≤ At1, Bt1, At⟩,
    ⟨7, Bt ≤ avg ∧ avg ≤ Bt1 ∧ Bt1 ≤ At ∧ At ≤ At1, Bt, At⟩,
    ⟨8, Bt ≤ Bt1 ∧ Bt1 ≤ At ∧ At ≤ avg ∧ avg ≤ At1, Bt1, At1⟩]

/-- mirrors execute_model/CBaseSignal.cpp:131-159 -/
def fallen : List Span :=
  let Bt1 := ms.bidp[0]
  let Bt := ms.lastbidp[0]
  let At1 := ms.askp[0]
  let At := ms.lastaskp[0]
  let avg := ms.avgprice
  [⟨10, Bt1 ≤ Bt ∧ Bt < avg ∧ avg ≤ At ∧ At ≤ At1, Bt, At⟩,
    ⟨11, Bt1 ≤ avg ∧ avg ≤ Bt ∧ At ≤ At1, Bt1, At⟩,
    ⟨12, Bt1 ≤ Bt ∧ At ≤ avg ∧ avg ≤ At1, Bt, At1⟩,
    ⟨13, Bt1 ≤ Bt ∧ Bt ≤ avg ∧ avg < At1 ∧ At1 ≤ At, Bt, At1⟩,
    ⟨14, Bt1 ≤ avg ∧ avg ≤ Bt ∧ Bt ≤ At1 ∧ At1 ≤ At, Bt1, At1⟩,
    ⟨15, Bt1 ≤ Bt ∧ Bt ≤ At1 ∧ At1 ≤ avg ∧ avg ≤ At, Bt, At⟩]

/-- The body of a case that solves a line. -/
def solve (q : Span) : Guarded Undefined (ℚ × Int) :=
  ⟨q.guard, do
    let bidvol ← solvelinear ms.tradevol ms.turnover q.low q.high
    return (bidvol, q.type)⟩

/-- mirrors execute_model/CBaseSignal.cpp:126-129 -/
def bidReachedAsk : Guarded Undefined (ℚ × Int) := ⟨ms.lastaskp[0] ≤ ms.bidp[0], .ok (0, 9)⟩

/-- mirrors execute_model/CBaseSignal.cpp:161-164 -/
def askReachedBid : Guarded Undefined (ℚ × Int) :=
  ⟨ms.askp[0] ≤ ms.lastbidp[0], .ok (ms.tradevol, 16)⟩

/-- mirrors execute_model/CBaseSignal.cpp:166-169 -/
def noTrade : Guarded Undefined (ℚ × Int) := ⟨ms.tradevol = 0, .ok (0, 0)⟩

/-- mirrors execute_model/CBaseSignal.cpp:171-184 -/
def atQuote : List (Guarded Undefined (ℚ × Int)) :=
  let Bt := ms.lastbidp[0]
  let At1 := ms.askp[0]
  let At := ms.lastaskp[0]
  let avg := ms.avgprice
  [⟨|avg - At| < eps ∧ ms.tradevol ≥ ms.lastaskv[0], .ok (0, 17)⟩,
    ⟨|avg - Bt| < eps ∧ ms.tradevol ≥ ms.lastbidv[0], .ok (ms.tradevol, 18)⟩,
    ⟨|avg - At| < eps ∧ |avg - At1| < eps, .ok (0, 19)⟩]

/-- The cases of the quotes, in the order of the source. -/
def byQuote : List (Guarded Undefined (ℚ × Int)) :=
  ms.outer ++ ms.risen.map ms.solve ++ [ms.bidReachedAsk] ++ ms.fallen.map ms.solve ++
    [ms.askReachedBid]

/-- All cases that set the bid volume. -/
def cases : List (Guarded Undefined (ℚ × Int)) := ms.byQuote ++ ms.noTrade :: ms.atQuote

end CMarketStruct

/-- The last case sets the ask volume, which the last line then computes again.
mirrors execute_model/CBaseSignal.cpp:73-191 -/
def CBaseSignal.getRealTradeVol (s : CBaseSignal) (ms : CMarketStruct) : Arith CBaseSignal := do
  let (bidvol, type) ← Guarded.run ms.cases (s.realtradebidvol, -1)
  let s := { s with realtradebidvol := bidvol, type := type }
  let s :=
    if |ms.avgprice - ms.lastbidp[0]| < eps ∧ |ms.avgprice - ms.bidp[0]| < eps then
      { s with realtradeaskvol := 0, type := 20 }
    else s
  return { s with realtradeaskvol := ms.tradevol - s.realtradebidvol }

/-! ## The difference of the order books -/

/-- The best of the five levels of a side. -/
def best (v : Vector Int 5) : Int := v[0]

/-- The last of them. -/
def worst (v : Vector Int 5) : Int := v[4]

/-- The levels ahead of the other book's best one are passed over.
mirrors execute_model/CBaseSignal.cpp:254-257, 272-275 -/
def skip (ahead : Int → Int → Bool) (px : Vector Int 5) (best : Int) (i : Nat) : Nat :=
  if h : i < 5 then if ahead px[i] best then skip ahead px best (i + 1) else i else i
termination_by 5 - i

/-- The levels `i` and `j` on are merged into the entries from `k` on.
mirrors execute_model/CBaseSignal.cpp:259-270, 277-288 -/
def mergeLevels (ahead : Int → Int → Bool) (lastp lastv px vol : Vector Int 5) (i j k : Nat)
    (d : Delta) : Checked Delta :=
  if hi : i < 5 then
    if hj : j < 5 then
      if hk : k < 10 then
        let p := if ahead lastp[i] px[j] then lastp[i] else px[j]
        let v := d.vol[k]
        let (v, i') := if p = lastp[i] then (v - lastv[i], i + 1) else (v, i)
        let (v, j') := if p = px[j] then (v + vol[j], j + 1) else (v, j)
        mergeLevels ahead lastp lastv px vol i' j' (k + 1) ⟨d.px.set k p, d.vol.set k v⟩
      else .error (.index k)
    else .ok d
  else .ok d
termination_by 10 - k

def levelDelta (ahead : Int → Int → Bool) (lastp lastv px vol : Vector Int 5) : Checked Delta :=
  mergeLevels ahead lastp lastv px vol (skip ahead lastp px[0] 0) (skip ahead px lastp[0] 0) 0
    .zero

/-- mirrors execute_model/CBaseSignal.cpp:246-289 -/
def CBaseSignal.getOBDMap2 (s : CBaseSignal) (ms : CMarketStruct) : Checked CBaseSignal := do
  let bid ← levelDelta (fun p q => p > q) ms.lastbidp ms.lastbidv ms.bidp ms.bidv
  let ask ← levelDelta (fun p q => p < q) ms.lastaskp ms.lastaskv ms.askp ms.askv
  return { s with deltaMdBid := bid, deltaMdAsk := ask }

end NatFramework.Execute
