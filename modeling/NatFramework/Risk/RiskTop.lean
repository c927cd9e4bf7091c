import NatFramework.Lib.PrioSet
import NatFramework.Risk.RiskInstr

/-!
# The engine's risk account

`risk/RiskInstrTop` and `RiskTop`. The two treaps of an instrument hold its
orders by `order_ref` and give the one of the best price; `boost`'s treap is a
parameter `O : PrioOps TreapNode τ`, whose laws are assumed where they are
used. Nodes are held by value: that they stay where they are is an assumption
on `vec_treap_node`.

* `TreapNode::order_ref` is an `int`, the `order_ref` of a track a `long`:
  `toInt` is the conversion.
* `RiskTop::check` may register the instrument, so that it returns the new
  state beside its answer; there is no answer when the process ends at a missing
  node of the configuration.
-/
namespace NatFramework.Risk

open Lib Account

/-- The conversion of a `long` to an `int`. -/
def toInt (x : Int) : Int := x.bmod (2 ^ 32)

/-- mirrors risk/RiskInstrTop.h:25-45 -/
structure TreapNode where
  orderRef : Int
  price : ℚ
  dir : Dir
  deriving DecidableEq, Repr

namespace TreapNode

/-- mirrors risk/RiskInstrTop.h:34-40 -/
def priorityOrder (a b : TreapNode) : Bool :=
  if a.dir = .buy then a.price > b.price else a.price < b.price

end TreapNode

/-- A treap of orders: by `order_ref`, the best price on top. -/
abbrev Treap (τ : Type) := PrioOps TreapNode τ

/-- What is assumed of `boost::intrusive::treap`. -/
abbrev Treap.Lawful {τ : Type} (O : Treap τ) : Prop :=
  PrioOps.Lawful O TreapNode.orderRef TreapNode.priorityOrder

/-! ## RiskInstrTop -/

/-- mirrors risk/RiskInstrTop.h:47-62 -/
structure RiskInstrTop (τ : Type) extends RiskInstr where
  askTreap : τ
  bidTreap : τ

namespace RiskInstrTop

variable {τ : Type} (O : Treap τ)

/-- A new node of `map_risk_instr_`. -/
def fresh : RiskInstrTop τ where
  askTreap := O.empty
  bidTreap := O.empty

/-- mirrors risk/RiskInstrTop.cpp:6-14 -/
def onNew (dir : Dir) (px : ℚ) (orderRef nano : Int) (r : RiskInstrTop τ) : RiskInstrTop τ :=
  let node : TreapNode := { orderRef := toInt orderRef, price := px, dir := dir }
  let r := if dir = .buy then { r with bidTreap := O.pushBack node r.bidTreap }
    else { r with askTreap := O.pushBack node r.askTreap }
  { r with toRiskInstr := r.toRiskInstr.onNew nano }

/-- mirrors risk/RiskInstrTop.cpp:16-23 -/
def onCxl (t : OrderTrack) (r : RiskInstrTop τ) : RiskInstrTop τ :=
  let node : TreapNode := { orderRef := toInt t.orderRef, price := 0, dir := .buy }
  if t.dir = .buy then { r with bidTreap := O.erase node r.bidTreap }
  else { r with askTreap := O.erase node r.askTreap }

/-- mirrors risk/RiskInstrTop.cpp:25-34 -/
def onTrd (t : OrderTrack) (r : RiskInstrTop τ) : RiskInstrTop τ :=
  let node : TreapNode := { orderRef := toInt t.orderRef, price := 0, dir := .buy }
  if t.volTraded = t.vol then
    if t.dir = .buy then { r with bidTreap := O.erase node r.bidTreap }
    else { r with askTreap := O.erase node r.askTreap }
  else r

/-- mirrors risk/RiskInstrTop.cpp:39-57 -/
def check (ab : AccBase) (dir : Dir) (off : Off) (px : ℚ) (vol nano : Int) (r : RiskInstrTop τ) :
    Int :=
  if dir = .buy then
    match O.top r.askTreap with
    | some n => if px ≥ n.price then -230 else r.toRiskInstr.check ab dir off vol nano
    | none => r.toRiskInstr.check ab dir off vol nano
  else
    match O.top r.bidTreap with
    | some n => if px ≤ n.price then -231 else r.toRiskInstr.check ab dir off vol nano
    | none => r.toRiskInstr.check ab dir off vol nano

end RiskInstrTop

/-! ## RiskTop -/

/-- mirrors risk/RiskTop.h:15-72 -/
structure RiskTop (τ : Type) where
  jConf : RiskConf := {}
  mapRiskInstr : UMap Hash (RiskInstrTop τ) := ∅
  mapRiskPrd : UMap Hash RiskPrd := ∅
  riskAcc : RiskAcc := {}
  accBase : AccBase := {}

namespace RiskTop

variable {τ : Type} (O : Treap τ) (info : TradeBaseInfo)

/-- mirrors risk/RiskTop.cpp:64-66 -/
def isExistRiskPrd (prdHash : Hash) (s : RiskTop τ) : Bool := (s.mapRiskPrd.lookup prdHash).isSome

/-- mirrors risk/RiskTop.cpp:68-70 -/
def isExistRiskInstr (instrHash : Hash) (s : RiskTop τ) : Bool :=
  (s.mapRiskInstr.lookup instrHash).isSome

/-- `map_risk_instr_[instr_hash]` -/
def riskInstrAt (instrHash : Hash) (s : RiskTop τ) : RiskInstrTop τ :=
  (s.mapRiskInstr.lookup instrHash).getD (.fresh O)

/-- `map_risk_prd_[prd_hash]` -/
def riskPrdAt (prdHash : Hash) (s : RiskTop τ) : RiskPrd := (s.mapRiskPrd.lookup prdHash).getD {}

/-- A refused `init` leaves the new node behind.
mirrors risk/RiskTop.cpp:72-82 -/
def regRiskPrd (prdName : String) (s : RiskTop τ) : RiskTop τ × Option Bool :=
  let prdHash := info.nameHash prdName
  if s.isExistRiskPrd prdHash then (s, some true)
  else
    let (r, ok) := (s.riskPrdAt prdHash).init s.jConf info prdName s.accBase
    ({ s with mapRiskPrd := s.mapRiskPrd.insert prdHash r }, ok)

/-- mirrors risk/RiskTop.cpp:84-100 -/
def regRiskInstr (instrName : String) (s : RiskTop τ) : RiskTop τ × Option Bool :=
  let instrHash := info.nameHash instrName
  if s.isExistRiskInstr instrHash then (s, some true)
  else
    match info.find instrHash with
    | none => (s, some false)
    | some i =>
      let r := s.riskInstrAt O instrHash
      let (ri, ok) := r.toRiskInstr.init s.jConf info i s.accBase
      ({ s with
          mapRiskInstr := s.mapRiskInstr.insert instrHash { r with toRiskInstr := ri } }, ok)

/-- mirrors risk/RiskTop.cpp:33-62 -/
def regInstr (instrName : String) (s : RiskTop τ) : RiskTop τ × Option Bool :=
  match s.accBase.regInstr info instrName with
  | (ab, false) => ({ s with accBase := ab }, some false)
  | (ab, true) =>
    let s := { s with accBase := ab }
    let instrHash := info.nameHash instrName
    match info.find instrHash with
    | none => (s, some false)
    | some i =>
      match (if s.isExistRiskPrd i.productHash then (s, some true)
        else s.regRiskPrd info i.product) with
      | (s, some true) =>
        if s.isExistRiskInstr instrHash then (s, some true) else s.regRiskInstr O info instrName
      | (s, ok) => (s, ok)

/-- The `while` loop of `check`: the record, or what `check` answers without it.
It ends after one turn: a successful `regInstr` leaves a record
(`isExist_regInstr`).
mirrors risk/RiskTop.cpp:110-116 -/
def findOrReg (i : InstrumentInfo) (s : RiskTop τ) :
    RiskTop τ × Except (Option Int) (RiskInstrTop τ) :=
  match s.mapRiskInstr.lookup i.instrHash with
  | some r => (s, .ok r)
  | none =>
    match s.regInstr O info i.instr with
    | (s, none) => (s, .error none)
    | (s, some false) => (s, .error (some (-404)))
    | (s, some true) =>
      match s.mapRiskInstr.lookup i.instrHash with
      | some r => (s, .ok r)
      | none => (s, .error none)

/-- An unknown instrument is answered `false`, which is 0.
mirrors risk/RiskTop.cpp:102-146 -/
def check (dir : Dir) (off : Off) (px : ℚ) (vol : Int) (instrHash : Hash) (nano : Int)
    (s : RiskTop τ) : RiskTop τ × Option Int :=
  match info.find instrHash with
  | none => (s, some 0)
  | some i =>
    match s.findOrReg O info i with
    | (s, .error ret) => (s, ret)
    | (s, .ok riskInstrTop) =>
      if off = .auto ∨ off = .close then (s, some (-405))
      else
        let ret := riskInstrTop.check O s.accBase dir off px vol nano
        if ret ≠ 0 then (s, some ret)
        else
          let ret := (s.riskPrdAt i.productHash).check s.accBase dir off vol
          if ret ≠ 0 then (s, some ret)
          else (s, some (s.riskAcc.check s.accBase.modAcc dir off px vol i.volMultiple))

/-- Writes the record that `map_risk_instr_[instr_hash]` designates. -/
def modifyRiskInstr (instrHash : Hash) (f : RiskInstrTop τ → RiskInstrTop τ) (s : RiskTop τ) :
    RiskTop τ :=
  { s with mapRiskInstr := s.mapRiskInstr.insert instrHash (f (s.riskInstrAt O instrHash)) }

/-- mirrors risk/RiskTop.cpp:148-150 -/
def onOrderTrack (t : OrderTrack) (s : RiskTop τ) : RiskTop τ :=
  { s with accBase := s.accBase.onOrderTrack info t }

/-- mirrors risk/RiskTop.cpp:152-159 -/
def onNew (dir : Dir) (off : Off) (px : ℚ) (vol : Int) (instrHash : Hash) (orderRef nano : Int)
    (s : RiskTop τ) : RiskTop τ :=
  let s := { s with accBase := s.accBase.onNew info dir off px vol instrHash }
  s.modifyRiskInstr O instrHash fun r => r.onNew O dir px orderRef nano

/-- mirrors risk/RiskTop.cpp:161-175 -/
def onRtn (t : OrderTrack) (m : RtnMsg) (s : RiskTop τ) : RiskTop τ :=
  let s := { s with accBase := s.accBase.onRtn info t m }
  let s := if m.msgType.has .canceled then s.modifyRiskInstr O t.instrHash fun r => r.onCxl O t
    else s
  if m.msgType.has .execution then s.modifyRiskInstr O t.instrHash fun r => r.onTrd O t else s

/-- mirrors risk/RiskTop.cpp:177-179 -/
def onTickPx (instrHash : Hash) (tickPx : ℚ) (s : RiskTop τ) : RiskTop τ :=
  { s with accBase := s.accBase.onTickPx info instrHash tickPx }

end RiskTop

end NatFramework.Risk
