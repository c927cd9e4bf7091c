import Mathlib.Algebra.Order.Ring.Unbundled.Rat
import Mathlib.Data.List.Sort
import Mathlib.Logic.Function.Basic
import NatFramework.Base

/-!
# The simulated exchange

`td/CTDHelperFake` over `td/ITDHelper`: orders queue by their ids and are matched
against the first bid and ask of the last tick of their instrument, when they
are sent and when a tick comes. The messages wait in a queue for `getRtn`, which
keeps the client's copy of the orders.

* `set<int>` is a list in increasing order, `last_tick_wall_` a function.
* `matchQueued_spec`: what a match does, a trade or nothing.
-/
namespace NatFramework.Td

/-- mirrors td/CTDHelperFake.h:28-34 -/
structure TTick where
  lastPx : ℚ := 0
  ask : ℚ := 0
  bid : ℚ := 0
  askVol : Int := 0
  bidVol : Int := 0
deriving DecidableEq

/-- What `on_tick` reads of `UnitedMarketData`. -/
structure TickData where
  instrHash : Hash
  instrStr : String
  lastPx : ℚ
  askPx : ℚ
  askVol : Int
  bidPx : ℚ
  bidVol : Int

def TickData.tick (pmd : TickData) : TTick :=
  { lastPx := pmd.lastPx, ask := pmd.askPx, askVol := pmd.askVol, bid := pmd.bidPx
    bidVol := pmd.bidVol }

/-- The arguments of `sendOrder`. -/
structure OrderArgs where
  instr : String
  price : ℚ
  vol : Int
  dir : Dir
  off : Off := .opn
  accId : Int := 0
  stgId : Int := 0
  instrHash : Hash

/-- mirrors td/CTDHelperFake.h:60-66 and td/ITDHelper.h:99-107 -/
structure CTDHelperFake where
  orderTrack : List OrderTrack := []
  engOrderTrack : List OrderTrack := []
  rtnMsgQueue : List RtnMsg := []
  lastTickWall : Hash → Option TTick := fun _ => none
  queuedTrackId : List Nat := []

/-- mirrors td/CTDHelperFake.cpp:17-30 -/
def fillRtnMsg (ot : OrderTrack) (id : Nat) : RtnMsg :=
  { instrHash := ot.instrHash, instr := ot.instr, price := ot.price, vol := ot.vol, dir := ot.dir
    off := ot.off, orderRef := id, localId := id }

/-- mirrors td/CTDHelperFake.cpp:114-131 -/
def median (a b c : ℚ) : ℚ :=
  if a < b then
    if b < c then b else if a < c then c else a
  else
    if c < b then b else if a < c then a else c

namespace CTDHelperFake

def getEngOrderTrack (id : Nat) (s : CTDHelperFake) : OrderTrack := s.engOrderTrack.getD id {}

/-- A write through the reference `getEngOrderTrack` returns. -/
def setEngOrderTrack (id : Nat) (ot : OrderTrack) (s : CTDHelperFake) : CTDHelperFake :=
  { s with engOrderTrack := s.engOrderTrack.set id ot }

def emplace (m : RtnMsg) (s : CTDHelperFake) : CTDHelperFake :=
  { s with rtnMsgQueue := s.rtnMsgQueue ++ [m] }

def insertQueued (id : Nat) (s : CTDHelperFake) : CTDHelperFake :=
  { s with
      queuedTrackId :=
        if id ∈ s.queuedTrackId then s.queuedTrackId else s.queuedTrackId.orderedInsert (· ≤ ·) id }

def eraseQueued (id : Nat) (s : CTDHelperFake) : CTDHelperFake :=
  { s with queuedTrackId := s.queuedTrackId.filter (· ≠ id) }

/-- A trade of `trade` lots of the order at a price: its track and its message. -/
def fill (id : Nat) (trade : Int) (price : ℚ) (s : CTDHelperFake) : CTDHelperFake :=
  let ot := s.getEngOrderTrack id
  let ot :=
    { ot with volTraded := ot.volTraded + trade, status := ot.status ||| ods .execution }
  (s.setEngOrderTrack id ot).emplace
    { fillRtnMsg ot id with vol := trade, price := price, msgType := ods .execution }

/-- The new state, the tick that is left, and whether the order is finished.
mirrors td/CTDHelperFake.cpp:137-175 -/
def makeMatch (id : Nat) (tick : TTick) (s : CTDHelperFake) : CTDHelperFake × TTick × Bool :=
  let ot := s.getEngOrderTrack id
  let left := ot.vol - ot.volTraded
  let r : CTDHelperFake × TTick :=
    match ot.dir with
    | .buy =>
      if tick.ask ≤ ot.price ∧ 0 < tick.askVol ∧ 0 < left then
        let trade := if tick.askVol < left then tick.askVol else left
        (s.fill id trade (median tick.ask tick.lastPx ot.price),
          { tick with askVol := tick.askVol - trade })
      else (s, tick)
    | .sell =>
      if ot.price ≤ tick.bid ∧ 0 < tick.bidVol ∧ 0 < left then
        let trade := if tick.bidVol < left then tick.bidVol else left
        (s.fill id trade (median tick.bid tick.lastPx ot.price),
          { tick with bidVol := tick.bidVol - trade })
      else (s, tick)
    | .unknown _ => (s, tick)
  let ot := r.1.getEngOrderTrack id
  if ot.vol ≤ ot.volTraded then
    (r.1.setEngOrderTrack id { ot with status := ot.status ||| ods .closed }, r.2, true)
  else (r.1, r.2, false)

/-- mirrors td/CTDHelperFake.cpp:33-74 -/
def doSendOrder (trackId : Nat) (s : CTDHelperFake) : CTDHelperFake :=
  let ot := s.orderTrack.getD trackId {}
  if ot.dir ≠ .buy ∧ ot.dir ≠ .sell then
    emplace { fillRtnMsg ot trackId with msgType := ods .reject, msg := "direction is invalid." }
      { s with engOrderTrack := s.engOrderTrack ++ [{ ot with status := ot.status ||| ods .reject }] }
  else
    let status := ods .tdSend ||| ods .accept ||| ods .marketAccept
    let s := { s with engOrderTrack := s.engOrderTrack ++ [{ ot with status := ot.status ||| status }] }
    let s := s.emplace { fillRtnMsg ot trackId with msgType := ods .tdSend }
    let s := s.emplace { fillRtnMsg ot trackId with msgType := ods .accept }
    let s := s.emplace { fillRtnMsg ot trackId with msgType := ods .marketAccept }
    let s := s.insertQueued trackId
    match s.lastTickWall ot.instrHash with
    | none => s
    | some tick =>
      let r := s.makeMatch trackId tick
      let s := { r.1 with lastTickWall := Function.update r.1.lastTickWall ot.instrHash (some r.2.1) }
      if r.2.2 then s.eraseQueued trackId else s

/-- mirrors td/CTDHelperFake.cpp:77-93 -/
def doDelOrder (trackId : Nat) (s : CTDHelperFake) : CTDHelperFake :=
  let ot := s.getEngOrderTrack trackId
  let msg := fillRtnMsg ot trackId
  if ot.status.has .closed ∨ ot.vol ≤ ot.volTraded then
    ((s.setEngOrderTrack trackId { ot with status := ot.status ||| ods .cancelReject }).emplace
      { msg with msgType := ods .cancelReject }).eraseQueued trackId
  else
    ((s.setEngOrderTrack trackId { ot with status := ot.status ||| ods .canceled }).emplace
      { msg with msgType := ods .canceled, vol := ot.vol - ot.volTraded }).eraseQueued trackId

/-- The loop over the queue, which ends early when nothing is left of the tick.
mirrors td/CTDHelperFake.cpp:191-201 -/
def tickLoop (instr : String) : List Nat → CTDHelperFake × TTick → CTDHelperFake × TTick
  | [], r => r
  | id :: ids, (s, tick) =>
    if tick.askVol ≠ 0 ∨ tick.bidVol ≠ 0 then
      if (s.getEngOrderTrack id).instr = instr then
        let r := s.makeMatch id tick
        tickLoop instr ids (if r.2.2 then r.1.eraseQueued id else r.1, r.2.1)
      else tickLoop instr ids (s, tick)
    else (s, tick)

/-- mirrors td/CTDHelperFake.cpp:183-202 -/
def onTick (pmd : TickData) (s : CTDHelperFake) : CTDHelperFake :=
  let r := tickLoop pmd.instrStr s.queuedTrackId (s, pmd.tick)
  { r.1 with lastTickWall := Function.update r.1.lastTickWall pmd.instrHash (some r.2) }

/-- mirrors td/ITDHelper.cpp:22-42 -/
def sendOrder (a : OrderArgs) (s : CTDHelperFake) : CTDHelperFake :=
  let trackId := s.orderTrack.length
  let track : OrderTrack :=
    { status := ods .send, instrHash := a.instrHash, instr := a.instr, price := a.price
      vol := a.vol, dir := a.dir, off := a.off, stgId := a.stgId, accId := a.accId
      localId := trackId }
  doSendOrder trackId { s with orderTrack := s.orderTrack ++ [track] }

/-- mirrors td/ITDHelper.cpp:44-58 -/
def deleteOrder (trackId : Nat) (s : CTDHelperFake) : CTDHelperFake × Int :=
  if trackId < s.orderTrack.length then
    let ot := s.orderTrack.getD trackId {}
    if 0 ≤ ot.orderRef ∧
        (ot.status.has .tdSend ∨ ot.status.has .execution ∨ ot.status.has .accept ∨
          ot.status.has .marketAccept) ∧ ¬ot.status.has .closed then
      let s := s.doDelOrder trackId
      ({ s with
          orderTrack := s.orderTrack.set trackId { ot with status := ot.status ||| ods .cxling } }, 0)
    else (s, -1)
  else (s, -1)

/-- mirrors td/CTDHelperFake.cpp:96-103 -/
def doGetRtn (s : CTDHelperFake) : CTDHelperFake × Option RtnMsg :=
  match s.rtnMsgQueue with
  | [] => (s, none)
  | m :: ms => ({ s with rtnMsgQueue := ms }, some m)

/-- What a message changes of the client's track. -/
def rtnTrack (p : RtnMsg) (track : OrderTrack) : OrderTrack :=
  let track :=
    { track with
        status := track.status ||| p.msgType, orderRef := p.orderRef, frontId := p.frontId
        sessionId := p.sessionId }
  if p.msgType = ods .execution then
    let track :=
      { track with
          volTraded := track.volTraded + p.vol
          amountTraded := track.amountTraded + p.vol * p.price }
    if track.vol ≤ track.volTraded then { track with status := track.status ||| ods .closed }
    else track
  else track

/-- mirrors td/ITDHelper.cpp:60-82 -/
def getRtn (s : CTDHelperFake) : CTDHelperFake × Option RtnMsg :=
  let r := s.doGetRtn
  match r.2 with
  | none => (r.1, none)
  | some p =>
    let id := p.localId.toNat
    if id < r.1.orderTrack.length then
      ({ r.1 with
          orderTrack := r.1.orderTrack.set id (rtnTrack p (r.1.orderTrack.getD id {})) }, some p)
    else (r.1, none)

/-- mirrors td/CTDHelperFake.cpp:204-209 and td/ITDHelper.cpp:84-90 -/
def onSwitchDay (s : CTDHelperFake) : CTDHelperFake :=
  { s with
      orderTrack := [], engOrderTrack := [], lastTickWall := fun _ => none, queuedTrackId := [] }

/-! ## What a match does -/

/-- A match of a queued order, which leaves the queue when it is finished. -/
def matchQueued (id : Nat) (tick : TTick) (s : CTDHelperFake) : CTDHelperFake × TTick :=
  let r := s.makeMatch id tick
  (if r.2.2 then r.1.eraseQueued id else r.1, r.2.1)

end CTDHelperFake

/-- The quote an order of a direction meets. -/
def TTick.quote (dir : Dir) (t : TTick) : ℚ :=
  match dir with
  | .buy => t.ask
  | .sell => t.bid
  | .unknown _ => 0

/-- The lots it can meet. -/
def TTick.lotsFor (dir : Dir) (t : TTick) : Int :=
  match dir with
  | .buy => t.askVol
  | .sell => t.bidVol
  | .unknown _ => 0

def TTick.take (dir : Dir) (n : Int) (t : TTick) : TTick :=
  match dir with
  | .buy => { t with askVol := t.askVol - n }
  | .sell => { t with bidVol := t.bidVol - n }
  | .unknown _ => t

/-- The price is no worse than the limit and no better than the quote. -/
def PriceBetween (dir : Dir) (quote limit price : ℚ) : Prop :=
  match dir with
  | .buy => quote ≤ price ∧ price ≤ limit
  | .sell => limit ≤ price ∧ price ≤ quote
  | .unknown _ => False

theorem median_le {a b c : ℚ} (h : a ≤ c) : a ≤ median a b c ∧ median a b c ≤ c := by
  unfold median
  split
  · rename_i hab
    split
    · rename_i hbc
      exact ⟨le_of_lt hab, le_of_lt hbc⟩
    · split
      · exact ⟨h, le_refl c⟩
      · exact ⟨le_refl a, h⟩
  · rename_i hab
    split
    · rename_i hcb
      exact absurd (lt_of_le_of_lt h hcb) hab
    · split
      · exact ⟨le_refl a, h⟩
      · exact ⟨h, le_refl c⟩

theorem le_median {a b c : ℚ} (h : c ≤ a) : c ≤ median a b c ∧ median a b c ≤ a := by
  unfold median
  split
  · rename_i hab
    split
    · rename_i hbc
      exact absurd (lt_trans hab hbc) (not_lt_of_ge h)
    · split
      · rename_i hac
        exact absurd hac (not_lt_of_ge h)
      · exact ⟨h, le_refl a⟩
  · rename_i hab
    split
    · rename_i hcb
      exact ⟨le_of_lt hcb, not_lt.mp hab⟩
    · split
      · exact ⟨h, le_refl a⟩
      · exact ⟨le_refl c, h⟩

namespace CTDHelperFake

/-- The track of an order behind a trade. -/
def booked (trade : Int) (ot : OrderTrack) : OrderTrack :=
  { ot with
      volTraded := ot.volTraded + trade
      status := if ot.vol ≤ ot.volTraded + trade then ot.status ||| ods .execution ||| ods .closed
        else ot.status ||| ods .execution }

/-- The message of a trade. -/
def execution (ot : OrderTrack) (id : Nat) (trade : Int) (price : ℚ) : RtnMsg :=
  { fillRtnMsg ot id with vol := trade, price := price, msgType := ods .execution }

/-- The state behind a trade. -/
def traded (id : Nat) (ot : OrderTrack) (trade : Int) (price : ℚ) (s : CTDHelperFake) :
    CTDHelperFake :=
  { s with
      engOrderTrack := s.engOrderTrack.set id (booked trade ot)
      rtnMsgQueue := s.rtnMsgQueue ++ [execution ot id trade price]
      queuedTrackId :=
        if ot.vol ≤ ot.volTraded + trade then s.queuedTrackId.filter (· ≠ id)
        else s.queuedTrackId }

variable {s : CTDHelperFake} {id : Nat} {ot : OrderTrack}

theorem getEngOrderTrack_eq (h : s.engOrderTrack[id]? = some ot) : s.getEngOrderTrack id = ot := by
  unfold getEngOrderTrack
  rw [List.getD_eq_getElem?_getD, h, Option.getD_some]

theorem getEngOrderTrack_set (h : s.engOrderTrack[id]? = some ot) (ot' : OrderTrack) :
    (s.setEngOrderTrack id ot').getEngOrderTrack id = ot' := by
  have hlt := (List.getElem?_eq_some_iff.mp h).1
  refine getEngOrderTrack_eq ?_
  simp only [setEngOrderTrack, List.getElem?_set_self hlt]

/-- The end of a match behind a trade. -/
theorem finish_fill (h : s.engOrderTrack[id]? = some ot) (trade : Int) (price : ℚ) :
    (let f := s.fill id trade price
      let ot' := f.getEngOrderTrack id
      let r : CTDHelperFake × Bool :=
        if ot'.vol ≤ ot'.volTraded then
          (f.setEngOrderTrack id { ot' with status := ot'.status ||| ods .closed }, true)
        else (f, false)
      if r.2 then r.1.eraseQueued id else r.1) = s.traded id ot trade price := by
  have hfill : s.fill id trade price =
      (s.setEngOrderTrack id
        { ot with volTraded := ot.volTraded + trade, status := ot.status ||| ods .execution }).emplace
        (execution ot id trade price) := by
    unfold fill
    rw [getEngOrderTrack_eq h]
    rfl
  have hget : (s.fill id trade price).getEngOrderTrack id =
      { ot with volTraded := ot.volTraded + trade, status := ot.status ||| ods .execution } := by
    rw [hfill]
    exact getEngOrderTrack_set h _
  dsimp only
  rw [hget, hfill]
  unfold traded booked
  dsimp only
  split
  · simp only [setEngOrderTrack, emplace, eraseQueued, if_true, List.set_set]
  · simp only [setEngOrderTrack, emplace, Bool.false_eq_true, if_false]

/-- A match of an order that is not finished: nothing, or a trade. -/
theorem matchQueued_spec (h : s.engOrderTrack[id]? = some ot) (hleft : ot.volTraded < ot.vol)
    (tick : TTick) :
    s.matchQueued id tick = (s, tick) ∨
      ∃ trade price, 0 < trade ∧ trade ≤ ot.vol - ot.volTraded ∧ trade ≤ tick.lotsFor ot.dir ∧
        PriceBetween ot.dir (tick.quote ot.dir) ot.price price ∧
        s.matchQueued id tick = (s.traded id ot trade price, tick.take ot.dir trade) := by
  have hget := getEngOrderTrack_eq h
  have hnone : ¬ot.vol ≤ ot.volTraded := not_le.mpr hleft
  unfold matchQueued makeMatch
  dsimp only
  rw [hget]
  cases hdir : ot.dir with
  | buy =>
    dsimp only
    split
    · rename_i hmatch
      obtain ⟨hprice, hvol, hpos⟩ := hmatch
      have htrade : 0 < min tick.askVol (ot.vol - ot.volTraded) := by omega
      have hmin : (if tick.askVol < ot.vol - ot.volTraded then tick.askVol
          else ot.vol - ot.volTraded) = min tick.askVol (ot.vol - ot.volTraded) := by
        split <;> omega
      rw [hmin]
      refine .inr ⟨min tick.askVol (ot.vol - ot.volTraded), median tick.ask tick.lastPx ot.price,
        htrade, min_le_right _ _, min_le_left _ _, median_le hprice, ?_⟩
      rw [← finish_fill h]
      dsimp only
      split <;> rfl
    · left
      rw [hget, if_neg hnone]
      rfl
  | sell =>
    dsimp only
    split
    · rename_i hmatch
      obtain ⟨hprice, hvol, hpos⟩ := hmatch
      have htrade : 0 < min tick.bidVol (ot.vol - ot.volTraded) := by omega
      have hmin : (if tick.bidVol < ot.vol - ot.volTraded then tick.bidVol
          else ot.vol - ot.volTraded) = min tick.bidVol (ot.vol - ot.volTraded) := by
        split <;> omega
      rw [hmin]
      refine .inr ⟨min tick.bidVol (ot.vol - ot.volTraded), median tick.bid tick.lastPx ot.price,
        htrade, min_le_right _ _, min_le_left _ _, le_median hprice, ?_⟩
      rw [← finish_fill h]
      dsimp only
      split <;> rfl
    · left
      rw [hget, if_neg hnone]
      rfl
  | unknown code =>
    left
    dsimp only
    rw [hget, if_neg hnone]
    rfl

end CTDHelperFake

end NatFramework.Td
