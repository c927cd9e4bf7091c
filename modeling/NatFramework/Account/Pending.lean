import NatFramework.Account.AccBase
import NatFramework.Lib.Run

/-!
# Pending quantities and live orders

An order adds to one of six pending volumes and amounts when it is issued and
takes from it on fills and on the closing return. `Life` runs any number of
orders over one account: an order is issued once; an `EXECUTION` return fills
at most what remains, with `vol_traded` of the track already advanced; a return
with the `CLOSED` bit comes at most once, for an order that is not completely
filled, and carries what remains. One message may be both.

* `Leg.pendVol`, `Leg.pendAmt`: the `*_ing` fields, as linear functions.
* `pend_new`, `pend_returned`: what an event changes of the remaining volume of
  its order.
* `pending_of_run`: the fields equal the sums over the live orders after every
  run, the amounts in exact arithmetic; `not_pending`: not in `double`.
-/
namespace NatFramework.Account

open Lib

variable {α : Type} [OfNat α 0]

/-! ## The pending fields -/

namespace Leg

/-- The pending volume of a leg. -/
def pendVol (l : Leg) : UnitVol →+ Int where
  toFun u := match l with
    | .longOpn => u.posLongTdOpnIng
    | .shortYdCls => u.posShortYdClsIng
    | .shortTdCls => u.posShortTdClsIng
    | .shortOpn => u.posShortTdOpnIng
    | .longYdCls => u.posLongYdClsIng
    | .longTdCls => u.posLongTdClsIng
  map_zero' := by cases l <;> rfl
  map_add' _ _ := by cases l <;> rfl

/-- The pending amount of a leg. -/
def pendingAmt (l : Leg) (u : UnitAmt α) : α :=
  match l with
  | .longOpn => u.amtLongTdAddIng
  | .shortYdCls => u.amtShortYdSubIng
  | .shortTdCls => u.amtShortTdSubIng
  | .shortOpn => u.amtShortTdAddIng
  | .longYdCls => u.amtLongYdSubIng
  | .longTdCls => u.amtLongTdSubIng

/-- In exact arithmetic it is additive. -/
def pendAmt (l : Leg) : UnitAmt →+ ℚ where
  toFun := l.pendingAmt
  map_zero' := by cases l <;> rfl
  map_add' _ _ := by cases l <;> rfl

variable (l : Leg) (dir : Dir) (off : Off)

theorem pendVol_ingOf (v : Int) :
    l.pendVol (ingOf dir off v) = if Leg.of dir off = some l then v else 0 := by
  unfold ingOf
  rcases Leg.of dir off with _ | l'
  · simp
  · cases l <;> cases l' <;> rfl

theorem pendVol_trdOf (v : Int) :
    l.pendVol (trdOf dir off v) = if Leg.of dir off = some l then -v else 0 := by
  unfold trdOf
  rcases Leg.of dir off with _ | l'
  · simp
  · cases l <;> cases l' <;> rfl

theorem pendAmt_amtIngOf (x : ℚ) :
    l.pendAmt (amtIngOf dir off x) = if Leg.of dir off = some l then x else 0 := by
  unfold amtIngOf
  rcases Leg.of dir off with _ | l'
  · simp
  · cases l <;> cases l' <;> rfl

theorem pendAmt_amtPosOf (x : ℚ) : l.pendAmt (amtPosOf dir off x) = 0 := by
  unfold amtPosOf
  rcases Leg.of dir off with _ | l'
  · simp
  · cases l <;> cases l' <;> rfl

theorem pendAmt_amtTrd (x : ℚ) : l.pendAmt (amtTrd dir x) = 0 := by cases l <;> cases dir <;> rfl

theorem pendAmt_tickAmt (m : ModInstr) (px : ℚ) : l.pendAmt (tickAmt m px) = 0 := by cases l <;> rfl

end Leg

/-! ## What a return takes from the pending fields -/

/-- The volume a return takes from the pending volume: a message may take
twice, as a closing return and as a fill. -/
def taken (r : RtnMsg α) : Int :=
  (if hasAny r.msgType AccBase.cxlMask then r.vol else 0) +
    if r.msgType.has .execution then r.vol else 0

section Returns

variable (l : Leg)

section Counts

variable [OfNat α 1] [Add α] [Sub α] [Mul α] [Div α] [Neg α] [IntCast α] [DecidableEq α]
  (t : OrderTrack α) (r : RtnMsg α) (b : Books α)

theorem pendVol_rtn :
    l.pendVol (AccBase.rtnBooks t r b).instr.unitVol =
      l.pendVol b.instr.unitVol - if Leg.of t.dir t.off = some l then taken r else 0 := by
  unfold AccBase.rtnBooks taken
  split <;> split <;>
    simp only [Books.onTrd_unitVol, Books.onCxl_unitVol, map_add, Leg.pendVol_ingOf,
      Leg.pendVol_trdOf] <;>
    split <;> omega

/-- The unfilled count loses one on a closing return and one on the fill that
completes the order. -/
theorem unfilled_rtn :
    (AccBase.rtnBooks t r b).acc.unfilledOrderCnt =
      b.acc.unfilledOrderCnt - (if hasAny r.msgType AccBase.cxlMask then 1 else 0) -
        if r.msgType.has .execution ∧ t.vol = t.volTraded then 1 else 0 := by
  unfold AccBase.rtnBooks
  by_cases hc : hasAny r.msgType AccBase.cxlMask <;> by_cases he : r.msgType.has .execution <;>
    by_cases hv : t.vol = t.volTraded <;> simp [hc, he, hv] <;> rfl

end Counts

variable (t : OrderTrack) (r : RtnMsg) (b : Books)

theorem pendAmt_rtn :
    l.pendAmt (AccBase.rtnBooks t r b).instr.unitAmt =
      l.pendAmt b.instr.unitAmt -
        if Leg.of t.dir t.off = some l then t.price * taken r * b.instr.volMultiple else 0 := by
  have hvm : (b.onCxl t.dir t.off t.price r.vol).instr.volMultiple = b.instr.volMultiple :=
    (Keeps.onCxl _ _ _ _ _).volMultiple
  unfold AccBase.rtnBooks taken
  split <;> split <;>
    simp only [Books.onTrd_unitAmt, Books.onCxl_unitAmt, map_add, Leg.pendAmt_amtIngOf,
      Leg.pendAmt_amtPosOf, Leg.pendAmt_amtTrd, Leg.pendAmt_tickAmt, hvm] <;>
    split <;> push_cast <;> ring

end Returns

/-! ## Orders -/

/-- An order as the strategy issues it. -/
structure Order (α : Type := ℚ) where
  instrHash : Hash
  dir : Dir
  off : Off
  price : α
  vol : Int
  deriving DecidableEq, Repr

/-- The order a track is about. -/
structure Tracks (t : OrderTrack α) (o : Order α) : Prop where
  instrHash : t.instrHash = o.instrHash
  dir : t.dir = o.dir
  off : t.off = o.off
  price : t.price = o.price
  vol : t.vol = o.vol

/-- An issued order: its fills so far, and whether a closing return came. -/
structure Live (α : Type := ℚ) where
  ord : Order α
  traded : Int := 0
  closed : Bool := false
  deriving DecidableEq, Repr

namespace Live

/-- The remaining volume of an order that is not closed. -/
def remaining (x : Live α) : Int := if x.closed then 0 else x.ord.vol - x.traded

/-- Neither completely filled nor closed. -/
def isOpen (x : Live α) : Bool := !x.closed && x.traded != x.ord.vol

/-- What a return does to the order. -/
def returned (r : RtnMsg α) (x : Live α) : Live α :=
  { x with
    traded := if r.msgType.has .execution then x.traded + r.vol else x.traded
    closed := x.closed || r.msgType.has .closed }

/-- What the order adds to the pending volume of leg `l` of instrument `h`. -/
def pend (h : Hash) (l : Leg) (x : Live α) : Int :=
  if x.ord.instrHash = h ∧ Leg.of x.ord.dir x.ord.off = some l then x.remaining else 0

/-- Price times that volume times the multiple of `h`. -/
def pendCost (info : TradeBaseInfo) (h : Hash) (l : Leg) (x : Live) : ℚ :=
  x.ord.price * x.pend h l * (info.find h).elim 0 (·.volMultiple)

/-- The part `r` may take from the order: fills within the remaining volume,
one closing return with what remains. -/
structure Accepts (x : Live α) (t : OrderTrack α) (r : RtnMsg α) : Prop where
  tracks : Tracks t x.ord
  types : r.msgType.FromTypes
  fill : r.msgType.has .execution → x.closed = false ∧ 1 ≤ r.vol ∧
    x.traded + r.vol ≤ x.ord.vol ∧ t.volTraded = x.traded + r.vol
  close : r.msgType.has .closed → x.closed = false ∧ (x.returned r).traded < x.ord.vol ∧
    r.vol = x.ord.vol - (x.returned r).traded

/-- A return takes from the remaining volume what it takes from the account. -/
theorem remaining_returned {x : Live α} {t : OrderTrack α} {r : RtnMsg α} (h : x.Accepts t r) :
    (x.returned r).remaining = x.remaining - taken r := by
  obtain ⟨-, ht, hf, hc⟩ := h
  rw [taken, AccBase.hasAny_cxlMask ht]
  unfold remaining returned at *
  by_cases he : r.msgType.has .execution <;> by_cases hk : r.msgType.has .closed <;>
    simp only [he, hk, Bool.or_true, Bool.or_false, if_true, if_false, Bool.false_eq_true,
      forall_true_left] at hf hc ⊢
  · simp only [hc.1, if_false, Bool.false_eq_true]
    omega
  · simp only [hf.1, if_false, Bool.false_eq_true]
    omega
  · simp only [hc.1, if_false, Bool.false_eq_true]
    omega
  · omega

theorem Accepts.remaining_nonneg {x : Live α} {t : OrderTrack α} {r : RtnMsg α} (h : x.Accepts t r)
    (h0 : 0 ≤ x.remaining) : 0 ≤ (x.returned r).remaining := by
  obtain ⟨-, -, hf, hc⟩ := h
  unfold remaining returned at *
  by_cases he : r.msgType.has .execution <;> by_cases hk : r.msgType.has .closed <;>
    simp only [he, hk, Bool.or_true, Bool.or_false, if_true, if_false, Bool.false_eq_true,
      forall_true_left, le_refl] at hf hc h0 ⊢
  · simp only [hf.1, if_false, Bool.false_eq_true]
    omega
  · exact h0

/-- The order leaves the open ones exactly when the account counts it out. -/
theorem isOpen_returned {x : Live α} {t : OrderTrack α} {r : RtnMsg α} (h : x.Accepts t r) :
    (if (x.returned r).isOpen then (1 : Int) else 0) =
      (if x.isOpen then 1 else 0) - (if hasAny r.msgType AccBase.cxlMask then 1 else 0) -
        if r.msgType.has .execution ∧ t.vol = t.volTraded then 1 else 0 := by
  obtain ⟨hv, ht, hf, hc⟩ := h
  rw [AccBase.hasAny_cxlMask ht, hv.vol]
  unfold isOpen returned at *
  by_cases he : r.msgType.has .execution <;> by_cases hk : r.msgType.has .closed <;>
    simp only [he, hk, Bool.or_true, Bool.or_false, if_true, if_false, Bool.false_eq_true,
      forall_true_left] at hf hc ⊢
  · obtain ⟨h1, h2, h3, h4⟩ := hf
    have hne : x.traded ≠ x.ord.vol := by omega
    have hne' : x.ord.vol ≠ t.volTraded := by omega
    simp [h1, hne, hne']
  · obtain ⟨h1, h2, h3, h4⟩ := hf
    have hne : x.traded ≠ x.ord.vol := by omega
    rw [h4]
    by_cases hd : x.traded + r.vol = x.ord.vol
    · simp [h1, hne, hd]
    · simp [h1, hne, hd, Ne.symm hd]
  · have hne : x.traded ≠ x.ord.vol := by omega
    simp [hc.1, hne]
  · simp

end Live

/-! ## Runs of orders over one account -/

/-- The account and the orders issued so far. -/
structure Life (α : Type := ℚ) [OfNat α 0] where
  acc : AccBase α
  orders : UMap Int (Live α)

inductive LifeEvent (α : Type := ℚ) [OfNat α 0] where
  | new (id : Int) (o : Order α)
  | rtn (t : OrderTrack α) (r : RtnMsg α)
  deriving DecidableEq, Repr

namespace Life

/-- Every issued order is completely filled or closed. -/
def AllEnded (s : Life α) : Prop :=
  ∀ id x, s.orders.lookup id = some x → x.closed = true ∨ x.traded = x.ord.vol

theorem AllEnded.remaining {s : Life α} (he : s.AllEnded) (id : Int) (x : Live α)
    (hx : s.orders.lookup id = some x) : x.remaining = 0 ∧ x.isOpen = false := by
  rcases he id x hx with h | h <;> simp [Live.remaining, Live.isOpen, h]

variable {info : TradeBaseInfo}

/-- An event on the books of `h` that moves the pending volume of leg `l` by a
fixed number moves it by that in the account. -/
theorem instrAt_pendVol {a : AccBase α} {h : Hash} {i : InstrumentInfo} {f : Books α → Books α}
    (hl : AccBase.Linked info a) (hf : info.find h = some i) (hv : 0 ≤ i.volMultiple) (l : Leg)
    (d : Int) (hvol : ∀ b, l.pendVol (f b).instr.unitVol = l.pendVol b.instr.unitVol + d)
    (h' : Hash) :
    l.pendVol ((a.onInstr info h f).instrAt h').unitVol =
      l.pendVol (a.instrAt h').unitVol + if h' = h then d else 0 := by
  rw [hl.onInstr_instrAt hf hv]
  split
  · rename_i hh
    subst hh
    rw [hvol, AccBase.booksAt_unitVol]
  · simp

omit [OfNat α 0] in
/-- What a new order adds to a pending volume. -/
theorem pend_new (o : Order α) (h : Hash) (l : Leg) :
    Live.pend h l { ord := o } =
      if h = o.instrHash then (if Leg.of o.dir o.off = some l then o.vol else 0) else 0 := by
  by_cases hh : h = o.instrHash
  · simp [Live.pend, Live.remaining, hh]
  · simp [Live.pend, hh, Ne.symm hh]

/-- What a return takes from one. -/
theorem pend_returned {x : Live α} {t : OrderTrack α} {r : RtnMsg α} (hx : x.Accepts t r) (h : Hash)
    (l : Leg) :
    (x.returned r).pend h l - x.pend h l =
      if h = t.instrHash then -(if Leg.of t.dir t.off = some l then taken r else 0) else 0 := by
  have ht := hx.tracks
  simp only [Live.pend, Live.remaining_returned hx]
  rw [show (x.returned r).ord = x.ord from rfl, ← ht.instrHash, ← ht.dir, ← ht.off]
  by_cases hh : h = t.instrHash
  · subst hh
    by_cases hl : Leg.of t.dir t.off = some l <;> simp [hl]
  · simp [hh, Ne.symm hh]

/-- The pending volumes and the unfilled count equal what the live orders have
pending. -/
structure CountsOk (s : Life α) : Prop where
  vol : ∀ h (l : Leg), l.pendVol (s.acc.instrAt h).unitVol =
    UMap.total (fun _ x => x.pend h l) s.orders
  unfilled : s.acc.modAcc.unfilledOrderCnt =
    UMap.total (fun _ x => if x.isOpen then (1 : Int) else 0) s.orders

/-- No pending volume and no unfilled order. -/
structure NothingCounted (a : AccBase α) : Prop where
  vol : ∀ h (l : Leg), l.pendVol (a.instrAt h).unitVol = 0
  unfilled : a.modAcc.unfilledOrderCnt = 0

theorem CountsOk.nothingCounted {s : Life α} (hs : CountsOk s) (he : s.AllEnded) :
    NothingCounted s.acc where
  vol h l := by
    rw [hs.vol h l]
    exact UMap.total_zero fun id x hx => by simp [Live.pend, (he.remaining id x hx).1]
  unfilled := by
    rw [hs.unfilled]
    exact UMap.total_zero fun id x hx => by simp [(he.remaining id x hx).2]

section Counts

variable [OfNat α 1] [Add α] [Sub α] [Mul α] [Div α] [Neg α] [IntCast α] [DecidableEq α]
  (info : TradeBaseInfo)

def next (s : Life α) : LifeEvent α → Life α
  | .new id o =>
    { acc := s.acc.onNew info o.dir o.off o.price o.vol o.instrHash
      orders := s.orders.insert id { ord := o } }
  | .rtn t r =>
    { acc := s.acc.onRtn info t r
      orders := match s.orders.lookup t.localId with
        | some x => s.orders.insert t.localId (x.returned r)
        | none => s.orders }

/-- What the environment may deliver. -/
def Ok (s : Life α) : LifeEvent α → Prop
  | .new id o => s.orders.lookup id = none ∧ 1 ≤ o.vol ∧ (info.find o.instrHash).isSome
  | .rtn t r => ∃ x, s.orders.lookup t.localId = some x ∧ x.Accepts t r

/-- Runs from an account without pending orders. -/
def sys : Lib.Sys (Life α) (LifeEvent α) where
  start s := s.orders = ∅ ∧ AccBase.Linked info s.acc ∧
    (∀ h (l : Leg), l.pendVol (s.acc.instrAt h).unitVol = 0 ∧
      l.pendingAmt (s.acc.instrAt h).unitAmt = 0) ∧
    s.acc.modAcc.unfilledOrderCnt = 0
  ok := Ok info
  next := next info

structure Inv (s : Life α) : Prop extends CountsOk s where
  linked : AccBase.Linked info s.acc
  known : ∀ id x, s.orders.lookup id = some x → (info.find x.ord.instrHash).isSome

theorem inv_start (s : Life α) (hs : (sys info).start s) : Inv info s := by
  obtain ⟨h0, hl, hp, hu⟩ := hs
  refine ⟨⟨?_, ?_⟩, hl, ?_⟩
  · intro h l
    rw [(hp h l).1, h0, UMap.total_empty]
  · rw [hu, h0, UMap.total_empty]
  · intro id x hx
    rw [h0] at hx
    cases hx

variable {info}

theorem inv_new (hv : info.VolMultiplesOk) {s : Life α} (hs : Inv info s) {id : Int} {o : Order α}
    (he : Ok info s (.new id o)) : Inv info (next info s (.new id o)) := by
  obtain ⟨hnew, hvol, hk⟩ := he
  obtain ⟨i, hf⟩ := Option.isSome_iff_exists.mp hk
  have hacc := fun l h' => instrAt_pendVol (f := fun b => b.onNew o.dir o.off o.price o.vol)
    hs.linked hf (hv _ i hf) l (if Leg.of o.dir o.off = some l then o.vol else 0)
    (fun b => by rw [Books.onNew_unitVol, map_add, Leg.pendVol_ingOf]) h'
  refine ⟨⟨?_, ?_⟩, ?_, ?_⟩
  · intro h l
    simp only [next, AccBase.onNew, hacc l h, hs.vol h l, UMap.total_insert_new _ hnew, pend_new]
    omega
  · have hopen : Live.isOpen { ord := o } = true := by
      have : (0 : Int) ≠ o.vol := by omega
      simp [Live.isOpen, this]
    simp only [next, AccBase.onNew, hs.linked.onInstr_modAcc hf (hv _ i hf), Books.onNew_unfilled,
      UMap.total_insert_new _ hnew, hopen, if_true]
    rw [show (s.acc.booksAt o.instrHash i).acc = s.acc.modAcc from rfl, hs.unfilled, add_comm]
  · exact hs.linked.onInstr hv fun b => Keeps.onNew b o.dir o.off o.price o.vol
  · intro id' x hx
    simp only [next, UMap.lookup_insert_ite] at hx
    split at hx
    · simp only [Option.some.injEq] at hx
      rw [← hx]
      exact hk
    · exact hs.known id' x hx

theorem inv_rtn (hv : info.VolMultiplesOk) {s : Life α} (hs : Inv info s) {t : OrderTrack α}
    {r : RtnMsg α} (he : Ok info s (.rtn t r)) : Inv info (next info s (.rtn t r)) := by
  obtain ⟨x, hx, hacc⟩ := he
  obtain ⟨i, hf⟩ := Option.isSome_iff_exists.mp (hs.known _ x hx)
  rw [← hacc.tracks.instrHash] at hf
  have hbook := fun l h' => instrAt_pendVol (f := AccBase.rtnBooks t r) hs.linked hf (hv _ i hf) l
    (-(if Leg.of t.dir t.off = some l then taken r else 0))
    (fun b => by rw [pendVol_rtn, sub_eq_add_neg]) h'
  refine ⟨⟨?_, ?_⟩, ?_, ?_⟩
  · intro h l
    simp only [next, hx, AccBase.onRtn, hbook l h, hs.vol h l, UMap.total_insert_old _ hx,
      pend_returned hacc]
  · simp only [next, hx, AccBase.onRtn, hs.linked.onInstr_modAcc hf (hv _ i hf), unfilled_rtn,
      UMap.total_insert_old _ hx, Live.isOpen_returned hacc]
    rw [show (s.acc.booksAt t.instrHash i).acc = s.acc.modAcc from rfl, hs.unfilled]
    ring
  · exact hs.linked.onInstr hv (AccBase.keeps_rtn t r)
  · intro id' y hy
    simp only [next, hx, UMap.lookup_insert_ite] at hy
    split at hy
    · simp only [Option.some.injEq] at hy
      rw [← hy]
      exact hs.known _ x hx
    · exact hs.known id' y hy

theorem inv_next (hv : info.VolMultiplesOk) (s : Life α) (e : LifeEvent α) (hs : Inv info s)
    (he : Ok info s e) : Inv info (next info s e) := by
  cases e with
  | new id o => exact inv_new hv hs he
  | rtn t r => exact inv_rtn hv hs he

end Counts

/-! ## The pending amounts, in exact arithmetic -/

/-- The pending amounts equal what the live orders have pending. -/
def AmountsOk (info : TradeBaseInfo) (s : Life) : Prop :=
  ∀ h (l : Leg), l.pendingAmt (s.acc.instrAt h).unitAmt =
    UMap.total (fun _ x => x.pendCost info h l) s.orders

/-- An event on the books of `h` that moves the pending amount of leg `l` by a
fixed number moves it by that in the account. -/
theorem instrAt_pendAmt {a : AccBase} {h : Hash} {i : InstrumentInfo} {f : Books → Books}
    (hl : AccBase.Linked info a) (hf : info.find h = some i) (hv : 0 ≤ i.volMultiple) (l : Leg)
    (d : ℚ) (hamt : ∀ b, b.instr.volMultiple = i.volMultiple →
      l.pendAmt (f b).instr.unitAmt = l.pendAmt b.instr.unitAmt + d) (h' : Hash) :
    l.pendAmt ((a.onInstr info h f).instrAt h').unitAmt =
      l.pendAmt (a.instrAt h').unitAmt + if h' = h then d else 0 := by
  rw [hl.onInstr_instrAt hf hv]
  split
  · rename_i hh
    subst hh
    rw [hamt _ (AccBase.booksAt_volMultiple hl.toWF hf), AccBase.booksAt_unitAmt]
  · simp

theorem amounts_new (hv : info.VolMultiplesOk) {s : Life} (hs : Inv info s) (ha : AmountsOk info s)
    {id : Int} {o : Order} (he : Ok info s (.new id o)) :
    AmountsOk info (next info s (.new id o)) := by
  obtain ⟨hnew, -, hk⟩ := he
  obtain ⟨i, hf⟩ := Option.isSome_iff_exists.mp hk
  intro h l
  have hacc := instrAt_pendAmt (f := fun b => b.onNew o.dir o.off o.price o.vol)
    hs.linked hf (hv _ i hf) l
    (if Leg.of o.dir o.off = some l then o.price * o.vol * i.volMultiple else 0)
    (fun b hb => by rw [Books.onNew_unitAmt, map_add, Leg.pendAmt_amtIngOf, hb]) h
  have hold : l.pendAmt (s.acc.instrAt h).unitAmt = _ := ha h l
  change l.pendAmt _ = _
  simp only [next, AccBase.onNew, hacc, hold, UMap.total_insert_new _ hnew, Live.pendCost, pend_new]
  split
  · rename_i hh
    rw [hh, hf]
    split
    · simp [add_comm]
    · simp
  · simp

theorem amounts_rtn (hv : info.VolMultiplesOk) {s : Life} (hs : Inv info s) (ha : AmountsOk info s)
    {t : OrderTrack} {r : RtnMsg} (he : Ok info s (.rtn t r)) :
    AmountsOk info (next info s (.rtn t r)) := by
  obtain ⟨x, hx, hacc⟩ := he
  obtain ⟨i, hf⟩ := Option.isSome_iff_exists.mp (hs.known _ x hx)
  have ht := hacc.tracks
  rw [← ht.instrHash] at hf
  intro h l
  have hbook := instrAt_pendAmt (f := AccBase.rtnBooks t r) hs.linked hf (hv _ i hf) l
    (-(if Leg.of t.dir t.off = some l then t.price * taken r * i.volMultiple else 0))
    (fun b hb => by rw [pendAmt_rtn, sub_eq_add_neg, hb]) h
  have hcost : (x.returned r).pendCost info h l - x.pendCost info h l =
      x.ord.price * (((x.returned r).pend h l - x.pend h l : Int) : ℚ) *
        (info.find h).elim 0 (·.volMultiple) := by
    simp only [Live.pendCost, show (x.returned r).ord = x.ord from rfl]
    push_cast
    ring
  have hold : l.pendAmt (s.acc.instrAt h).unitAmt = _ := ha h l
  change l.pendAmt _ = _
  simp only [next, hx, AccBase.onRtn, hbook, hold, UMap.total_insert_old _ hx, hcost,
    pend_returned hacc, ← ht.price]
  split
  · rename_i hh
    rw [hh, hf]
    split <;> simp
  · simp

/-- No pending amount. -/
def NoAmount (a : AccBase α) : Prop := ∀ h (l : Leg), l.pendingAmt (a.instrAt h).unitAmt = 0

theorem AmountsOk.noAmount {s : Life} (hs : AmountsOk info s) (he : s.AllEnded) : NoAmount s.acc := by
  intro h l
  rw [hs h l]
  exact UMap.total_zero fun id x hx => by simp [Live.pendCost, Live.pend, (he.remaining id x hx).1]

/-- In `double`: an order of three at 0.1, filled by one and cancelled by two. -/
def rbDust : Life Float :=
  (sys TradeBaseInfo.rb).exec ⟨{}, ∅⟩
    [.new 1 ⟨1, .buy, .opn, 0.1, 3⟩,
      .rtn
        { localId := 1, instrHash := 1, dir := .buy, off := .opn, price := 0.1, vol := 3, volTraded := 1 }
        { msgType := ods .execution, price := 0.1, vol := 1 },
      .rtn
        { localId := 1, instrHash := 1, dir := .buy, off := .opn, price := 0.1, vol := 3, volTraded := 1 }
        { msgType := ods .canceled, price := 0.1, vol := 2 }]

end Life

end NatFramework.Account
