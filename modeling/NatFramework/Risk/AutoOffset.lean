import NatFramework.Account.RollUp
import NatFramework.Risk.Limits
import NatFramework.Risk.RiskStg

/-!
# Automatic offsets

Orders sent with `Auto` or `Close`: `parseAutoOffset` compares the free part of
yesterday's, then of today's position with the volume, so that what is pending
to be closed never exceeds what there is to close. Other orders are pending
between the check and a fill; a fill takes from the position what it takes from
the pending volume.

* `Closable`: the pending closes of an instrument are within its positions.
* `parseAutoOffset_room`: the choice leaves them there.
* `closable_of_run`: so they are after every run.
-/
namespace NatFramework.Risk

open Lib Account

/-! ## What is pending to be closed -/

/-- The pending closes are within the positions they close. -/
structure Closable (u : UnitVol) : Prop where
  longYd : u.posLongYdClsIng ≤ u.posLongYd
  longTd : u.posLongTdClsIng ≤ u.posLongTd
  shortYd : u.posShortYdClsIng ≤ u.posShortYd
  shortTd : u.posShortTdClsIng ≤ u.posShortTd

/-- A close of `vol` finds that much that no other order is about to close. -/
def Room (dir : Dir) (off : Off) (u : UnitVol) (vol : Int) : Prop :=
  match Leg.of dir off with
  | some .shortYdCls => u.posShortYdClsIng + vol ≤ u.posShortYd
  | some .shortTdCls => u.posShortTdClsIng + vol ≤ u.posShortTd
  | some .longYdCls => u.posLongYdClsIng + vol ≤ u.posLongYd
  | some .longTdCls => u.posLongTdClsIng + vol ≤ u.posLongTd
  | _ => True

theorem Closable.new {u : UnitVol} (hu : Closable u) {dir : Dir} {off : Off} {vol : Int}
    (hr : Room dir off u vol) : Closable (u + ingOf dir off vol) := by
  obtain ⟨h1, h2, h3, h4⟩ := hu
  unfold Room at hr
  unfold ingOf
  generalize Leg.of dir off = o at hr ⊢
  rcases o with _ | l
  · exact ⟨by simpa, by simpa, by simpa, by simpa⟩
  · cases l <;> constructor <;> simp [Leg.ing] at hr ⊢ <;> omega

theorem Closable.cxl {u : UnitVol} (hu : Closable u) (dir : Dir) (off : Off) {vol : Int}
    (hv : 0 ≤ vol) : Closable (u + ingOf dir off (-vol)) := by
  obtain ⟨h1, h2, h3, h4⟩ := hu
  unfold ingOf
  rcases Leg.of dir off with _ | l
  · exact ⟨by simpa, by simpa, by simpa, by simpa⟩
  · cases l <;> constructor <;> simp [Leg.ing] <;> omega

theorem Closable.trd {u : UnitVol} (hu : Closable u) (dir : Dir) (off : Off) {vol : Int}
    (hv : 0 ≤ vol) : Closable (u + trdOf dir off vol) := by
  obtain ⟨h1, h2, h3, h4⟩ := hu
  unfold trdOf
  rcases Leg.of dir off with _ | l
  · exact ⟨by simpa, by simpa, by simpa, by simpa⟩
  · cases l <;> constructor <;> simp [Leg.trd] <;> omega

theorem Closable.rtn {u : UnitVol} (hu : Closable u) {x : Live} {t : OrderTrack} {m : RtnMsg}
    (h : x.Accepts t m) : Closable (u + Trading.rtnVol t m) := by
  obtain ⟨h1, h2⟩ := Trading.rtn_vol_nonneg h
  unfold Trading.rtnVol
  by_cases hc : hasAny m.msgType AccBase.cxlMask <;> by_cases he : m.msgType.has .execution
  · simp only [hc, he, if_true, ← add_assoc]
    exact (hu.cxl _ _ (h1 hc)).trd _ _ (h2 he)
  · simp only [hc, he, if_true, if_false, Bool.false_eq_true, add_zero]
    exact hu.cxl _ _ (h1 hc)
  · simp only [hc, he, if_true, if_false, Bool.false_eq_true, zero_add]
    exact hu.trd _ _ (h2 he)
  · simp only [hc, he, if_false, Bool.false_eq_true, add_zero]
    exact hu

/-! ## The choice of the offset -/

namespace RiskInstr

variable {r : RiskInstr} {ab : AccBase} {dir : Dir} {off : Off} {vol : Int}

/-- A choice that is not refused closes what is free. -/
theorem parseAutoOffset_room (h : (r.parseAutoOffset ab dir off vol).2 = 0) :
    Room dir (r.parseAutoOffset ab dir off vol).1 (r.unitVol ab) vol := by
  unfold parseAutoOffset at h ⊢
  dsimp only at h ⊢
  generalize r.unitVol ab = u at h ⊢
  cases dir with
  | buy =>
    dsimp only at h ⊢
    split_ifs at h ⊢ <;> simp [Room, Leg.of] <;> omega
  | sell =>
    dsimp only at h ⊢
    split_ifs at h ⊢ <;> simp [Room, Leg.of] <;> omega
  | unknown c => cases h

/-- `Close` is not turned into an open. -/
theorem parseAutoOffset_close (h : (r.parseAutoOffset ab dir .close vol).2 = 0) :
    (r.parseAutoOffset ab dir .close vol).1 ≠ .opn := by
  unfold parseAutoOffset at h ⊢
  dsimp only at h ⊢
  cases dir with
  | buy =>
    dsimp only at h ⊢
    split_ifs at h ⊢ <;> simp_all
  | sell =>
    dsimp only at h ⊢
    split_ifs at h ⊢ <;> simp_all
  | unknown c => cases h

end RiskInstr

/-! ## Runs -/

/-- A strategy's risk account and the orders it has sent. -/
structure StgOrders where
  risk : RiskStg
  orders : UMap Int Live

inductive StgEvent where
  /-- `CStrategy::sendOrder`: the check, and `onNew` if it answers 0. -/
  | send (id : Int) (dir : Dir) (off : Off) (px : ℚ) (vol : Int) (subs : SubsInstrInfo)
  | rtn (t : OrderTrack) (m : RtnMsg)
  deriving DecidableEq, Repr

namespace StgOrders

variable (info : TradeBaseInfo) (tickPrice : Hash → ℚ)

/-- mirrors strategy/CStrategy.cpp:141-162 -/
def next (s : StgOrders) : StgEvent → StgOrders
  | .send id dir off px vol subs =>
    let c := s.risk.check info tickPrice dir off px vol subs
    if c.2.2 = some 0 then
      { risk := c.1.onNew info dir c.2.1 px vol subs.baseInfo.instrHash subs.exchTime
        orders := s.orders.insert id { ord := ⟨subs.baseInfo.instrHash, dir, c.2.1, px, vol⟩ } }
    else { s with risk := c.1 }
  | .rtn t m =>
    { risk := s.risk.onRtn info t m
      orders := match s.orders.lookup t.localId with
        | some x => s.orders.insert t.localId (x.returned m)
        | none => s.orders }

/-- Orders of subscribed instruments whose offset is to be chosen; fills stay
within the remaining volume, and an order ends with what remains. -/
def Ok (s : StgOrders) : StgEvent → Prop
  | .send id dir off _ vol subs => s.orders.lookup id = none ∧
      info.find subs.baseInfo.instrHash = some subs.baseInfo ∧ (dir = .buy ∨ dir = .sell) ∧
      (off = .auto ∨ off = .close) ∧ 1 ≤ vol
  | .rtn t m => ∃ x, s.orders.lookup t.localId = some x ∧ x.Accepts t m

/-- Runs from an account where nothing is pending and no position is negative. -/
def autoSys : Lib.Sys StgOrders StgEvent where
  start s := s.orders = ∅ ∧ AccBase.Linked info s.risk.accBase ∧ s.risk.Points ∧
    ∀ h, (∀ l : Leg, l.pendVol (s.risk.accBase.instrAt h).unitVol = 0) ∧
      AccBase.NonNeg (s.risk.accBase.instrAt h).unitVol
  ok := Ok info
  next := next info tickPrice

structure Inv (s : StgOrders) : Prop where
  linked : AccBase.Linked info s.risk.accBase
  points : s.risk.Points
  known : ∀ id x, s.orders.lookup id = some x →
    (info.find x.ord.instrHash).isSome ∧ 0 ≤ x.remaining
  pend : ∀ h (l : Leg), l.pendVol (s.risk.accBase.instrAt h).unitVol =
    UMap.total (fun _ x => x.pend h l) s.orders
  closable : ∀ h, Closable (s.risk.accBase.instrAt h).unitVol
  nonNeg : ∀ h, AccBase.NonNeg (s.risk.accBase.instrAt h).unitVol

variable {info tickPrice} {s : StgOrders}

theorem Inv.live_nonneg (hs : Inv info s) (h : Hash) (l : Leg) {id : Int} {x : Live}
    (hx : s.orders.lookup id = some x) : 0 ≤ x.pend h l := by
  unfold Live.pend
  split
  · exact (hs.known id x hx).2
  · exact le_refl 0

theorem Inv.pend_nonneg (hs : Inv info s) (h : Hash) (l : Leg) :
    0 ≤ l.pendVol (s.risk.accBase.instrAt h).unitVol := by
  rw [hs.pend]
  exact UMap.total_nonneg fun id x hx => hs.live_nonneg h l hx

/-- What an order has pending is part of what its leg has. -/
theorem Inv.remaining_le (hs : Inv info s) {id : Int} {x : Live}
    (hx : s.orders.lookup id = some x) {l : Leg} (hl : Leg.of x.ord.dir x.ord.off = some l) :
    x.remaining ≤ l.pendVol (s.risk.accBase.instrAt x.ord.instrHash).unitVol := by
  have hle : x.pend x.ord.instrHash l ≤ UMap.total (fun _ x' => x'.pend x.ord.instrHash l) s.orders :=
    UMap.le_total (fun id' x' hx' => hs.live_nonneg x.ord.instrHash l hx') hx
  rw [hs.pend]
  rwa [Live.pend, if_pos ⟨rfl, hl⟩] at hle

theorem inv_start (hs : (autoSys info tickPrice).start s) : Inv info s := by
  obtain ⟨h0, hl, hp, hz⟩ := hs
  refine ⟨hl, hp, ?_, fun h l => ?_, fun h => ?_, fun h => (hz h).2⟩
  · intro id x hx
    rw [h0] at hx
    cases hx
  · rw [(hz h).1, h0, UMap.total_empty]
  · obtain ⟨hpend, h1, h2, h3, h4, -, -⟩ := hz h
    have e1 : (s.risk.accBase.instrAt h).unitVol.posLongYdClsIng = 0 := hpend .longYdCls
    have e2 : (s.risk.accBase.instrAt h).unitVol.posLongTdClsIng = 0 := hpend .longTdCls
    have e3 : (s.risk.accBase.instrAt h).unitVol.posShortYdClsIng = 0 := hpend .shortYdCls
    have e4 : (s.risk.accBase.instrAt h).unitVol.posShortTdClsIng = 0 := hpend .shortTdCls
    exact ⟨by omega, by omega, by omega, by omega⟩

/-- A request that is refused may have registered its instrument. -/
theorem Inv.of_same (hs : Inv info s) {r : RiskStg} (hl : AccBase.Linked info r.accBase)
    (hsame : SameNumbers s.risk.accBase r.accBase) (hp : r.Points) : Inv info { s with risk := r } where
  linked := hl
  points := hp
  known := hs.known
  pend h l := by
    dsimp only
    rw [hsame.vol]
    exact hs.pend h l
  closable h := by
    dsimp only
    rw [hsame.vol]
    exact hs.closable h
  nonNeg h := by
    dsimp only
    rw [hsame.vol]
    exact hs.nonNeg h

variable (hv : info.VolMultiplesOk)

include hv in
/-- The event of an order moves the volumes of its own instrument. -/
theorem unitVol_onInstr {a : AccBase} (hl : AccBase.Linked info a) {h : Hash} {i : InstrumentInfo}
    (hf : info.find h = some i) {f : Books → Books} {d : UnitVol} (hb : ∀ b, Balanced b (f b))
    (hd : ∀ b, (f b).instr.unitVol = b.instr.unitVol + d) (h' : Hash) :
    ((a.onInstr info h f).instrAt h').unitVol = (a.instrAt h').unitVol + if h = h' then d else 0 := by
  have hu := (Level.instr h').unitVol_onInstr hl hf (hv h i hf) hb hd
  simpa only [Level.unitVol, Level.covers, decide_eq_true_eq] using hu

theorem onNew_record (r : RiskInstr) (nano : Int) :
    (r.onNew nano).isAllowed = r.isAllowed ∧ (r.onNew nano).pUnitVol = r.pUnitVol := by
  unfold RiskInstr.onNew
  dsimp only
  split <;> exact ⟨rfl, rfl⟩

include hv in
theorem points_onNew {r : RiskStg} (hl : AccBase.Linked info r.accBase) (hp : r.Points) (dir : Dir)
    (off : Off) (px : ℚ) (vol : Int) (h : Hash) (nano : Int) :
    (r.onNew info dir off px vol h nano).Points := by
  have haddr : ∀ k, (r.accBase.onNew info dir off px vol h).mapInstr.addr k =
      r.accBase.mapInstr.addr k := fun k => (hl.onInstr_addr hv h k _).1
  intro k q hq ha
  unfold RiskStg.onNew at hq ⊢
  dsimp only at hq ⊢
  rw [haddr]
  rw [UMap.lookup_insert_ite] at hq
  split at hq
  · rename_i hk
    rw [Option.some.injEq] at hq
    subst hq
    obtain ⟨h1, h2⟩ := onNew_record (RiskStg.riskInstrAt h
      { r with accBase := r.accBase.onNew info dir off px vol h }).toRiskInstr nano
    dsimp only at ha ⊢
    rw [h1] at ha
    rw [h2, hk]
    unfold RiskStg.riskInstrAt at ha ⊢
    dsimp only at ha ⊢
    cases hr : r.mapRiskInstr.lookup h with
    | none =>
      rw [hr] at ha
      cases ha
    | some q =>
      rw [hr] at ha
      exact hp h q hr ha
  · exact hp k q hq ha

include hv in
/-- An order that is let through closes what is free. -/
theorem inv_booked (hs : Inv info s) {id : Int} {dir : Dir} {off : Off} {px : ℚ} {vol : Int}
    {i : InstrumentInfo} (hid : s.orders.lookup id = none) (hf : info.find i.instrHash = some i)
    (hvol : 1 ≤ vol) (hroom : Room dir off (s.risk.accBase.instrAt i.instrHash).unitVol vol)
    (nano : Int) :
    Inv info
      { risk := s.risk.onNew info dir off px vol i.instrHash nano
        orders := s.orders.insert id { ord := ⟨i.instrHash, dir, off, px, vol⟩ } } := by
  have hu : ∀ h', ((s.risk.onNew info dir off px vol i.instrHash nano).accBase.instrAt h').unitVol =
      (s.risk.accBase.instrAt h').unitVol + if i.instrHash = h' then ingOf dir off vol else 0 :=
    fun h' => unitVol_onInstr hv hs.linked hf (fun b => Balanced.onNew b dir off px vol)
      (fun b => Books.onNew_unitVol _ _ _ _ _) h'
  refine ⟨?_, points_onNew hv hs.linked hs.points dir off px vol i.instrHash nano, ?_, ?_, ?_, ?_⟩
  · exact hs.linked.onInstr hv fun b => Keeps.onNew b dir off px vol
  · intro id' x hx
    dsimp only at hx
    rw [UMap.lookup_insert_ite] at hx
    split at hx
    · rw [Option.some.injEq] at hx
      subst hx
      refine ⟨by rw [hf]; rfl, ?_⟩
      simp only [Live.remaining, Bool.false_eq_true, if_false]
      omega
    · exact hs.known id' x hx
  · intro h l
    dsimp only
    rw [hu, map_add, hs.pend, UMap.total_insert_new _ hid, add_comm]
    congr 1
    by_cases hh : i.instrHash = h
    · simp [Live.pend, hh, Leg.pendVol_ingOf, Live.remaining]
    · simp [Live.pend, hh]
  · intro h
    dsimp only
    rw [hu]
    split
    · rename_i hh
      subst hh
      exact (hs.closable _).new hroom
    · rw [add_zero]
      exact hs.closable h
  · intro h
    dsimp only
    rw [hu]
    split
    · exact (hs.nonNeg h).ing dir off vol
    · rw [add_zero]
      exact hs.nonNeg h

include hv in
theorem inv_send (hs : Inv info s) {id : Int} {dir : Dir} {off : Off} {px : ℚ} {vol : Int}
    {subs : SubsInstrInfo} (he : Ok info s (.send id dir off px vol subs)) :
    Inv info (s.next info tickPrice (.send id dir off px vol subs)) := by
  obtain ⟨hid, hf, -, hoff, hvol⟩ := he
  obtain ⟨hl, hsame⟩ :
      _ ∧ SameNumbers _ (s.risk.findOrReg info tickPrice subs.baseInfo).1.accBase :=
    RiskStg.sameNumbers_findOrReg hv hs.linked subs.baseInfo
  have hp : (s.risk.findOrReg info tickPrice subs.baseInfo).1.Points :=
    hs.points.findOrReg hv hs.linked subs.baseInfo
  have hreg := hs.of_same hl hsame hp
  unfold next
  dsimp only
  have hfst : (s.risk.check info tickPrice dir off px vol subs).1 = _ :=
    RiskStg.fst_check dir off px vol subs
  split
  · rename_i h0
    obtain ⟨s', r, hfound, hchosen, hzero, hallowed⟩ := RiskStg.check_zero h0
    rw [hfst, hchosen, if_pos hoff]
    rw [hfound] at hreg hp ⊢
    refine inv_booked hv hreg hid hf hvol ?_ subs.exchTime
    have hpoints := hp _ r (RiskStg.findOrReg_ok hfound) hallowed
    have hu : r.unitVol s'.accBase = (s'.accBase.instrAt subs.baseInfo.instrHash).unitVol := by
      rw [RiskInstr.unitVol, hpoints, Option.bind_some, NodeMap.deref_addr, AccBase.instrAt]
      cases s'.accBase.mapInstr.find subs.baseInfo.instrHash <;> rfl
    dsimp only
    rw [← hu]
    exact RiskInstr.parseAutoOffset_room (hzero hoff)
  · rw [hfst]
    exact hreg

/-- What an order has pending is there to be filled. -/
theorem Inv.covered (hs : Inv info s) {id : Int} {x : Live} (hx : s.orders.lookup id = some x)
    {v : Int} (h0 : 0 ≤ v) (hle : v ≤ x.remaining) :
    Covered x.ord.dir x.ord.off (s.risk.accBase.instrAt x.ord.instrHash).unitVol v := by
  have hrem : ∀ l : Leg, Leg.of x.ord.dir x.ord.off = some l →
      v ≤ l.pendVol (s.risk.accBase.instrAt x.ord.instrHash).unitVol :=
    fun l hl => hle.trans (hs.remaining_le hx hl)
  obtain ⟨h1, h2, h3, h4⟩ := hs.closable x.ord.instrHash
  unfold Covered
  rcases hleg : Leg.of x.ord.dir x.ord.off with _ | l
  · trivial
  · have hl := hrem l hleg
    cases l with
    | longOpn => exact h0
    | shortOpn => exact h0
    | shortYdCls => exact hl.trans h3
    | shortTdCls => exact hl.trans h4
    | longYdCls => exact hl.trans h1
    | longTdCls => exact hl.trans h2

theorem fill_le {x : Live} {t : OrderTrack} {m : RtnMsg} (h : x.Accepts t m)
    (he : m.msgType.has .execution = true) : 0 ≤ m.vol ∧ m.vol ≤ x.remaining := by
  obtain ⟨hc, h1, h2, -⟩ := h.fill he
  simp only [Live.remaining, hc, Bool.false_eq_true, if_false]
  omega

theorem nonNeg_rtnVol {u : UnitVol} (hu : AccBase.NonNeg u) {t : OrderTrack} {m : RtnMsg}
    (hc : m.msgType.has .execution = true → Covered t.dir t.off u m.vol) :
    AccBase.NonNeg (u + Trading.rtnVol t m) := by
  have h : AccBase.NonNeg (AccBase.rtnBooks t m ⟨{ unitVol := u }, {}, {}⟩).instr.unitVol :=
    AccBase.nonNeg_rtn hu hc
  rwa [Trading.rtnBooks_unitVol] at h

include hv in
theorem inv_rtn (hs : Inv info s) {t : OrderTrack} {m : RtnMsg} (he : Ok info s (.rtn t m)) :
    Inv info (s.next info tickPrice (.rtn t m)) := by
  obtain ⟨x, hx, hacc⟩ := he
  have htr := hacc.tracks
  obtain ⟨i, hf⟩ := Option.isSome_iff_exists.mp (hs.known _ x hx).1
  rw [← htr.instrHash] at hf
  have hu : ∀ h', ((s.risk.onRtn info t m).accBase.instrAt h').unitVol =
      (s.risk.accBase.instrAt h').unitVol + if t.instrHash = h' then Trading.rtnVol t m else 0 :=
    fun h' => unitVol_onInstr hv hs.linked hf (AccBase.balanced_rtn t m)
      (Trading.rtnBooks_unitVol t m) h'
  rw [next, hx]
  refine ⟨hs.linked.onInstr hv (AccBase.keeps_rtn t m), ?_, ?_, ?_, ?_, ?_⟩
  · intro h r hr ha
    rw [show (s.risk.onRtn info t m).accBase.mapInstr.addr h = s.risk.accBase.mapInstr.addr h from
      (hs.linked.onInstr_addr hv t.instrHash h _).1]
    exact hs.points h r hr ha
  · intro id y hy
    dsimp only at hy
    rw [UMap.lookup_insert_ite] at hy
    split at hy
    · rw [Option.some.injEq] at hy
      subst hy
      exact ⟨(hs.known _ x hx).1, hacc.remaining_nonneg (hs.known _ x hx).2⟩
    · exact hs.known id y hy
  · intro h l
    dsimp only
    rw [hu, map_add, hs.pend, UMap.total_insert_old _ hx]
    congr 1
    have hrem := Live.remaining_returned hacc
    simp only [Live.pend]
    rw [show (x.returned m).ord = x.ord from rfl, ← htr.instrHash, ← htr.dir, ← htr.off, hrem]
    by_cases hh : t.instrHash = h
    · rw [if_pos hh, Trading.pendVol_rtnVol]
      by_cases hl : Leg.of t.dir t.off = some l <;> simp [hh, hl]
    · simp [hh]
  · intro h
    dsimp only
    rw [hu]
    split
    · exact (hs.closable h).rtn hacc
    · rw [add_zero]
      exact hs.closable h
  · intro h
    dsimp only
    rw [hu]
    split
    · rename_i hh
      subst hh
      refine nonNeg_rtnVol (hs.nonNeg _) fun hex => ?_
      obtain ⟨h0, hle⟩ := fill_le hacc hex
      rw [htr.instrHash, htr.dir, htr.off]
      exact hs.covered hx h0 hle
    · rw [add_zero]
      exact hs.nonNeg h

include hv in
theorem inv_next (s : StgOrders) (e : StgEvent) (hs : Inv info s) (he : Ok info s e) :
    Inv info (s.next info tickPrice e) := by
  cases e with
  | send id dir off px vol subs => exact inv_send hv hs he
  | rtn t m => exact inv_rtn hv hs he

/-- `Close` is let through as a close only. -/
theorem check_close_ne_opn {r : RiskStg} {dir : Dir} {px : ℚ} {vol : Int} {subs : SubsInstrInfo}
    (h : (r.check info tickPrice dir .close px vol subs).2.2 = some 0) :
    (r.check info tickPrice dir .close px vol subs).2.1 ≠ .opn := by
  obtain ⟨s', q, -, hchosen, hzero, -⟩ := RiskStg.check_zero h
  rw [hchosen, if_pos (Or.inr rfl)]
  exact RiskInstr.parseAutoOffset_close (hzero (Or.inr rfl))

include hv in
/-- **Automatic offsets never over-close**: in every state of a run the pending
closes are between 0 and the positions they close, no order exceeds the position
it closes, no position is negative, and `Close` is never turned into an open. -/
theorem closable_of_run (s : StgOrders) (es : List StgEvent)
    (hs : (autoSys info tickPrice).start s) (ha : (autoSys info tickPrice).Admits s es) :
    let s' := (autoSys info tickPrice).exec s es
    let u := fun h => (s'.risk.accBase.instrAt h).unitVol
    (∀ h, (0 ≤ (u h).posLongYdClsIng ∧ (u h).posLongYdClsIng ≤ (u h).posLongYd) ∧
      (0 ≤ (u h).posLongTdClsIng ∧ (u h).posLongTdClsIng ≤ (u h).posLongTd) ∧
      (0 ≤ (u h).posShortYdClsIng ∧ (u h).posShortYdClsIng ≤ (u h).posShortYd) ∧
      (0 ≤ (u h).posShortTdClsIng ∧ (u h).posShortTdClsIng ≤ (u h).posShortTd) ∧
      0 ≤ (u h).posLong ∧ 0 ≤ (u h).posShort) ∧
    (∀ id x, s'.orders.lookup id = some x →
      Covered x.ord.dir x.ord.off (u x.ord.instrHash) x.remaining) ∧
    ∀ dir px vol subs, (s'.risk.check info tickPrice dir .close px vol subs).2.2 = some 0 →
      (s'.risk.check info tickPrice dir .close px vol subs).2.1 ≠ .opn := by
  have hinv : Inv info ((autoSys info tickPrice).exec s es) :=
    (autoSys info tickPrice).invariant_run (fun s e => inv_next hv s e) s es (inv_start hs) ha
  dsimp only
  generalize (autoSys info tickPrice).exec s es = s' at hinv
  refine ⟨fun h => ?_, fun id x hx => ?_, fun dir px vol subs h => check_close_ne_opn h⟩
  · obtain ⟨h1, h2, h3, h4⟩ := hinv.closable h
    have hn := hinv.nonNeg h
    have hly := hn.posLongYd
    have hlt := hn.posLongTd
    have hsy := hn.posShortYd
    have hst := hn.posShortTd
    exact ⟨⟨hinv.pend_nonneg h .longYdCls, h1⟩, ⟨hinv.pend_nonneg h .longTdCls, h2⟩,
      ⟨hinv.pend_nonneg h .shortYdCls, h3⟩, ⟨hinv.pend_nonneg h .shortTdCls, h4⟩,
      by rw [hn.posLong]; omega, by rw [hn.posShort]; omega⟩
  · exact hinv.covered hx (hinv.known id x hx).2 (le_refl _)

/-- A strategy that may hold five contracts long. -/
def rbFlat : StgOrders where
  risk :=
    { mapRiskInstr := AList.insert 1
        { pUnitVol := some ⟨1, 0⟩, isAllowed := true, allowedOrderSizeThreshold := 10
          intensityCycleOrderCountThreshold := 10, longVolumeThreshold := 5
          netVolumeThreshold := 5 } ∅
      mapRiskPrd := AList.insert 3
        { pUnitVol := some ⟨3, 0⟩, longVolumeThreshold := 5, netVolumeThreshold := 5 } ∅
      riskAcc :=
        { unfilledOrdCntThreshold := 10, amtLongThreshold := 1000, netAmtThreshold := 1000 } }
  orders := ∅

/-- An `Auto` order that opens is filled, and one that closes it is not yet. -/
def rbFlatRun : List StgEvent :=
  [.send 1 .buy .auto 10 3 { baseInfo := TradeBaseInfo.rb1810 },
    .rtn
      { localId := 1, instrHash := 1, dir := .buy, off := .opn, price := 10, vol := 3
        volTraded := 3 }
      { msgType := ods .execution, price := 10, vol := 3 },
    .send 2 .sell .auto 11 2 { baseInfo := TradeBaseInfo.rb1810 }]

theorem closable_rbFlat :
    let s' := (autoSys TradeBaseInfo.rb fun _ => 1).exec rbFlat rbFlatRun
    let u := fun h => (s'.risk.accBase.instrAt h).unitVol
    (∀ h, (0 ≤ (u h).posLongYdClsIng ∧ (u h).posLongYdClsIng ≤ (u h).posLongYd) ∧
      (0 ≤ (u h).posLongTdClsIng ∧ (u h).posLongTdClsIng ≤ (u h).posLongTd) ∧
      (0 ≤ (u h).posShortYdClsIng ∧ (u h).posShortYdClsIng ≤ (u h).posShortYd) ∧
      (0 ≤ (u h).posShortTdClsIng ∧ (u h).posShortTdClsIng ≤ (u h).posShortTd) ∧
      0 ≤ (u h).posLong ∧ 0 ≤ (u h).posShort) ∧
    (∀ id x, s'.orders.lookup id = some x →
      Covered x.ord.dir x.ord.off (u x.ord.instrHash) x.remaining) ∧
    ∀ dir px vol subs, (s'.risk.check TradeBaseInfo.rb (fun _ => 1) dir .close px vol subs).2.2 = some 0 →
      (s'.risk.check TradeBaseInfo.rb (fun _ => 1) dir .close px vol subs).2.1 ≠ .opn := by
  refine closable_of_run TradeBaseInfo.rb_volMultiplesOk rbFlat rbFlatRun ?_ ?_
  · refine ⟨rfl, AccBase.linked_empty, ?_, fun h => ⟨fun l => (by cases l <;> rfl), ?_⟩⟩
    · intro h r hr _
      simp only [rbFlat, UMap.lookup_insert_ite, AList.lookup_empty] at hr
      split at hr
      · rename_i hh
        rw [Option.some.injEq] at hr
        subst hr hh
        rfl
      · cases hr
    · exact ⟨le_refl _, le_refl _, le_refl _, le_refl _, rfl, rfl⟩
  · refine ⟨⟨rfl, rfl, by decide, by decide, by decide⟩,
      ⟨⟨⟨1, .buy, .opn, 10, 3⟩, 0, false⟩, ?_, ⟨⟨rfl, rfl, rfl, rfl, rfl⟩, ⟨[.execution], rfl⟩, ?_, ?_⟩⟩,
      ⟨?_, rfl, by decide, by decide, by decide⟩, trivial⟩
    all_goals decide +kernel

/-- The run has made use of all of it: two contracts are about to be closed. -/
example :
    (((autoSys TradeBaseInfo.rb fun _ => 1).exec rbFlat rbFlatRun).risk.accBase.instrAt 1).unitVol =
      { posLongTd := 3, posLong := 3, posLongTdClsIng := 2, posBuy := 3 } := by
  decide +kernel

end StgOrders

end NatFramework.Risk
