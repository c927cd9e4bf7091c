import Mathlib.Algebra.Order.Group.Defs
import Mathlib.Algebra.Order.Sub.Defs
import NatFramework.Risk.Limits
import NatFramework.Risk.RiskStg
import NatFramework.Td.AccountUtilis

/-!
# Requests and the room the limits leave

A limit compares the sum of what is held and pending and of what is requested
with a threshold; no check looks at the sign of what is requested. Booked with
a volume below 0 or a negative price an order lowers the pending counter it is
added to, and the room of the limits grows. So does an order with which a counter
or a sum leaves the range of `int`.

* `Thresholds.room`, `RiskAcc.room`: what a limit leaves.
* `RequestFits`: with the request pending no counter or sum leaves the range.
* `sound_onNew`: a booked order of a positive volume and a price that is not
  negative takes room.
* `sound_of_requests`: so do all requests of a run, of a strategy or of the
  engine.
-/
namespace NatFramework.Risk

open Lib Account

/-! ## Room -/

/-- What a limit of an instrument or a product leaves for later orders, which are
compared with a sum of `int`s. -/
def Thresholds.room (th : Thresholds) (e : Exposure) (u : UnitVol) : Int :=
  e.limit th - wrap (e.of u)

/-- The amounts the account's limits look at. -/
inductive AmtExposure where
  | long | short | netLong | netShort
  deriving DecidableEq, Repr

/-- The sums as `RiskAcc` forms them: both net amounts add the pending closes of
short positions. -/
def AmtExposure.of (e : AmtExposure) : UnitAmt →+ ℚ where
  toFun u := match e with
    | long => u.amtLong + u.amtLongTdAddIng
    | short => u.amtShort + u.amtShortTdAddIng
    | netLong => u.amtLong - u.amtShort + u.amtLongTdAddIng + u.amtShortYdSubIng + u.amtShortTdSubIng
    | netShort => u.amtShort - u.amtLong + u.amtShortTdAddIng + u.amtShortYdSubIng + u.amtShortTdSubIng
  map_zero' := by cases e <;> simp
  map_add' u w := by cases e <;> simp <;> ring

def RiskAcc.room (r : RiskAcc) (e : AmtExposure) (u : UnitAmt) : ℚ :=
  (match e with
    | .long => r.amtLongThreshold
    | .short => r.amtShortThreshold
    | .netLong | .netShort => r.netAmtThreshold) - e.of u

theorem Exposure.ing_nonneg (e : Exposure) (dir : Dir) (off : Off) {v : Int} (hv : 0 ≤ v) :
    0 ≤ e.of (ingOf dir off v) := by
  unfold ingOf
  rcases Leg.of dir off with _ | l
  · simp
  · cases l <;> cases e <;> simp [Leg.ing, Exposure.of, hv]

theorem AmtExposure.ing_nonneg (e : AmtExposure) (dir : Dir) (off : Off) {x : ℚ} (hx : 0 ≤ x) :
    0 ≤ e.of (amtIngOf dir off x) := by
  unfold amtIngOf
  rcases Leg.of dir off with _ | l
  · simp
  · cases l <;> cases e <;> simp [Leg.amtIng, AmtExposure.of, hx]

/-! ## One order -/

/-- The pending volumes, and the sums the limits look at, are in the range of `int`. -/
def Ints (u : UnitVol) : Prop :=
  ∀ n ∈ [u.posLongTdOpnIng, u.posShortTdOpnIng, u.posLongYdClsIng, u.posLongTdClsIng,
    u.posShortYdClsIng, u.posShortTdClsIng, Exposure.long.of u, Exposure.short.of u,
    Exposure.netLong.of u, Exposure.netShort.of u], InInt n

instance (u : UnitVol) : Decidable (Ints u) := inferInstanceAs (Decidable (∀ n ∈ _, InInt n))

theorem Ints.pendVol {u : UnitVol} (h : Ints u) (l : Leg) : InInt (l.pendVol u) := by
  cases l <;> exact h _ (by simp [Leg.pendVol])

theorem Ints.exposure {u : UnitVol} (h : Ints u) (e : Exposure) : InInt (e.of u) := by
  cases e <;> exact h _ (by simp)

/-- They are with the request pending, at its instrument and its product. -/
def RequestFits (info : TradeBaseInfo) (a : AccBase) (dir : Dir) (off : Off) (vol : Int) (h : Hash) :
    Prop :=
  Ints ((a.instrAt h).unitVol + ingOf dir off vol) ∧
    ∀ i ∈ info.find h, Ints ((a.prdAt i.productHash).unitVol + ingOf dir off vol)

instance (info : TradeBaseInfo) (a : AccBase) (dir : Dir) (off : Off) (vol : Int) (h : Hash) :
    Decidable (RequestFits info a dir off vol h) :=
  inferInstanceAs (Decidable (_ ∧ ∀ i ∈ info.find h, _))

theorem RequestFits.of_covers {info : TradeBaseInfo} {a : AccBase} {dir : Dir} {off : Off} {vol : Int}
    {h : Hash} (hf : RequestFits info a dir off vol h) {lv : Level} (hc : lv.covers info h = true) :
    Ints (lv.unitVol a + ingOf dir off vol) := by
  cases lv with
  | instr h' =>
    obtain rfl : h = h' := by simpa [Level.covers] using hc
    exact hf.1
  | prd k =>
    have hk : (info.find h).map (·.productHash) = some k := by simpa [Level.covers] using hc
    obtain ⟨i, hi, rfl⟩ := Option.map_eq_some_iff.mp hk
    exact hf.2 i hi

/-- No pending volume is negative, and none, and no sum of the limits, out of the
range of `int`. -/
def PendOk (a : AccBase) : Prop :=
  ∀ lv : Level, (∀ l : Leg, 0 ≤ l.pendVol (lv.unitVol a)) ∧ Ints (lv.unitVol a)

/-- From `a` to `a'` no limit has gained room. -/
structure TakesRoom (a a' : AccBase) : Prop where
  vol : ∀ (th : Thresholds) (lv : Level) (e : Exposure),
    th.room e (lv.unitVol a') ≤ th.room e (lv.unitVol a)
  amt : ∀ (r : RiskAcc) (e : AmtExposure), r.room e a'.modAcc.unitAmt ≤ r.room e a.modAcc.unitAmt

theorem SameNumbers.unitVol {a a' : AccBase} (h : SameNumbers a a') (lv : Level) :
    lv.unitVol a' = lv.unitVol a := by
  cases lv with
  | instr k => exact h.vol k
  | prd k => exact h.prdVol k

theorem SameNumbers.pendOk {a a' : AccBase} (h : SameNumbers a a') (hp : PendOk a) : PendOk a' :=
  fun lv => by rw [h.unitVol]; exact hp lv

theorem SameNumbers.requestFits {info : TradeBaseInfo} {a a' : AccBase} (h : SameNumbers a a')
    {dir : Dir} {off : Off} {vol : Int} {k : Hash} (hf : RequestFits info a dir off vol k) :
    RequestFits info a' dir off vol k := by
  unfold RequestFits
  rw [h.vol]
  simp only [h.prdVol]
  exact hf

theorem SameNumbers.takesRoom {a b c : AccBase} (h : SameNumbers a b) (ht : TakesRoom b c) :
    TakesRoom a c where
  vol th lv e := by
    rw [← h.unitVol lv]
    exact ht.vol th lv e
  amt r e := by
    rw [← h.acc]
    exact ht.amt r e

/-- An order of a positive volume and a price that is not negative. -/
theorem sound_onNew {info : TradeBaseInfo} (hv : info.VolMultiplesOk) {a : AccBase}
    (hl : AccBase.Linked info a) (hp : PendOk a) {dir : Dir} {off : Off} {px : ℚ} {vol : Int} {h : Hash}
    (hpx : 0 ≤ px) (hvol : 0 ≤ vol) (hfit : RequestFits info a dir off vol h) :
    AccBase.Linked info (a.onNew info dir off px vol h) ∧ PendOk (a.onNew info dir off px vol h) ∧
      TakesRoom a (a.onNew info dir off px vol h) := by
  have hb : ∀ b : Books, Balanced b (b.onNew dir off px vol) := fun b => Balanced.onNew b dir off px vol
  refine ⟨hl.onInstr hv fun b => (hb b).toKeeps, ?_⟩
  cases hf : info.find h with
  | none =>
    have hsame : a.onNew info dir off px vol h = a := AccBase.onInstr_unknown _ hf
    rw [hsame]
    exact ⟨hp, fun _ _ _ => le_refl _, fun _ _ => le_refl _⟩
  | some i =>
    have hu : ∀ lv : Level, lv.unitVol (a.onNew info dir off px vol h) =
        lv.unitVol a + if lv.covers info h then ingOf dir off vol else 0 := fun lv =>
      lv.unitVol_onInstr hl hf (hv h i hf) hb fun b => Books.onNew_unitVol _ _ _ _ _
    have hacc : (a.onNew info dir off px vol h).modAcc.unitAmt =
        a.modAcc.unitAmt + amtIngOf dir off (px * vol * i.volMultiple) := by
      rw [show a.onNew info dir off px vol h =
        a.onInstr info h fun b => b.onNew dir off px vol from rfl, hl.onInstr_modAcc hf (hv h i hf),
        Books.onNew_eq, ← AccBase.booksAt_volMultiple hl.toWF hf]
      rfl
    have hnew : PendOk (a.onNew info dir off px vol h) := by
      intro lv
      rw [hu]
      split
      · rename_i hc
        refine ⟨fun l => ?_, hfit.of_covers hc⟩
        rw [map_add, Leg.pendVol_ingOf]
        have h0 := (hp lv).1 l
        split <;> omega
      · rw [add_zero]
        exact hp lv
    refine ⟨hnew, fun th lv e => ?_, fun r e => ?_⟩
    · -- neither sum wraps
      have hsum := congrArg e.of (hu lv)
      rw [map_add] at hsum
      rw [Thresholds.room, Thresholds.room, wrap_of_inInt ((hp lv).2.exposure e),
        wrap_of_inInt ((hnew lv).2.exposure e), hsum]
      have h0 := e.ing_nonneg dir off hvol
      split
      · omega
      · rw [map_zero]
        omega
    · simp only [RiskAcc.room, hacc, map_add]
      refine sub_le_sub_left (le_add_of_nonneg_right (e.ing_nonneg dir off ?_)) _
      have hvm : (0 : ℚ) ≤ (i.volMultiple : ℚ) := by exact_mod_cast hv h i hf
      have hvol' : (0 : ℚ) ≤ (vol : ℚ) := by exact_mod_cast hvol
      exact mul_nonneg (mul_nonneg hpx hvol') hvm

/-! ## Requests to a strategy's risk account -/

/-- What `CStrategy::sendOrder` is called with. -/
structure StgRequest where
  dir : Dir
  off : Off
  px : ℚ
  vol : Int
  subs : SubsInstrInfo
  deriving DecidableEq, Repr

namespace RiskStg

variable (info : TradeBaseInfo) (tickPrice : Hash → ℚ)

/-- The order is accepted. -/
def accepts (s : RiskStg) (q : StgRequest) : Prop :=
  (s.check info tickPrice q.dir q.off q.px q.vol q.subs).2.2 = some 0

instance (s : RiskStg) (q : StgRequest) : Decidable (s.accepts info tickPrice q) :=
  inferInstanceAs (Decidable (_ = _))

/-- mirrors strategy/CStrategy.cpp:141-162 -/
def request (s : RiskStg) (q : StgRequest) : RiskStg :=
  let c := s.check info tickPrice q.dir q.off q.px q.vol q.subs
  if c.2.2 = some 0 then
    c.1.onNew info q.dir c.2.1 q.px q.vol q.subs.baseInfo.instrHash q.subs.exchTime
  else c.1

/-- Runs of requests of a positive volume and a price that is not negative, with
which no sum overflows, whatever offset is chosen. -/
def requestSys : Lib.Sys RiskStg StgRequest where
  start s := AccBase.Linked info s.accBase ∧ PendOk s.accBase
  ok s q := 1 ≤ q.vol ∧ 0 ≤ q.px ∧ ∀ off, off = q.off ∨ q.off = .auto ∨ q.off = .close →
    RequestFits info s.accBase q.dir off q.vol q.subs.baseInfo.instrHash
  next := request info tickPrice

variable {info tickPrice} {s : RiskStg}

/-- A request that is not accepted leaves the numbers; one that is books its order. -/
theorem request_cases (hv : info.VolMultiplesOk) (hl : AccBase.Linked info s.accBase)
    (q : StgRequest) :
    ∃ a, AccBase.Linked info a ∧ SameNumbers s.accBase a ∧
      (¬s.accepts info tickPrice q ∧ (s.request info tickPrice q).accBase = a ∨
        s.accepts info tickPrice q ∧ ∃ off, (off = q.off ∨ q.off = .auto ∨ q.off = .close) ∧
          (s.request info tickPrice q).accBase =
            a.onNew info q.dir off q.px q.vol q.subs.baseInfo.instrHash) := by
  have hfst : (s.check info tickPrice q.dir q.off q.px q.vol q.subs).1 = _ :=
    fst_check q.dir q.off q.px q.vol q.subs
  obtain ⟨h1, h2⟩ : _ ∧ SameNumbers _ (s.findOrReg info tickPrice q.subs.baseInfo).1.accBase :=
    sameNumbers_findOrReg hv hl q.subs.baseInfo
  refine ⟨_, h1, h2, ?_⟩
  unfold request accepts
  dsimp only
  split
  · rename_i h0
    obtain ⟨s', r, -, hchosen, -, -⟩ := check_zero h0
    refine Or.inr ⟨h0, _, ?_, by rw [hfst]; rfl⟩
    rw [hchosen]
    split
    · exact Or.inr ‹_›
    · exact Or.inl rfl
  · rename_i h0
    exact Or.inl ⟨h0, by rw [hfst]⟩

end RiskStg

/-! ## Requests to the engine's risk account -/

/-- What an engine asks `RiskTop` about, with the times of the two calls. -/
structure TopRequest where
  dir : Dir
  off : Off
  px : ℚ
  vol : Int
  instrHash : Hash
  orderRef : Int
  nano : Int
  nanoNew : Int
  deriving DecidableEq, Repr

namespace RiskTop

variable {τ : Type} (O : Treap τ) (info : TradeBaseInfo)

/-- The order is accepted. -/
def accepts (s : RiskTop τ) (q : TopRequest) : Prop :=
  (s.check O info q.dir q.off q.px q.vol q.instrHash q.nano).2 = some 0

instance (s : RiskTop τ) (q : TopRequest) : Decidable (s.accepts O info q) :=
  inferInstanceAs (Decidable (_ = _))

/-- An order that is let through is booked. -/
def request (s : RiskTop τ) (q : TopRequest) : RiskTop τ :=
  let c := s.check O info q.dir q.off q.px q.vol q.instrHash q.nano
  if c.2 = some 0 then c.1.onNew O info q.dir q.off q.px q.vol q.instrHash q.orderRef q.nanoNew else c.1

/-- Runs of requests of a positive volume and a price that is not negative, with
which no sum overflows. -/
def requestSys : Lib.Sys (RiskTop τ) TopRequest where
  start s := AccBase.Linked info s.accBase ∧ PendOk s.accBase
  ok s q := 1 ≤ q.vol ∧ 0 ≤ q.px ∧ RequestFits info s.accBase q.dir q.off q.vol q.instrHash
  next := request O info

variable {O info} {s : RiskTop τ}

theorem sameNumbers_check (hv : info.VolMultiplesOk) (hl : AccBase.Linked info s.accBase)
    (q : TopRequest) :
    AccBase.Linked info (s.check O info q.dir q.off q.px q.vol q.instrHash q.nano).1.accBase ∧
      SameNumbers s.accBase (s.check O info q.dir q.off q.px q.vol q.instrHash q.nano).1.accBase := by
  rw [RiskTop.fst_check]
  rcases hi : info.find q.instrHash with _ | i
  · exact ⟨hl, SameNumbers.refl _⟩
  dsimp only
  rw [findOrReg_fst]
  split
  · have hacc : (s.regInstr O info i.instr).1.accBase = _ := Td.accBase_regInstr hv hi
    rw [hacc]
    exact ⟨hl.reg (TradeBaseInfo.nameHash_instr hi) hi, sameNumbers_reg _ _ _ _⟩
  · exact ⟨hl, SameNumbers.refl _⟩

theorem request_cases (hv : info.VolMultiplesOk) (hl : AccBase.Linked info s.accBase)
    (q : TopRequest) :
    ∃ a, AccBase.Linked info a ∧ SameNumbers s.accBase a ∧
      (¬s.accepts O info q ∧ (s.request O info q).accBase = a ∨
        s.accepts O info q ∧ (s.request O info q).accBase =
          a.onNew info q.dir q.off q.px q.vol q.instrHash) := by
  obtain ⟨h1, h2⟩ : _ ∧ SameNumbers _ (s.check O info _ _ _ _ _ _).1.accBase :=
    sameNumbers_check hv hl q
  refine ⟨_, h1, h2, ?_⟩
  unfold request accepts
  dsimp only
  split
  · rename_i h0
    exact Or.inr ⟨h0, rfl⟩
  · rename_i h0
    exact Or.inl ⟨h0, rfl⟩

end RiskTop

/-! ## Runs -/

/-- What an accepted order does to the limits. -/
structure Sound (accepted : Prop) (vol : Int) (a a' : AccBase) : Prop where
  vol : accepted → 1 ≤ vol
  room : TakesRoom a a'

/-- One request, seen from the account. -/
theorem sound_request {info : TradeBaseInfo} (hv : info.VolMultiplesOk) {a0 a1 : AccBase}
    (hp : PendOk a0) {dir : Dir} {px : ℚ} {vol : Int} {h : Hash} {accepted : Prop} (hvol : 1 ≤ vol)
    (hpx : 0 ≤ px)
    (hc : ∃ a, AccBase.Linked info a ∧ SameNumbers a0 a ∧
      (¬accepted ∧ a1 = a ∨ accepted ∧ ∃ off, RequestFits info a0 dir off vol h ∧
        a1 = a.onNew info dir off px vol h)) :
    (AccBase.Linked info a1 ∧ PendOk a1) ∧ Sound accepted vol a0 a1 := by
  obtain ⟨a, hl, hs, ⟨-, rfl⟩ | ⟨-, off, hfit, rfl⟩⟩ := hc
  · exact ⟨⟨hl, hs.pendOk hp⟩, fun _ => hvol, hs.takesRoom ⟨fun _ _ _ => le_refl _, fun _ _ => le_refl _⟩⟩
  · obtain ⟨h1, h2, h3⟩ := sound_onNew hv hl (hs.pendOk hp) hpx (by omega) (hs.requestFits hfit)
    exact ⟨⟨h1, h2⟩, fun _ => hvol, hs.takesRoom h3⟩

/-- **Requests of a positive volume and a price that is not negative, with which
no sum overflows, keep the pending counters meaningful**, at the strategy's and
at the engine's level: no pending volume becomes negative, and no accepted order
gives room to the limits. -/
theorem sound_of_requests {info : TradeBaseInfo} (hv : info.VolMultiplesOk) :
    (∀ (tickPrice : Hash → ℚ) (s : RiskStg) (qs : List StgRequest),
      let S := RiskStg.requestSys info tickPrice
      S.start s → S.Admits s qs → PendOk (S.exec s qs).accBase ∧
        AtEach (fun pre q => Sound ((S.exec s pre).accepts info tickPrice q) q.vol
          (S.exec s pre).accBase (S.next (S.exec s pre) q).accBase) qs) ∧
    ∀ (τ : Type) (O : Treap τ) (s : RiskTop τ) (qs : List TopRequest),
      let S := RiskTop.requestSys O info
      S.start s → S.Admits s qs → PendOk (S.exec s qs).accBase ∧
        AtEach (fun pre q => Sound ((S.exec s pre).accepts O info q) q.vol
          (S.exec s pre).accBase (S.next (S.exec s pre) q).accBase) qs := by
  constructor
  · intro tickPrice s qs S hs ha
    have hone : ∀ s q, S.start s → S.ok s q → S.start (S.next s q) ∧
        Sound (s.accepts info tickPrice q) q.vol s.accBase (S.next s q).accBase := by
      intro s q hs hq
      obtain ⟨a, hl, hsame, hc⟩ := @RiskStg.request_cases info tickPrice s hv hs.1 q
      exact sound_request hv hs.2 hq.1 hq.2.1 ⟨a, hl, hsame, hc.imp id fun ⟨h, off, hoff, heq⟩ =>
        ⟨h, off, hq.2.2 off hoff, heq⟩⟩
    have hstep : ∀ s q, S.start s → S.ok s q → S.start (S.next s q) := fun s q h1 h2 => (hone s q h1 h2).1
    exact ⟨(S.invariant_run hstep s qs hs ha).2,
      S.atEach_run hstep (fun s q h1 h2 => (hone s q h1 h2).2) s qs hs ha⟩
  · intro τ O s qs S hs ha
    have hone : ∀ s q, S.start s → S.ok s q → S.start (S.next s q) ∧
        Sound (s.accepts O info q) q.vol s.accBase (S.next s q).accBase := by
      intro s q hs hq
      obtain ⟨a, hl, hsame, hc⟩ := RiskTop.request_cases (O := O) hv hs.1 q
      exact sound_request hv hs.2 hq.1 hq.2.1 ⟨a, hl, hsame, hc.imp id fun ⟨h, heq⟩ =>
        ⟨h, q.off, hq.2.2, heq⟩⟩
    have hstep : ∀ s q, S.start s → S.ok s q → S.start (S.next s q) := fun s q h1 h2 => (hone s q h1 h2).1
    exact ⟨(S.invariant_run hstep s qs hs ha).2,
      S.atEach_run hstep (fun s q h1 h2 => (hone s q h1 h2).2) s qs hs ha⟩

/-- An account whose limits leave five contracts and 1000 of either side. -/
def rbRecord : RiskInstr where
  pUnitVol := some ⟨1, 0⟩
  isAllowed := true
  allowedOrderSizeThreshold := 5
  intensityCycleOrderCountThreshold := 10
  longVolumeThreshold := 5
  netVolumeThreshold := 5

def rbRiskAcc : RiskAcc where
  unfilledOrdCntThreshold := 10
  amtLongThreshold := 1000
  netAmtThreshold := 1000

def rbRecordPrd : RiskPrd where
  pUnitVol := some ⟨3, 0⟩
  longVolumeThreshold := 5
  netVolumeThreshold := 5

def rbStg : RiskStg where
  mapRiskInstr := AList.insert 1 { toRiskInstr := rbRecord } ∅
  mapRiskPrd := AList.insert 3 rbRecordPrd ∅
  riskAcc := rbRiskAcc

/-- The same with the greatest limits there can be. -/
def rbWideStg : RiskStg where
  mapRiskInstr := AList.insert 1
    { pUnitVol := some ⟨1, 0⟩, isAllowed := true, allowedOrderSizeThreshold := 2147483647
      intensityCycleOrderCountThreshold := 10, longVolumeThreshold := 2147483647
      netVolumeThreshold := 2147483647 } ∅
  mapRiskPrd := AList.insert 3
    { pUnitVol := some ⟨3, 0⟩, longVolumeThreshold := 2147483647
      netVolumeThreshold := 2147483647 } ∅
  riskAcc := { rbRiskAcc with amtLongThreshold := 10 ^ 12, netAmtThreshold := 10 ^ 12 }

/-- The treaps of orders as lists. -/
def rbTreap : Treap (List TreapNode) := listOps TreapNode.orderRef TreapNode.priorityOrder

def rbTop : RiskTop (List TreapNode) where
  mapRiskInstr := AList.insert 1 { toRiskInstr := rbRecord, askTreap := [], bidTreap := [] } ∅
  mapRiskPrd := AList.insert 3 rbRecordPrd ∅
  riskAcc := rbRiskAcc

theorem pendOk_empty : PendOk {} := by
  intro lv
  have h0 : lv.unitVol ({} : AccBase) = 0 := by cases lv <;> rfl
  rw [h0]
  exact ⟨fun l => by rw [map_zero], by decide⟩

def buyStg (vol : Int) : StgRequest := ⟨.buy, .opn, 10, vol, { baseInfo := TradeBaseInfo.rb1810 }⟩

def buyTop (vol : Int) : TopRequest := ⟨.buy, .opn, 10, vol, 1, 7, 0, 0⟩

/-- Both levels accept the two orders, and the third no more. -/
theorem sound_rb :
    (let S := RiskStg.requestSys TradeBaseInfo.rb fun _ => 1
      let qs := [buyStg 3, buyStg 2, buyStg 1]
      PendOk (S.exec rbStg qs).accBase ∧
        AtEach (fun pre q => Sound ((S.exec rbStg pre).accepts TradeBaseInfo.rb (fun _ => 1) q) q.vol
          (S.exec rbStg pre).accBase (S.next (S.exec rbStg pre) q).accBase) qs) ∧
    (let S := RiskTop.requestSys rbTreap TradeBaseInfo.rb
      let qs := [buyTop 3, buyTop 2, buyTop 1]
      PendOk (S.exec rbTop qs).accBase ∧
        AtEach (fun pre q => Sound ((S.exec rbTop pre).accepts rbTreap TradeBaseInfo.rb q) q.vol
          (S.exec rbTop pre).accBase (S.next (S.exec rbTop pre) q).accBase) qs) := by
  have hoff : ∀ {P : Off → Prop}, P .opn → ∀ off, off = .opn ∨ Off.opn = .auto ∨ Off.opn = .close →
      P off := by
    rintro P h off (rfl | h' | h')
    · exact h
    · cases h'
    · cases h'
  constructor
  · refine (sound_of_requests TradeBaseInfo.rb_volMultiplesOk).1 (fun _ => 1) rbStg _
      ⟨AccBase.linked_empty, pendOk_empty⟩
      ⟨⟨by decide, by decide, hoff ?_⟩, ⟨by decide, by decide, hoff ?_⟩,
        ⟨by decide, by decide, hoff ?_⟩, trivial⟩
    all_goals decide +kernel
  · refine (sound_of_requests TradeBaseInfo.rb_volMultiplesOk).2 _ rbTreap rbTop _
      ⟨AccBase.linked_empty, pendOk_empty⟩
      ⟨⟨by decide, by decide, ?_⟩, ⟨by decide, by decide, ?_⟩, ⟨by decide, by decide, ?_⟩, trivial⟩
    all_goals decide +kernel

/-- A request to buy -1 passes all checks of both levels, and 1 too few is
pending. With limits of 2147483647 so do requests to buy this many and one more:
what is pending is no `int`. -/
theorem not_sound_rb :
    (¬∀ (info : TradeBaseInfo) (tickPrice : Hash → ℚ) (s : RiskStg) (qs : List StgRequest),
      info.VolMultiplesOk → (RiskStg.requestSys info tickPrice).start s →
        PendOk ((RiskStg.requestSys info tickPrice).exec s qs).accBase) ∧
    (¬∀ (info : TradeBaseInfo) (τ : Type) (O : Treap τ) (s : RiskTop τ) (qs : List TopRequest),
      info.VolMultiplesOk → (RiskTop.requestSys O info).start s →
        PendOk ((RiskTop.requestSys O info).exec s qs).accBase) ∧
    ¬∀ (info : TradeBaseInfo) (tickPrice : Hash → ℚ) (s : RiskStg) (qs : List StgRequest),
      info.VolMultiplesOk → (RiskStg.requestSys info tickPrice).start s →
        (∀ q ∈ qs, 1 ≤ q.vol ∧ 0 ≤ q.px) →
          PendOk ((RiskStg.requestSys info tickPrice).exec s qs).accBase := by
  refine ⟨fun h => ?_, fun h => ?_, fun h => ?_⟩
  · have hp := (h TradeBaseInfo.rb (fun _ => 1) rbStg [buyStg (-1)] TradeBaseInfo.rb_volMultiplesOk
      ⟨AccBase.linked_empty, pendOk_empty⟩ (.instr 1)).1 .longOpn
    exact absurd hp (by decide +kernel)
  · have hp := (h TradeBaseInfo.rb _ rbTreap rbTop [buyTop (-1)] TradeBaseInfo.rb_volMultiplesOk
      ⟨AccBase.linked_empty, pendOk_empty⟩ (.instr 1)).1 .longOpn
    exact absurd hp (by decide +kernel)
  · have hp := (h TradeBaseInfo.rb (fun _ => 1) rbWideStg [buyStg 2147483647, buyStg 1]
      TradeBaseInfo.rb_volMultiplesOk ⟨AccBase.linked_empty, pendOk_empty⟩ (by decide)
      (.instr 1)).2.pendVol .longOpn
    exact absurd hp (by decide +kernel)

end NatFramework.Risk
