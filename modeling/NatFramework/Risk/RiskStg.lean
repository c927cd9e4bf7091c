import NatFramework.Risk.RiskInstr

/-!
# The strategy's risk account

`risk/RiskInstrStg` and `RiskStg`: the checks of `RiskInstr` behind a check of
the price against the last quote, and the choice of an offset for `Auto` and
`Close`.

* `tickPrice` is the field `tick_price` of the instrument table, which the
  other modules do not read.
* `RiskStg::check` writes the chosen offset to its argument, and may register
  the instrument, so that it returns both beside its answer; there is no answer
  when the process ends at a missing node of the configuration.
* `check_zero`: what an order has passed that is answered 0.
-/
namespace NatFramework.Risk

open Lib Account

/-! ## RiskInstrStg -/

/-- The nodes a strategy's configuration has beside those of the engine's. -/
structure RiskStgConf extends RiskConf where
  /-- `/RiskForOrder/allowed_price_tick` -/
  allowedPriceTick : Setting (ConfNode ℚ) := .missing

/-- mirrors risk/RiskInstrStg.h:6-16 -/
structure RiskInstrStg extends RiskInstr where
  allowedPriceMarginThreshold : ℚ := 0
  deriving DecidableEq, Repr

/-- `DBL_MAX` -/
def dblMax : ℚ := (2 ^ 53 - 1) * 2 ^ 971

namespace RiskInstrStg

/-- The value of `getValue` is negated before it is multiplied by the tick
price: with a tick price of 0 a node without a value is let through.
mirrors risk/RiskInstrStg.cpp:10-39 -/
def init (conf : RiskStgConf) (info : TradeBaseInfo) (tickPrice : Hash → ℚ) (i : InstrumentInfo)
    (ab : AccBase) (r : RiskInstrStg) : RiskInstrStg × Option Bool :=
  match conf.allowedPriceTick with
  | .missing => (r, none)
  | .unreadable => (r, some false)
  | .value j =>
    match getValue j i.product i.instr with
    | .unreadable => (r, some false)
    | v =>
      if v.isValue = false ∧ tickPrice i.instrHash ≠ 0 then (r, some false)
      else
        let margin := match v with
          | .value x => x
          | _ => r.allowedPriceMarginThreshold
        let r := { r with allowedPriceMarginThreshold := margin * tickPrice i.instrHash }
        let (ri, ok) := r.toRiskInstr.init conf.toRiskConf info i ab
        ({ r with toRiskInstr := ri }, ok)

/-- mirrors risk/RiskInstrStg.cpp:48-59 -/
def isPriceCorrect (px ask bid : ℚ) (r : RiskInstrStg) : Bool :=
  if ask ≠ 0 ∧ ask ≠ dblMax ∧ px > ask + r.allowedPriceMarginThreshold then false
  else if bid ≠ 0 ∧ bid ≠ dblMax ∧ px < bid - r.allowedPriceMarginThreshold then false
  else true

/-- mirrors risk/RiskInstrStg.cpp:64-71 -/
def check (ab : AccBase) (dir : Dir) (off : Off) (vol : Int) (px ask bid : ℚ) (nano : Int)
    (r : RiskInstrStg) : Int :=
  if !r.isPriceCorrect px ask bid then -201 else r.toRiskInstr.check ab dir off vol nano

end RiskInstrStg

/-! ## RiskStg -/

/-- The part of `tSubsInstrInfo` the check reads: the subscribed instrument and
its last tick.
mirrors include/ATStructure.h -/
structure SubsInstrInfo where
  baseInfo : InstrumentInfo
  askPx : ℚ := 0
  bidPx : ℚ := 0
  exchTime : Int := 0
  deriving DecidableEq, Repr

/-- mirrors risk/RiskStg.h:60-71 -/
structure RiskStg where
  jConf : RiskStgConf := {}
  mapRiskInstr : UMap Hash RiskInstrStg := ∅
  mapRiskPrd : UMap Hash RiskPrd := ∅
  riskAcc : RiskAcc := {}
  accBase : AccBase := {}

namespace RiskStg

variable (info : TradeBaseInfo) (tickPrice : Hash → ℚ)

/-- mirrors risk/RiskStg.cpp:70-73 -/
def isExistRiskPrd (prdHash : Hash) (s : RiskStg) : Bool := (s.mapRiskPrd.lookup prdHash).isSome

/-- mirrors risk/RiskStg.cpp:75-78 -/
def isExistRiskInstr (instrHash : Hash) (s : RiskStg) : Bool :=
  (s.mapRiskInstr.lookup instrHash).isSome

/-- `map_risk_instr_[instr_hash]` -/
def riskInstrAt (instrHash : Hash) (s : RiskStg) : RiskInstrStg :=
  (s.mapRiskInstr.lookup instrHash).getD {}

/-- `map_risk_prd_[prd_hash]` -/
def riskPrdAt (prdHash : Hash) (s : RiskStg) : RiskPrd := (s.mapRiskPrd.lookup prdHash).getD {}

/-- mirrors risk/RiskStg.cpp:80-93 -/
def regRiskPrd (prdName : String) (s : RiskStg) : RiskStg × Option Bool :=
  let prdHash := info.nameHash prdName
  if s.isExistRiskPrd prdHash then (s, some true)
  else
    let (r, ok) := (s.riskPrdAt prdHash).init s.jConf.toRiskConf info prdName s.accBase
    ({ s with mapRiskPrd := s.mapRiskPrd.insert prdHash r }, ok)

/-- mirrors risk/RiskStg.cpp:95-114 -/
def regRiskInstr (instrName : String) (s : RiskStg) : RiskStg × Option Bool :=
  let instrHash := info.nameHash instrName
  if s.isExistRiskInstr instrHash then (s, some true)
  else
    match info.find instrHash with
    | none => (s, some false)
    | some i =>
      let (r, ok) := (s.riskInstrAt instrHash).init s.jConf info tickPrice i s.accBase
      ({ s with mapRiskInstr := s.mapRiskInstr.insert instrHash r }, ok)

/-- mirrors risk/RiskStg.cpp:32-68 -/
def regInstr (instrName : String) (s : RiskStg) : RiskStg × Option Bool :=
  match s.accBase.regInstr info instrName with
  | (ab, false) => ({ s with accBase := ab }, some false)
  | (ab, true) =>
    let s := { s with accBase := ab }
    let instrHash := info.nameHash instrName
    match info.find instrHash with
    | none => (s, some false)
    | some i =>
      match (if s.isExistRiskPrd i.productHash then (s, some true)
        else s.regRiskPrd info i.product) with
      | (s, some true) =>
        if s.isExistRiskInstr instrHash then (s, some true)
        else s.regRiskInstr info tickPrice instrName
      | (s, ok) => (s, ok)

/-- The `while` loop of `check`, which a successful `regInstr` ends: the record,
or what `check` answers without it.
mirrors risk/RiskStg.cpp:121-129 -/
def findOrReg (i : InstrumentInfo) (s : RiskStg) : RiskStg × Except (Option Int) RiskInstrStg :=
  match s.mapRiskInstr.lookup i.instrHash with
  | some r => (s, .ok r)
  | none =>
    match s.regInstr info tickPrice i.instr with
    | (s, none) => (s, .error none)
    | (s, some false) => (s, .error (some (-403)))
    | (s, some true) =>
      match s.mapRiskInstr.lookup i.instrHash with
      | some r => (s, .ok r)
      | none => (s, .error none)

/-- Behind the choice of the offset.
mirrors risk/RiskStg.cpp:142-162 -/
def checkOff (dir : Dir) (off : Off) (px : ℚ) (vol : Int) (subs : SubsInstrInfo) (r : RiskInstrStg)
    (s : RiskStg) : Int :=
  let ret := r.check s.accBase dir off vol px subs.askPx subs.bidPx subs.exchTime
  if ret ≠ 0 then ret
  else
    let ret := (s.riskPrdAt subs.baseInfo.productHash).check s.accBase dir off vol
    if ret ≠ 0 then ret
    else s.riskAcc.check s.accBase.modAcc dir off px vol subs.baseInfo.volMultiple

/-- mirrors risk/RiskStg.cpp:116-165 -/
def check (dir : Dir) (off : Off) (px : ℚ) (vol : Int) (subs : SubsInstrInfo) (s : RiskStg) :
    RiskStg × Off × Option Int :=
  match s.findOrReg info tickPrice subs.baseInfo with
  | (s, .error ret) => (s, off, ret)
  | (s, .ok riskInstrStg) =>
    if off = .auto ∨ off = .close then
      let chosen := riskInstrStg.parseAutoOffset s.accBase dir off vol
      if chosen.2 ≠ 0 then (s, chosen.1, some chosen.2)
      else (s, chosen.1, some (s.checkOff dir chosen.1 px vol subs riskInstrStg))
    else (s, off, some (s.checkOff dir off px vol subs riskInstrStg))

/-- mirrors risk/RiskStg.cpp:172-176 -/
def onNew (dir : Dir) (off : Off) (px : ℚ) (vol : Int) (instrHash : Hash) (nano : Int)
    (s : RiskStg) : RiskStg :=
  let s := { s with accBase := s.accBase.onNew info dir off px vol instrHash }
  let r := s.riskInstrAt instrHash
  { s with
    mapRiskInstr :=
      s.mapRiskInstr.insert instrHash { r with toRiskInstr := r.toRiskInstr.onNew nano } }

/-- mirrors risk/RiskStg.cpp:178-181 -/
def onRtn (t : OrderTrack) (m : RtnMsg) (s : RiskStg) : RiskStg :=
  { s with accBase := s.accBase.onRtn info t m }

/-- mirrors risk/RiskStg.cpp:167-170 -/
def onOrderTrack (t : OrderTrack) (s : RiskStg) : RiskStg :=
  { s with accBase := s.accBase.onOrderTrack info t }

/-- mirrors risk/RiskStg.cpp:183-186 -/
def onTickPx (instrHash : Hash) (tickPx : ℚ) (s : RiskStg) : RiskStg :=
  { s with accBase := s.accBase.onTickPx info instrHash tickPx }

/-- `*p_unit_vol` of an instrument's record; `stale` is what is read through a
pointer that designates no node. -/
def instrVol (stale : Option (Ptr Hash) → UnitVol) (ab : AccBase) (p : Option (Ptr Hash)) : UnitVol :=
  ((p.bind ab.mapInstr.deref).map (·.unitVol)).getD (stale p)

/-- `*p_unit_vol` of a product's record. -/
def prdVol (stale : Option (Ptr Hash) → UnitVol) (ab : AccBase) (p : Option (Ptr Hash)) : UnitVol :=
  ((p.bind ab.mapPrd.deref).map (·.unitVol)).getD (stale p)

/-- The account erases its nodes first; the volumes are read after that.
mirrors risk/RiskStg.cpp:188-219 -/
def onSwitchDay (stale : Option (Ptr Hash) → UnitVol) (s : RiskStg) : RiskStg :=
  let ab := s.accBase.onSwitchDay
  { s with
    accBase := ab
    mapRiskInstr := s.mapRiskInstr.sweep fun _ r =>
      let u := instrVol stale ab r.pUnitVol
      if u.posLong = 0 ∧ u.posShort = 0 then none else some r
    mapRiskPrd := s.mapRiskPrd.sweep fun _ r =>
      let u := prdVol stale ab r.pUnitVol
      if u.posLong = 0 ∧ u.posShort = 0 then none else some r }

end RiskStg

/-! ## What registration leaves as it is -/

/-- No number of the account has changed, and no node has moved. -/
structure SameNumbers (a a' : AccBase) : Prop where
  vol : ∀ h, (a'.instrAt h).unitVol = (a.instrAt h).unitVol
  prdVol : ∀ k, (a'.prdAt k).unitVol = (a.prdAt k).unitVol
  acc : a'.modAcc = a.modAcc
  addr : ∀ h, a'.mapInstr.addr h = a.mapInstr.addr h

theorem SameNumbers.refl (a : AccBase) : SameNumbers a a :=
  ⟨fun _ => rfl, fun _ => rfl, rfl, fun _ => rfl⟩

theorem sameNumbers_reg (a : AccBase) (name : String) (h : Hash) (i : InstrumentInfo) :
    SameNumbers a (a.reg name h i) where
  vol h' := by
    unfold AccBase.instrAt
    rw [AccBase.reg_find]
    split
    · rename_i hh
      subst hh
      cases a.mapInstr.find h' <;> rfl
    · rfl
  prdVol k := by
    unfold AccBase.prdAt
    rw [AccBase.reg_mapPrd, AccBase.regPrd_find]
    split
    · cases a.mapPrd.find k <;> rfl
    · rfl
  acc := AccBase.reg_modAcc name h i a
  addr h' := by simp [NodeMap.addr]

variable {info : TradeBaseInfo}

theorem sameNumbers_regInstr (hv : info.VolMultiplesOk) {a : AccBase}
    (hl : AccBase.Linked info a) (name : String) :
    AccBase.Linked info (a.regInstr info name).1 ∧ SameNumbers a (a.regInstr info name).1 := by
  cases hf : info.find (info.nameHash name) with
  | none =>
    have hsame : a.regInstr info name = (a, false) := by simp [AccBase.regInstr, hf]
    rw [hsame]
    exact ⟨hl, SameNumbers.refl a⟩
  | some i =>
    rw [AccBase.regInstr_eq rfl hf (hv _ i hf)]
    exact ⟨hl.reg rfl hf, sameNumbers_reg a name _ i⟩

theorem RiskInstr.pUnitVol_init (conf : RiskConf) (i : InstrumentInfo) (ab : AccBase) (r : RiskInstr) :
    (r.init conf info i ab).1.pUnitVol = some (ab.mapInstr.addr i.instrHash) := by
  unfold RiskInstr.init
  dsimp only
  split
  · rfl
  · rfl
  split_ifs <;> (repeat' split) <;> rfl

namespace RiskStg

variable {tickPrice : Hash → ℚ} {s : RiskStg}

/-- The records that let anything through look at their instrument's volumes. -/
def Points (s : RiskStg) : Prop :=
  ∀ h r, s.mapRiskInstr.lookup h = some r → r.isAllowed = true →
    r.pUnitVol = some (s.accBase.mapInstr.addr h)

theorem points_init (conf : RiskStgConf) (i : InstrumentInfo) (ab : AccBase) (r : RiskInstrStg)
    (hr : r.isAllowed = false) (ha : (r.init conf info tickPrice i ab).1.isAllowed = true) :
    (r.init conf info tickPrice i ab).1.pUnitVol = some (ab.mapInstr.addr i.instrHash) := by
  unfold RiskInstrStg.init at ha ⊢
  split at ha
  · simp [hr] at ha
  · simp [hr] at ha
  · dsimp only at ha ⊢
    split at ha
    · simp [hr] at ha
    · split at ha
      · simp [hr] at ha
      · rename_i hn
        rw [if_neg hn]
        exact RiskInstr.pUnitVol_init _ _ _ _

theorem Points.of_same {a : AccBase} (hp : s.Points) (hs : SameNumbers s.accBase a) :
    Points { s with accBase := a } := by
  intro h r hr ha
  dsimp only
  rw [hs.addr]
  exact hp h r hr ha

theorem accBase_regRiskInstr (name : String) :
    (s.regRiskInstr info tickPrice name).1.accBase = s.accBase := by
  unfold regRiskInstr
  dsimp only
  split
  · rfl
  · split <;> rfl

theorem Points.regRiskInstr (hp : s.Points) (name : String) :
    (s.regRiskInstr info tickPrice name).1.Points := by
  unfold RiskStg.regRiskInstr
  dsimp only
  split
  · exact hp
  · rename_i hx
    split
    · exact hp
    · rename_i i hi
      intro h r hr ha
      have hnone : s.mapRiskInstr.lookup (info.nameHash name) = none := by
        simpa [isExistRiskInstr] using hx
      dsimp only at hr ⊢
      rw [UMap.lookup_insert_ite] at hr
      split at hr
      · rename_i hh
        rw [Option.some.injEq] at hr
        subst hr
        have hfresh : (s.riskInstrAt (info.nameHash name)).isAllowed = false := by
          rw [riskInstrAt, hnone]
          rfl
        rw [points_init _ _ _ _ hfresh ha, TradeBaseInfo.instrHash_eq hi, hh]
      · exact hp h r hr ha

theorem accBase_regRiskPrd (name : String) : (s.regRiskPrd info name).1.accBase = s.accBase := by
  unfold regRiskPrd
  dsimp only
  split <;> rfl

theorem Points.regRiskPrd (hp : s.Points) (name : String) : (s.regRiskPrd info name).1.Points := by
  unfold RiskStg.regRiskPrd
  dsimp only
  split
  · exact hp
  · exact hp

/-- What both records' steps leave: the account's own registration decides. -/
theorem regInstr_records {P : RiskStg → Prop} (name : String)
    (h0 : P { s with accBase := (s.accBase.regInstr info name).1 })
    (hprd : ∀ (t : RiskStg) n, P t → P (t.regRiskPrd info n).1)
    (hinstr : ∀ (t : RiskStg) n, P t → P (t.regRiskInstr info tickPrice n).1) :
    P (s.regInstr info tickPrice name).1 := by
  unfold regInstr
  rcases hab : s.accBase.regInstr info name with ⟨ab, _ | _⟩ <;> rw [hab] at h0
  · exact h0
  dsimp only
  split
  · exact h0
  rename_i i hi
  have hstep : ∀ q : RiskStg × Option Bool,
      q = (if isExistRiskPrd i.productHash { s with accBase := ab } then
        ({ s with accBase := ab }, some true)
        else RiskStg.regRiskPrd info i.product { s with accBase := ab }) → P q.1 := by
    rintro q rfl
    split
    · exact h0
    · exact hprd _ _ h0
  split <;> rename_i hx
  · split
    · exact hstep _ hx.symm
    · exact hinstr _ _ (hstep _ hx.symm)
  · exact hstep _ hx.symm

theorem accBase_regInstr (name : String) :
    (s.regInstr info tickPrice name).1.accBase = (s.accBase.regInstr info name).1 :=
  @regInstr_records info tickPrice s (fun t => t.accBase = (s.accBase.regInstr info name).1) name rfl
    (fun _ n h => (accBase_regRiskPrd n).trans h) fun _ n h => (accBase_regRiskInstr n).trans h

theorem Points.regInstr (hp : s.Points) (name : String)
    (hs : SameNumbers s.accBase (s.accBase.regInstr info name).1) :
    (s.regInstr info tickPrice name).1.Points :=
  regInstr_records name (hp.of_same hs) (fun _ n h => h.regRiskPrd n) fun _ n h => h.regRiskInstr n

/-- A registration on demand leaves what a registration leaves. -/
theorem findOrReg_fst (i : InstrumentInfo) :
    (s.findOrReg info tickPrice i).1 =
      if s.mapRiskInstr.lookup i.instrHash = none then (s.regInstr info tickPrice i.instr).1 else s := by
  unfold findOrReg
  split <;> rename_i hl <;> rw [hl]
  · rfl
  · rw [if_pos rfl]
    split <;> rename_i hx <;> rw [hx]
    split <;> rfl

/-- Registration on demand leaves the numbers of the account. -/
theorem sameNumbers_findOrReg (hv : info.VolMultiplesOk) (hl : AccBase.Linked info s.accBase)
    (i : InstrumentInfo) :
    AccBase.Linked info (s.findOrReg info tickPrice i).1.accBase ∧
      SameNumbers s.accBase (s.findOrReg info tickPrice i).1.accBase := by
  have hr := sameNumbers_regInstr hv hl i.instr
  have hreg : (s.regInstr info tickPrice i.instr).1.accBase = _ := accBase_regInstr i.instr
  rw [← hreg] at hr
  rw [findOrReg_fst]
  split
  · exact hr
  · exact ⟨hl, SameNumbers.refl _⟩

theorem Points.findOrReg (hp : s.Points) (hv : info.VolMultiplesOk)
    (hl : AccBase.Linked info s.accBase) (i : InstrumentInfo) :
    (s.findOrReg info tickPrice i).1.Points := by
  rw [findOrReg_fst]
  split
  · exact hp.regInstr i.instr (sameNumbers_regInstr hv hl i.instr).2
  · exact hp

theorem findOrReg_ok {i : InstrumentInfo} {s' : RiskStg} {r : RiskInstrStg}
    (hr : s.findOrReg info tickPrice i = (s', .ok r)) :
    s'.mapRiskInstr.lookup i.instrHash = some r := by
  unfold findOrReg at hr
  split at hr
  · rename_i hx
    simp only [Prod.mk.injEq, Except.ok.injEq] at hr
    rw [← hr.1, ← hr.2, hx]
  · split at hr
    · cases hr
    · cases hr
    · split at hr <;> rename_i hx
      · simp only [Prod.mk.injEq, Except.ok.injEq] at hr
        rw [← hr.1, ← hr.2, hx]
      · cases hr

theorem fst_check (dir : Dir) (off : Off) (px : ℚ) (vol : Int) (subs : SubsInstrInfo) :
    (s.check info tickPrice dir off px vol subs).1 =
      (s.findOrReg info tickPrice subs.baseInfo).1 := by
  unfold check
  split
  · rename_i hx
    rw [hx]
  · rename_i hx
    rw [hx]
    dsimp only
    split
    · split <;> rfl
    · rfl

/-- What an order that is answered 0 has passed. -/
theorem check_zero {dir : Dir} {off : Off} {px : ℚ} {vol : Int} {subs : SubsInstrInfo}
    (h : (s.check info tickPrice dir off px vol subs).2.2 = some 0) :
    ∃ s' r, s.findOrReg info tickPrice subs.baseInfo = (s', .ok r) ∧
      (s.check info tickPrice dir off px vol subs).2.1 =
        (if off = .auto ∨ off = .close then (r.parseAutoOffset s'.accBase dir off vol).1 else off) ∧
      ((off = .auto ∨ off = .close) → (r.parseAutoOffset s'.accBase dir off vol).2 = 0) ∧
      r.isAllowed = true := by
  have hallowed : ∀ (s' : RiskStg) (r : RiskInstrStg) (o : Off),
      s'.checkOff dir o px vol subs r = 0 → r.isAllowed = true := by
    intro s' r o h0
    unfold checkOff RiskInstrStg.check RiskInstr.check at h0
    by_contra hn
    rw [Bool.not_eq_true] at hn
    split at h0 <;> simp_all
  -- a registration that fails is not answered 0
  have herr : ∀ s' ret, s.findOrReg info tickPrice subs.baseInfo = (s', .error ret) → ret ≠ some 0 := by
    rintro s' ret hf rfl
    unfold findOrReg at hf
    split at hf
    · cases hf
    · split at hf
      · cases hf
      · simp at hf
      · split at hf <;> cases hf
  unfold check at h ⊢
  rcases hf : s.findOrReg info tickPrice subs.baseInfo with ⟨s', ret | r⟩ <;> rw [hf] at h
  · exact absurd h (herr s' ret hf)
  dsimp only at h ⊢
  split at h
  · rename_i hoff
    rw [if_pos hoff]
    split at h
    · rename_i hne
      exact absurd (Option.some.inj h) hne
    · rename_i hz
      rw [if_neg hz]
      exact ⟨s', r, rfl, (if_pos hoff).symm, fun _ => not_not.mp hz, hallowed s' r _ (Option.some.inj h)⟩
  · rename_i hoff
    rw [if_neg hoff]
    exact ⟨s', r, rfl, (if_neg hoff).symm, fun ho => absurd ho hoff, hallowed s' r _ (Option.some.inj h)⟩

end RiskStg

end NatFramework.Risk
