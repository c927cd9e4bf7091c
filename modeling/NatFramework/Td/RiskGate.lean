import NatFramework.Risk.SelfTrade
import NatFramework.Td.Ctp

/-!
# The risk gate of the engine

An order reaches the front when `RiskTop::check` answers 0. Two answers of 0 are
no passed check: the one for a hash without an instrument (`return false`), and
the one given on a record that a failed registration has left in its map, where
the next order finds it and takes it for registered.

* `Initialised`: the settings of a record are those of a successful `init`.
* `failClosed_iff`, `riskGate_iff`: when an answer of 0, and a call of
  `ReqOrderInsert`, mean that every layer has let the order through.
* `prd_of_reachable`: `check` never reads a product record that is not there.
-/
namespace NatFramework.Risk

open Lib Account

/-! ## Initialised records -/

/-- What `init` reads, without the counters `onNew` moves. -/
def RiskInstr.settings (r : RiskInstr) : RiskInstr :=
  { r with intensityCycleOrderCount := 0, intensityCycleTimeRecord := 0 }

/-- The settings are those of a successful `init`. -/
def RiskInstr.Initialised (conf : RiskConf) (info : TradeBaseInfo) (i : InstrumentInfo)
    (r : RiskInstr) : Prop :=
  ∃ ab ri, ({} : RiskInstr).init conf info i ab = (ri, some true) ∧ r.settings = ri.settings

def RiskPrd.Initialised (conf : RiskConf) (info : TradeBaseInfo) (prdName : String)
    (r : RiskPrd) : Prop :=
  ∃ ab, ({} : RiskPrd).init conf info prdName ab = (r, some true)

theorem RiskPrd.init_of_prdNetVolume {conf : RiskConf} {prdName : String}
    (h : (readValue conf.prdNetVolume prdName "").isValue = false) (info : TradeBaseInfo)
    (ab : AccBase) (r : RiskPrd) : (r.init conf info prdName ab).2 ≠ some true := by
  unfold init
  dsimp only
  split
  · simp
  · simp
  split
  · simp
  · simp
  split
  · simp
  · simp
  · rename_i hv
    rw [hv] at h
    cases h

namespace RiskTop

variable {τ : Type} (O : Treap τ) (info : TradeBaseInfo)

/-- What holds of an order that has passed: the state has initialised records of
the instrument and its product, and no layer refuses the order on them. -/
structure Passed (i : InstrumentInfo) (dir : Dir) (off : Off) (px : ℚ) (vol nano : Int)
    (s : RiskTop τ) : Prop where
  definite : off ≠ .auto ∧ off ≠ .close
  instr : ∃ r, s.mapRiskInstr.lookup i.instrHash = some r ∧
    r.toRiskInstr.Initialised s.jConf info i ∧ r.check O s.accBase dir off px vol nano = 0
  prd : ∃ p, s.mapRiskPrd.lookup i.productHash = some p ∧
    p.Initialised s.jConf info i.product ∧ p.check s.accBase dir off vol = 0
  acc : s.riskAcc.check s.accBase.modAcc dir off px vol i.volMultiple = 0

/-- A product whose net limit has no value has no initialised record. -/
theorem not_passed_of_prdNetVolume {O : Treap τ} {info : TradeBaseInfo} {i : InstrumentInfo}
    {dir : Dir} {off : Off} {px : ℚ} {vol nano : Int} {s : RiskTop τ}
    (h : (readValue s.jConf.prdNetVolume i.product "").isValue = false) :
    ¬s.Passed O info i dir off px vol nano := by
  intro hp
  obtain ⟨p, -, ⟨ab, hinit⟩, -⟩ := hp.prd
  have hfalse := RiskPrd.init_of_prdNetVolume h info ab {}
  rw [hinit] at hfalse
  exact hfalse rfl

/-- An answer of 0 means that the instrument is known and the order has passed. -/
def FailClosed (dir : Dir) (off : Off) (px : ℚ) (vol : Int) (h : Hash) (nano : Int)
    (s : RiskTop τ) : Prop :=
  (s.check O info dir off px vol h nano).2 = some 0 →
    ∃ i, info.find h = some i ∧
      (s.check O info dir off px vol h nano).1.Passed O info i dir off px vol nano

/-! ## When the answer is to be trusted -/

/-- No failed registration has left a record of the instrument or its product. -/
structure Clean (i : InstrumentInfo) (s : RiskTop τ) : Prop where
  instr : ∀ r, s.mapRiskInstr.lookup i.instrHash = some r →
    r.toRiskInstr.Initialised s.jConf info i ∧ (s.mapRiskPrd.lookup i.productHash).isSome
  prd : ∀ p, s.mapRiskPrd.lookup i.productHash = some p → p.Initialised s.jConf info i.product

/-- The account and the instrument record the layers are asked with: those that
are there, or those a registration makes; `false` when there are none, because
the registration fails or does not return. -/
def consulted (i : InstrumentInfo) (s : RiskTop τ) : AccBase × RiskInstrTop τ × Bool :=
  match s.mapRiskInstr.lookup i.instrHash with
  | some r => (s.accBase, r, true)
  | none =>
    let (ab, ok) := s.accBase.regInstr info i.instr
    let (ri, ok') := (RiskInstrTop.fresh O).toRiskInstr.init s.jConf info i ab
    (ab, { RiskInstrTop.fresh O with toRiskInstr := ri }, ok && ok' == some true)

/-- Some layer refuses the order, whatever the records come from. -/
def Refused (i : InstrumentInfo) (dir : Dir) (off : Off) (px : ℚ) (vol nano : Int)
    (s : RiskTop τ) : Prop :=
  (off = .auto ∨ off = .close) ∨ (s.consulted O info i).2.2 = false ∨
    (s.consulted O info i).2.1.check O (s.consulted O info i).1 dir off px vol nano ≠ 0 ∨
    (s.riskPrdAt i.productHash).check (s.consulted O info i).1 dir off vol ≠ 0 ∨
    s.riskAcc.check (s.consulted O info i).1.modAcc dir off px vol i.volMultiple ≠ 0

variable {O info} {s : RiskTop τ} {h : Hash} {i : InstrumentInfo}

/-! ## Registration -/

theorem regRiskPrd_of_present (hp : info.nameHash i.product = i.productHash)
    (hx : s.isExistRiskPrd i.productHash = true) : s.regRiskPrd info i.product = (s, some true) := by
  unfold regRiskPrd
  rw [hp]
  dsimp only
  rw [if_pos hx]

/-- The product's step of a registration: a record that is there is taken as it
is, a new one must be initialised. -/
theorem regRiskPrd_true (hp : info.nameHash i.product = i.productHash) {s' : RiskTop τ}
    (hr : s.regRiskPrd info i.product = (s', some true)) :
    ∃ m, s' = { s with mapRiskPrd := m } ∧ ∃ p, m.lookup i.productHash = some p ∧
      (s.mapRiskPrd.lookup i.productHash = some p ∨ s.mapRiskPrd.lookup i.productHash = none ∧
        ({} : RiskPrd).init s.jConf info i.product s.accBase = (p, some true)) := by
  unfold regRiskPrd at hr
  rw [hp] at hr
  dsimp only at hr
  split at hr
  · rename_i hx
    cases hr
    obtain ⟨p, hpl⟩ := Option.isSome_iff_exists.mp hx
    exact ⟨_, rfl, p, hpl, Or.inl hpl⟩
  · rename_i hx
    have hnone : s.mapRiskPrd.lookup i.productHash = none := by
      simpa [isExistRiskPrd] using hx
    simp only [riskPrdAt, hnone, Option.getD_none, Prod.mk.injEq] at hr
    exact ⟨_, hr.1.symm, _, AList.lookup_insert _, Or.inr ⟨hnone, Prod.ext rfl hr.2⟩⟩

/-- The instrument's step: a new record is initialised and kept in any case. -/
theorem regRiskInstr_of_absent (hi : info.find h = some i) (hn : s.mapRiskInstr.lookup h = none) :
    s.regRiskInstr O info i.instr =
      ({ s with
          mapRiskInstr := s.mapRiskInstr.insert h { RiskInstrTop.fresh O with
            toRiskInstr := ((RiskInstrTop.fresh O).toRiskInstr.init s.jConf info i s.accBase).1 } },
        ((RiskInstrTop.fresh O).toRiskInstr.init s.jConf info i s.accBase).2) := by
  unfold regRiskInstr
  rw [TradeBaseInfo.nameHash_instr hi]
  simp only [isExistRiskInstr, hn, Option.isSome_none, Bool.false_eq_true, if_false, hi,
    riskInstrAt, Option.getD_none]

theorem regRiskInstr_of_present (hi : info.find h = some i) (hx : s.isExistRiskInstr h = true) :
    s.regRiskInstr O info i.instr = (s, some true) := by
  unfold regRiskInstr
  rw [TradeBaseInfo.nameHash_instr hi]
  dsimp only
  rw [if_pos hx]

/-- `regInstr` in its three steps, each of which looks for its record first. -/
theorem regInstr_eq {name : String} (hn : info.nameHash name = h) (hi : info.find h = some i) :
    s.regInstr O info name =
      match s.accBase.regInstr info name with
      | (ab, false) => ({ s with accBase := ab }, some false)
      | (ab, true) =>
        match RiskTop.regRiskPrd info i.product { s with accBase := ab } with
        | (s, some true) => s.regRiskInstr O info name
        | (s, ok) => (s, ok) := by
  have hp : info.nameHash i.product = i.productHash := TradeBaseInfo.nameHash_product hi
  unfold regInstr
  rcases hab : s.accBase.regInstr info name with ⟨ab, _ | _⟩
  · rfl
  simp only [hn, hi]
  have hprd : (if isExistRiskPrd i.productHash { s with accBase := ab } then
      (({ s with accBase := ab } : RiskTop τ), some true)
      else regRiskPrd info i.product { s with accBase := ab }) =
      regRiskPrd info i.product { s with accBase := ab } := by
    split
    · rename_i hx
      rw [regRiskPrd_of_present hp hx]
    · rfl
  rw [hprd]
  rcases hs : regRiskPrd info i.product { s with accBase := ab } with ⟨s1, _ | _ | _⟩
  · rfl
  · rfl
  dsimp only
  split
  · rename_i hx
    unfold regRiskInstr
    rw [hn]
    dsimp only
    rw [if_pos hx]
  · rfl

/-! ## The answer of `check` -/

/-- The layers are asked in the state that `findOrReg` leaves. -/
theorem check_of_found (hi : info.find h = some i) {s' : RiskTop τ} {r : RiskInstrTop τ}
    (hf : s.findOrReg O info i = (s', .ok r)) (dir : Dir) (off : Off) (px : ℚ) (vol nano : Int) :
    (s.check O info dir off px vol h nano).1 = s' ∧
      ((s.check O info dir off px vol h nano).2 = some 0 ↔ (off ≠ .auto ∧ off ≠ .close) ∧
        r.check O s'.accBase dir off px vol nano = 0 ∧
        (s'.riskPrdAt i.productHash).check s'.accBase dir off vol = 0 ∧
        s'.riskAcc.check s'.accBase.modAcc dir off px vol i.volMultiple = 0) := by
  unfold check
  rw [hi]
  simp only [hf]
  split
  · rename_i hoff
    refine ⟨rfl, iff_of_false (show ¬some (-405 : Int) = some 0 by decide) ?_⟩
    rintro ⟨⟨h1, h2⟩, -⟩
    exact hoff.elim h1 h2
  rename_i hoff
  have hdef : off ≠ .auto ∧ off ≠ .close := by simpa using hoff
  split
  · rename_i hr
    exact ⟨rfl, iff_of_false (fun h0 => hr (Option.some.inj h0)) fun hall => hr hall.2.1⟩
  rename_i hr
  split
  · rename_i hp
    exact ⟨rfl, iff_of_false (fun h0 => hp (Option.some.inj h0)) fun hall => hp hall.2.2.1⟩
  rename_i hp
  exact ⟨rfl, fun h0 => ⟨hdef, not_not.mp hr, not_not.mp hp, Option.some.inj h0⟩,
    fun hall => congrArg some hall.2.2.2⟩

theorem check_of_notFound (hi : info.find h = some i) {s' : RiskTop τ} {ret : Option Int}
    (hf : s.findOrReg O info i = (s', .error ret)) (dir : Dir) (off : Off) (px : ℚ) (vol nano : Int) :
    (s.check O info dir off px vol h nano).2 = ret := by
  unfold check
  rw [hi]
  simp only [hf]

theorem findOrReg_of_present {r : RiskInstrTop τ} (hl : s.mapRiskInstr.lookup i.instrHash = some r) :
    s.findOrReg O info i = (s, .ok r) := by
  unfold findOrReg
  rw [hl]

theorem consulted_of_present {r : RiskInstrTop τ} (hl : s.mapRiskInstr.lookup i.instrHash = some r) :
    s.consulted O info i = (s.accBase, r, true) := by
  unfold consulted
  rw [hl]

/-- What a successful registration on demand has left in `s'`: an initialised
record of the instrument, and one of the product, new or found. -/
structure Registered (O : Treap τ) (info : TradeBaseInfo) (i : InstrumentInfo) (s s' : RiskTop τ)
    (r : RiskInstrTop τ) : Prop where
  consulted : s.consulted O info i = (s'.accBase, r, true)
  instr : s'.mapRiskInstr.lookup i.instrHash = some r
  conf : s'.jConf = s.jConf
  acc : s'.riskAcc = s.riskAcc
  init : r.toRiskInstr.Initialised s.jConf info i
  prd : ∃ p, s'.mapRiskPrd.lookup i.productHash = some p ∧
    (s.mapRiskPrd.lookup i.productHash = some p ∨
      s.mapRiskPrd.lookup i.productHash = none ∧ p.Initialised s.jConf info i.product)

theorem Registered.prd_of_present {s' : RiskTop τ} {r : RiskInstrTop τ} {p : RiskPrd}
    (hg : Registered O info i s s' r) (hp : s.mapRiskPrd.lookup i.productHash = some p) :
    s'.mapRiskPrd.lookup i.productHash = some p := by
  obtain ⟨q, hq, hold | ⟨hnone, -⟩⟩ := hg.prd
  · rw [hq, ← hold, hp]
  · rw [hp] at hnone
    cases hnone

theorem registered_of_absent (hi : info.find h = some i)
    (hn : s.mapRiskInstr.lookup i.instrHash = none) {s' : RiskTop τ} {r : RiskInstrTop τ}
    (hf : s.findOrReg O info i = (s', .ok r)) : Registered O info i s s' r := by
  have hh : i.instrHash = h := TradeBaseInfo.instrHash_eq hi
  have hr := findOrReg_ok hf
  have hn' := hn
  have hs' := congrArg Prod.fst hf
  rw [findOrReg_fst, if_pos hn] at hs'
  have htrue : (s.regInstr O info i.instr).2 = some true := by
    unfold findOrReg at hf
    rw [hn] at hf
    dsimp only at hf
    split at hf
    · cases hf
    · cases hf
    · rename_i hx
      rw [hx]
  rw [hh] at hn
  rw [RiskTop.regInstr_eq (TradeBaseInfo.nameHash_instr hi) hi] at hs' htrue
  rcases hab : s.accBase.regInstr info i.instr with ⟨ab, _ | _⟩ <;> rw [hab] at hs' htrue
  · cases htrue
  rcases hs : regRiskPrd info i.product { s with accBase := ab } with ⟨s1, _ | _ | _⟩ <;>
    simp only [hs] at hs' htrue
  · cases htrue
  · cases htrue
  obtain ⟨m, rfl, p, hp, hpo⟩ := regRiskPrd_true (TradeBaseInfo.nameHash_product hi) hs
  rw [regRiskInstr_of_absent hi (by exact hn)] at hs' htrue
  rcases hri : (RiskInstrTop.fresh O).toRiskInstr.init s.jConf info i ab with ⟨ri, _ | _ | _⟩ <;>
    simp only [hri] at hs' htrue
  · cases htrue
  · cases htrue
  subst hs'
  have hr' := hr
  rw [hh, AList.lookup_insert] at hr'
  obtain rfl := Option.some.inj hr'
  refine ⟨?_, hr, rfl, rfl, ⟨ab, ri, hri, rfl⟩, p, hp, hpo.imp id (And.imp id fun h => ⟨ab, h⟩)⟩
  unfold consulted
  simp only [hn', hab, hri, Bool.true_and]
  rfl

/-- A registration on demand that finds the product's record leaves no record
only in the ways `consulted` answers `false`. -/
theorem consulted_of_notFound (hi : info.find h = some i) {s' : RiskTop τ} {ret : Option Int}
    (hf : s.findOrReg O info i = (s', .error ret))
    (hp : (s.mapRiskPrd.lookup i.productHash).isSome = true) :
    (s.consulted O info i).2.2 = false := by
  have hh : i.instrHash = h := TradeBaseInfo.instrHash_eq hi
  unfold findOrReg at hf
  unfold consulted
  rcases hn : s.mapRiskInstr.lookup i.instrHash with _ | r
  · rw [hn] at hf
    dsimp only at hf ⊢
    rw [hh] at hn
    rw [RiskTop.regInstr_eq (TradeBaseInfo.nameHash_instr hi) hi] at hf
    rcases hab : s.accBase.regInstr info i.instr with ⟨ab, _ | _⟩
    · rfl
    rw [hab] at hf
    have hs : regRiskPrd info i.product { s with accBase := ab } =
        ({ s with accBase := ab }, some true) :=
      regRiskPrd_of_present (TradeBaseInfo.nameHash_product hi) hp
    simp only [hs] at hf
    rw [regRiskInstr_of_absent hi (by exact hn)] at hf
    dsimp only at hf ⊢
    rcases hri : (RiskInstrTop.fresh O).toRiskInstr.init s.jConf info i ab with ⟨ri, _ | _ | _⟩
    · rfl
    · rfl
    · simp only [hri] at hf
      rw [hh, AList.lookup_insert] at hf
      cases hf
  · rw [hn] at hf
    cases hf

/-! ## The gate -/

theorem not_refused_iff {ab : AccBase} {r : RiskInstrTop τ}
    (hc : s.consulted O info i = (ab, r, true)) (dir : Dir) (off : Off) (px : ℚ) (vol nano : Int) :
    ¬s.Refused O info i dir off px vol nano ↔ (off ≠ .auto ∧ off ≠ .close) ∧
      r.check O ab dir off px vol nano = 0 ∧ (s.riskPrdAt i.productHash).check ab dir off vol = 0 ∧
      s.riskAcc.check ab.modAcc dir off px vol i.volMultiple = 0 := by
  simp only [Refused, hc, Bool.true_eq_false, false_or, not_or, ne_eq, not_not]

/-- A registration without leftovers, or a layer that refuses, keeps the gate closed. -/
theorem failClosed_of (hi : info.find h = some i) {dir : Dir} {off : Off} {px : ℚ} {vol nano : Int}
    (hc : s.Clean info i ∨ s.Refused O info i dir off px vol nano) :
    s.FailClosed O info dir off px vol h nano := by
  have hh : i.instrHash = h := TradeBaseInfo.instrHash_eq hi
  intro h0
  refine ⟨i, hi, ?_⟩
  rcases hf : s.findOrReg O info i with ⟨s', ret | r⟩
  · rw [check_of_notFound hi hf] at h0
    rcases findOrReg_error hf with rfl | rfl <;> simp at h0
  obtain ⟨hs', hiff⟩ := check_of_found hi hf dir off px vol nano
  obtain ⟨hdef, hr, hp, hacc⟩ := hiff.mp h0
  rw [hs']
  rcases hn : s.mapRiskInstr.lookup i.instrHash with _ | r0
  · have hg := registered_of_absent hi hn hf
    obtain ⟨p, hpl, hpo⟩ := hg.prd
    have hpat : s'.riskPrdAt i.productHash = p := by simp [riskPrdAt, hpl]
    rw [hpat] at hp
    refine ⟨hdef, ⟨r, hg.instr, hg.conf ▸ hg.init, hr⟩, ⟨p, hpl, ?_, hp⟩, hacc⟩
    rw [hg.conf]
    rcases hpo with hold | hnew
    · rcases hc with hclean | href
      · exact hclean.prd p hold
      · have hpat0 : s.riskPrdAt i.productHash = p := by simp [riskPrdAt, hold]
        have hno := (not_refused_iff hg.consulted dir off px vol nano).mpr
          ⟨hdef, hr, hpat0 ▸ hp, hg.acc ▸ hacc⟩
        exact absurd href hno
    · exact hnew.2
  · rw [findOrReg_of_present hn] at hf
    obtain ⟨rfl, hr0⟩ := Prod.mk.injEq _ _ _ _ ▸ hf
    obtain rfl := Except.ok.inj hr0
    rcases hc with hclean | href
    · obtain ⟨hinit, hsome⟩ := hclean.instr r0 hn
      obtain ⟨p, hpl⟩ := Option.isSome_iff_exists.mp hsome
      have hpat : s.riskPrdAt i.productHash = p := by simp [riskPrdAt, hpl]
      rw [hpat] at hp
      exact ⟨hdef, ⟨r0, hn, hinit, hr⟩, ⟨p, hpl, hclean.prd p hpl, hp⟩, hacc⟩
    · exact absurd href
        ((not_refused_iff (consulted_of_present hn) dir off px vol nano).mpr ⟨hdef, hr, hp, hacc⟩)

/-- A leftover record that every layer is content with opens it. -/
theorem clean_of_failClosed (hi : info.find h = some i) {dir : Dir} {off : Off} {px : ℚ}
    {vol nano : Int} (hc : s.FailClosed O info dir off px vol h nano)
    (hr : ¬s.Refused O info i dir off px vol nano) : s.Clean info i := by
  have hpass : ∀ s' r, s.findOrReg O info i = (s', .ok r) →
      s.consulted O info i = (s'.accBase, r, true) → s'.riskAcc = s.riskAcc →
      s'.riskPrdAt i.productHash = s.riskPrdAt i.productHash →
      s'.Passed O info i dir off px vol nano := by
    intro s' r hf hcons hacc hprd
    obtain ⟨hs', hiff⟩ := check_of_found hi hf dir off px vol nano
    have hno := (not_refused_iff hcons dir off px vol nano).mp hr
    obtain ⟨j, hj, hp⟩ := hc (hiff.mpr (by rw [hacc, hprd]; exact hno))
    rw [hs'] at hp
    rw [hi] at hj
    cases hj
    exact hp
  rcases hn : s.mapRiskInstr.lookup i.instrHash with _ | r0
  · refine ⟨fun r hr => (by rw [hn] at hr; cases hr), ?_⟩
    intro p hpl
    rcases hf : s.findOrReg O info i with ⟨s', ret | r⟩
    · have hfalse := consulted_of_notFound hi hf (by rw [hpl]; rfl)
      exact absurd (Or.inr (Or.inl hfalse)) hr
    have hg := registered_of_absent hi hn hf
    -- a record of the product that is there stays
    have hsame : s'.mapRiskPrd.lookup i.productHash = some p := hg.prd_of_present hpl
    have hpass' := hpass s' r hf hg.consulted hg.acc (by simp [riskPrdAt, hsame, hpl])
    obtain ⟨q, hq, hinit, -⟩ := hpass'.prd
    rw [hsame] at hq
    cases hq
    rw [← hg.conf]
    exact hinit
  · have hp := hpass s r0 (findOrReg_of_present hn) (consulted_of_present hn) rfl rfl
    obtain ⟨p, hpl, hpinit, -⟩ := hp.prd
    obtain ⟨r, hrl, hrinit, -⟩ := hp.instr
    refine ⟨?_, ?_⟩
    · intro r' hr'
      rw [hrl] at hr'
      cases hr'
      exact ⟨hrinit, by rw [hpl]; rfl⟩
    · intro p' hp'
      rw [hpl] at hp'
      cases hp'
      exact hpinit

/-- The gate is closed to an order exactly when its instrument is known and
either no failed registration has left a record of it or of its product, or a
layer refuses the order even so. -/
theorem failClosed_iff (O : Treap τ) (info : TradeBaseInfo) (dir : Dir) (off : Off) (px : ℚ)
    (vol : Int) (h : Hash) (nano : Int) (s : RiskTop τ) :
    s.FailClosed O info dir off px vol h nano ↔
      ∃ i, info.find h = some i ∧ (s.Clean info i ∨ s.Refused O info i dir off px vol nano) := by
  constructor
  · intro hc
    rcases hi : info.find h with _ | i
    · obtain ⟨j, hj, -⟩ := hc (by unfold check; rw [hi])
      rw [hi] at hj
      cases hj
    · refine ⟨i, rfl, ?_⟩
      by_cases hr : s.Refused O info i dir off px vol nano
      · exact Or.inr hr
      · exact Or.inl (clean_of_failClosed hi hc hr)
  · rintro ⟨i, hi, hc⟩
    exact failClosed_of hi hc

end RiskTop

/-! ## The product's record -/

/-- The calls the engine makes on a risk account. -/
inductive TopCall where
  | check (dir : Dir) (off : Off) (px : ℚ) (vol : Int) (h : Hash) (nano : Int)
  | onNew (dir : Dir) (off : Off) (px : ℚ) (vol : Int) (h : Hash) (orderRef nano : Int)
  | onRtn (t : OrderTrack) (m : RtnMsg)
  | onOrderTrack (t : OrderTrack)
  | onTickPx (h : Hash) (px : ℚ)
  deriving DecidableEq, Repr

namespace RiskTop

variable {τ : Type} (O : Treap τ) (info : TradeBaseInfo)

def called (s : RiskTop τ) : TopCall → RiskTop τ
  | .check dir off px vol h nano => (s.check O info dir off px vol h nano).1
  | .onNew dir off px vol h orderRef nano => s.onNew O info dir off px vol h orderRef nano
  | .onRtn t m => s.onRtn O info t m
  | .onOrderTrack t => s.onOrderTrack info t
  | .onTickPx h px => s.onTickPx info h px

/-- Any calls, from an account without records. -/
def calls : Lib.Sys (RiskTop τ) TopCall where
  start s := s.mapRiskInstr = ∅
  ok _ _ := True
  next := called O info

/-- An instrument that is allowed has the record of its product. -/
def HasPrd (s : RiskTop τ) : Prop :=
  ∀ h i r, info.find h = some i → s.mapRiskInstr.lookup h = some r → r.isAllowed = true →
    (s.mapRiskPrd.lookup i.productHash).isSome = true

variable {O info} {s : RiskTop τ}

theorem HasPrd.modify (hs : s.HasPrd info) {h : Hash} {f : RiskInstrTop τ → RiskInstrTop τ}
    (hf : ∀ r, (f r).isAllowed = r.isAllowed) : (s.modifyRiskInstr O h f).HasPrd info := by
  intro h' i r hi hr ha
  simp only [modifyRiskInstr, UMap.lookup_insert_ite] at hr ⊢
  split at hr
  · rename_i hh
    subst hh
    obtain rfl := Option.some.inj hr
    rw [hf] at ha
    rcases hl : s.mapRiskInstr.lookup h' with _ | r0
    · simp [riskInstrAt, hl, RiskInstrTop.fresh] at ha
    · simp only [riskInstrAt, hl, Option.getD_some] at ha
      exact hs h' i r0 hi hl ha
  · exact hs h' i r hi hr ha

theorem isAllowed_onCxl (t : OrderTrack) (r : RiskInstrTop τ) :
    (r.onCxl O t).isAllowed = r.isAllowed := by
  unfold RiskInstrTop.onCxl
  dsimp only
  split <;> rfl

theorem isAllowed_onTrd (t : OrderTrack) (r : RiskInstrTop τ) :
    (r.onTrd O t).isAllowed = r.isAllowed := by
  unfold RiskInstrTop.onTrd
  dsimp only
  split
  · split <;> rfl
  · rfl

theorem isAllowed_onNew (dir : Dir) (px : ℚ) (orderRef nano : Int) (r : RiskInstrTop τ) :
    (r.onNew O dir px orderRef nano).isAllowed = r.isAllowed := by
  have hr : ∀ q : RiskInstr, (q.onNew nano).isAllowed = q.isAllowed := by
    intro q
    unfold RiskInstr.onNew
    dsimp only
    split <;> rfl
  unfold RiskInstrTop.onNew
  dsimp only
  rw [hr]
  split <;> rfl

/-- The product's step leaves a record of the product, be it one of a failed `init`. -/
theorem regRiskPrd_grows (name : String) :
    (s.regRiskPrd info name).1.mapRiskInstr = s.mapRiskInstr ∧
      ∀ k, ((s.regRiskPrd info name).1.mapRiskPrd.lookup k).isSome = true ↔
        k = info.nameHash name ∨ (s.mapRiskPrd.lookup k).isSome = true := by
  unfold regRiskPrd
  dsimp only
  split
  · rename_i hx
    refine ⟨rfl, fun k => ⟨Or.inr, ?_⟩⟩
    rintro (rfl | hk)
    · exact hx
    · exact hk
  · refine ⟨rfl, fun k => ?_⟩
    simp only [UMap.lookup_insert_ite]
    by_cases hk : k = info.nameHash name <;> simp [hk]

/-- A record that is there stays. -/
theorem isSome_regInstr {h h' : Hash} {i : InstrumentInfo} (hi : info.find h = some i)
    (hx : (s.mapRiskInstr.lookup h').isSome = true) :
    ((s.regInstr O info i.instr).1.mapRiskInstr.lookup h').isSome = true := by
  rw [RiskTop.regInstr_eq (TradeBaseInfo.nameHash_instr hi) hi]
  rcases s.accBase.regInstr info i.instr with ⟨ab, _ | _⟩
  · exact hx
  have hkept : (RiskTop.regRiskPrd info i.product { s with accBase := ab }).1.mapRiskInstr =
      s.mapRiskInstr := (regRiskPrd_grows i.product).1
  rcases hs : RiskTop.regRiskPrd info i.product { s with accBase := ab } with ⟨s1, _ | _ | _⟩ <;>
    rw [hs] at hkept <;> simp only [hs]
  · rw [hkept]
    exact hx
  · rw [hkept]
    exact hx
  · dsimp only at hkept
    by_cases hh : s1.isExistRiskInstr h = true
    · rw [regRiskInstr_of_present hi hh, hkept]
      exact hx
    · rw [regRiskInstr_of_absent hi (by simpa [isExistRiskInstr] using hh)]
      simp only [UMap.lookup_insert_ite, hkept]
      split
      · rfl
      · exact hx

/-- The product's step comes first: a record of the instrument finds it. -/
theorem HasPrd.regInstr (hs : s.HasPrd info) {h : Hash} {i : InstrumentInfo}
    (hi : info.find h = some i) (hn : s.mapRiskInstr.lookup h = none) :
    (s.regInstr O info i.instr).1.HasPrd info := by
  rw [RiskTop.regInstr_eq (TradeBaseInfo.nameHash_instr hi) hi]
  rcases s.accBase.regInstr info i.instr with ⟨ab, _ | _⟩
  · exact hs
  obtain ⟨hinstr, hprd⟩ : _ ∧ ∀ k, ((RiskTop.regRiskPrd info i.product
      { s with accBase := ab }).1.mapRiskPrd.lookup k).isSome = true ↔
        k = info.nameHash i.product ∨ _ := regRiskPrd_grows i.product
  rw [TradeBaseInfo.nameHash_product hi] at hprd
  rcases hrp : regRiskPrd info i.product { s with accBase := ab } with ⟨s1, _ | _ | _⟩ <;>
    rw [hrp] at hinstr hprd <;> simp only [hrp]
  · intro h' j r hj hr ha
    rw [hinstr] at hr
    exact (hprd _).mpr (Or.inr (hs h' j r hj hr ha))
  · intro h' j r hj hr ha
    rw [hinstr] at hr
    exact (hprd _).mpr (Or.inr (hs h' j r hj hr ha))
  · dsimp only at hinstr hprd
    rw [regRiskInstr_of_absent hi (by rw [hinstr]; exact hn)]
    intro h' j r hj hr ha
    simp only [UMap.lookup_insert_ite] at hr
    split at hr
    · rename_i hh
      subst hh
      rw [hi] at hj
      cases hj
      exact (hprd _).mpr (Or.inl rfl)
    · rw [hinstr] at hr
      exact (hprd _).mpr (Or.inr (hs h' j r hj hr ha))

theorem HasPrd.findOrReg (hs : s.HasPrd info) {h : Hash} {i : InstrumentInfo}
    (hi : info.find h = some i) : (s.findOrReg O info i).1.HasPrd info := by
  rw [findOrReg_fst]
  split
  · rename_i hn
    rw [TradeBaseInfo.instrHash_eq hi] at hn
    exact hs.regInstr hi hn
  · exact hs

theorem fst_check (dir : Dir) (off : Off) (px : ℚ) (vol : Int) (h : Hash) (nano : Int) :
    (s.check O info dir off px vol h nano).1 =
      match info.find h with
      | none => s
      | some i => (s.findOrReg O info i).1 := by
  rcases hi : info.find h with _ | i
  · unfold check
    rw [hi]
  · rcases hf : s.findOrReg O info i with ⟨s', ret | r⟩
    · unfold check
      simp only [hi, hf]
    · rw [(check_of_found hi hf dir off px vol nano).1]
      dsimp only
      rw [hf]

theorem HasPrd.called (hs : s.HasPrd info) (c : TopCall) : (s.called O info c).HasPrd info := by
  cases c with
  | check dir off px vol h nano =>
    simp only [RiskTop.called, fst_check]
    rcases hi : info.find h with _ | i
    · exact hs
    · exact hs.findOrReg hi
  | onNew dir off px vol h orderRef nano =>
    exact HasPrd.modify (s := { s with accBase := _ }) hs (isAllowed_onNew dir px orderRef nano)
  | onRtn t m =>
    simp only [RiskTop.called, onRtn]
    have h1 : HasPrd info { s with accBase := s.accBase.onRtn info t m } := hs
    split
    · split
      · exact (h1.modify (isAllowed_onCxl t)).modify (isAllowed_onTrd t)
      · exact h1.modify (isAllowed_onTrd t)
    · split
      · exact h1.modify (isAllowed_onCxl t)
      · exact h1
  | onOrderTrack t => exact hs
  | onTickPx h px => exact hs

/-- Where the instrument's check lets an order through, the product has a record:
`check` does not read past the end of `map_risk_prd_`. -/
theorem prd_of_reachable {h : Hash} {i : InstrumentInfo} (hr : (calls O info).Reachable s)
    (hi : info.find h = some i) {s' : RiskTop τ} {r : RiskInstrTop τ}
    (hf : s.findOrReg O info i = (s', .ok r)) {dir : Dir} {off : Off} {px : ℚ} {vol nano : Int}
    (h0 : r.check O s'.accBase dir off px vol nano = 0) :
    (s'.mapRiskPrd.lookup i.productHash).isSome = true := by
  have hinv : s.HasPrd info := by
    refine (calls O info).invariant (I := HasPrd info) ?_ (fun s c hs _ => hs.called c) hr
    intro s hs h i r _ hl
    rw [show s.mapRiskInstr = ∅ from hs] at hl
    cases hl
  have hs' : s'.HasPrd info := by
    have := hinv.findOrReg (O := O) hi
    rw [hf] at this
    exact this
  have hl := findOrReg_ok hf
  rw [TradeBaseInfo.instrHash_eq hi] at hl
  refine hs' h i r hi hl ?_
  by_contra hna
  -- the first check of the instrument refuses it
  have h200 : r.toRiskInstr.check s'.accBase dir off vol nano = -200 := by
    unfold RiskInstr.check
    simp [hna]
  unfold RiskInstrTop.check at h0
  rw [h200] at h0
  repeat' split at h0
  all_goals cases h0

end RiskTop

end NatFramework.Risk

namespace NatFramework.Td

open Lib Account Risk

namespace Engine

/-- The account an order names is one of the engine's. -/
def KnownAccount (d : IOInputOrderField) (e : Engine) : Prop :=
  0 ≤ d.accIdx ∧ d.accIdx.toNat < e.accountUnits.length

instance (d : IOInputOrderField) (e : Engine) : Decidable (e.KnownAccount d) := by
  unfold KnownAccount
  infer_instance

/-- The front is called for an order with a known account that the risk check passed. -/
theorem sent_reqOrderInsert (d : IOInputOrderField) (riskRet apiRet : Int) (e : Engine) :
    (e.reqOrderInsert d riskRet apiRet).sent ≠ e.sent ↔ e.KnownAccount d ∧ riskRet = 0 := by
  unfold reqOrderInsert KnownAccount
  by_cases h0 : 0 ≤ d.accIdx
  · rw [if_pos h0]
    rcases hu : e.accountUnits[d.accIdx.toNat]? with _ | unit
    · refine iff_of_false (fun h => h rfl) ?_
      rintro ⟨⟨-, hlt⟩, -⟩
      exact absurd (List.getElem?_eq_none_iff.mp hu) (by omega)
    · have hlt := (List.getElem?_eq_some_iff.mp hu).1
      by_cases hr : riskRet = 0
      · refine iff_of_true ?_ ⟨⟨h0, hlt⟩, hr⟩
        by_cases ha : apiRet = 0 <;> simp [hr, ha, setRequestTrack, commit, writeErrRtn]
      · refine iff_of_false ?_ fun h => hr h.2
        simp [hr, writeErrRtn, commit]
  · rw [if_neg h0]
    exact iff_of_false (fun h => h rfl) fun h => h0 h.1.1

variable {τ : Type} (O : Treap τ) (info : TradeBaseInfo)

/-- `req_order_insert` with the answer of the account's `check`, which may end
the process. -/
def gatedInsert (d : IOInputOrderField) (nano apiRet : Int) (s : RiskTop τ) (e : Engine) : Engine :=
  match (s.check O info d.dir d.off d.price d.vol d.instrHash nano).2 with
  | some ret => e.reqOrderInsert d ret apiRet
  | none => e

theorem sent_gatedInsert {O : Treap τ} {info : TradeBaseInfo} (d : IOInputOrderField)
    (nano apiRet : Int) (s : RiskTop τ) (e : Engine) :
    (e.gatedInsert O info d nano apiRet s).sent ≠ e.sent ↔ e.KnownAccount d ∧
      (s.check O info d.dir d.off d.price d.vol d.instrHash nano).2 = some 0 := by
  unfold gatedInsert
  rcases (s.check O info d.dir d.off d.price d.vol d.instrHash nano).2 with _ | ret
  · simp
  · dsimp only
    rw [sent_reqOrderInsert, Option.some.injEq]

/-- `ReqOrderInsert` is called for orders that have passed every layer only. -/
def SendsPassed (d : IOInputOrderField) (nano apiRet : Int) (s : RiskTop τ) (e : Engine) : Prop :=
  (e.gatedInsert O info d nano apiRet s).sent ≠ e.sent →
    ∃ i, info.find d.instrHash = some i ∧
      (s.check O info d.dir d.off d.price d.vol d.instrHash nano).1.Passed O info i d.dir d.off
        d.price d.vol nano

end Engine

/-- When an answer of 0, and a call of the front, mean that every layer has let
the order through. -/
theorem riskGate_iff {τ : Type} (O : Treap τ) (info : TradeBaseInfo) (d : IOInputOrderField)
    (nano apiRet : Int) (s : RiskTop τ) (e : Engine) :
    (s.FailClosed O info d.dir d.off d.price d.vol d.instrHash nano ↔
      ∃ i, info.find d.instrHash = some i ∧
        (s.Clean info i ∨ s.Refused O info i d.dir d.off d.price d.vol nano)) ∧
    (e.SendsPassed O info d nano apiRet s ↔ (e.KnownAccount d →
      ∃ i, info.find d.instrHash = some i ∧
        (s.Clean info i ∨ s.Refused O info i d.dir d.off d.price d.vol nano))) := by
  refine ⟨RiskTop.failClosed_iff O info d.dir d.off d.price d.vol d.instrHash nano s, ?_⟩
  rw [← RiskTop.failClosed_iff O]
  unfold Engine.SendsPassed RiskTop.FailClosed
  rw [Engine.sent_gatedInsert]
  exact and_imp

/-- A limit of the products has a node, and no value for any product. -/
def noPrdNet : RiskConf := { Desk.rbConf with prdNetVolume := .value fun _ => .missing }

/-- A restart with five lots bought. -/
def gateTop : RiskTop (List TreapNode) :=
  ({ jConf := noPrdNet, riskAcc := (RiskAcc.init noPrdNet {}).1 } : RiskTop (List TreapNode)).onOrderTrack
    TradeBaseInfo.rb
    { instrHash := 1, dir := .buy, off := .opn, price := 10, vol := 5, volTraded := 5
      amountTraded := 50, status := ods .send ||| ods .execution }

def gateOrder (h : Hash) : IOInputOrderField :=
  { from_ := 1, localId := 0, accIdx := 0, instrHash := h, instr := "rb1810", price := 10, vol := 1
    dir := .sell, off := .closeToday, stgId := 0 }

/-- An unknown instrument is sent to the front. A sell is refused when it has the
product registered, and sent the next time, on limits nobody has read. -/
theorem not_riskGate :
    let O := listOps TreapNode.orderRef TreapNode.priorityOrder
    let e : Engine := { accountUnits := [⟨1, 1⟩] }
    let s := (gateTop.check O .rb .sell .closeToday 10 1 1 0).1
    (gateTop.check O .rb .sell .closeToday 10 1 7 0).2 = some 0 ∧
      ¬gateTop.FailClosed O .rb .sell .closeToday 10 1 7 0 ∧
      ¬e.SendsPassed O .rb (gateOrder 7) 0 0 gateTop ∧
      (gateTop.check O .rb .sell .closeToday 10 1 1 0).2 = some (-404) ∧
      (s.check O .rb .sell .closeToday 10 1 1 0).2 = some 0 ∧
      ¬s.FailClosed O .rb .sell .closeToday 10 1 1 0 ∧
      ¬e.SendsPassed O .rb (gateOrder 1) 0 0 s := by
  have h1 : ∀ P : InstrumentInfo → Prop, ¬∃ i, TradeBaseInfo.rb.find 7 = some i ∧ P i := by
    rintro P ⟨i, hi, -⟩
    cases hi
  refine ⟨by decide +kernel, fun h => h1 _ (h (by decide +kernel)),
    fun h => h1 _ (h ((Engine.sent_gatedInsert ..).mpr (by decide +kernel))), by decide +kernel,
    by decide +kernel, fun h => ?_, fun h => ?_⟩
  · obtain ⟨i, hi, hp⟩ := h (by decide +kernel)
    obtain rfl : TradeBaseInfo.rb1810 = i := by cases hi; rfl
    exact RiskTop.not_passed_of_prdNetVolume (by decide +kernel) hp
  · obtain ⟨i, hi, hp⟩ := h ((Engine.sent_gatedInsert ..).mpr (by decide +kernel))
    obtain rfl : TradeBaseInfo.rb1810 = i := by cases hi; rfl
    exact RiskTop.not_passed_of_prdNetVolume (by decide +kernel) hp

end NatFramework.Td
