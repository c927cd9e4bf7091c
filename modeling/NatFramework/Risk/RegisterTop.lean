import NatFramework.Risk.Register

/-!
# Failed registrations of the engine

`RiskTop::regInstr` has the stages of `RiskStg::regInstr`. `RiskTop::check`
answers an unknown instrument `false`, which is 0, so that not even the failure
that leaves no record is answered with the registration's code.

* `RiskTop.atomic_iff`: a registration is atomic exactly when it cannot fail, or
  ends the process.
* `registration_iff`: the three classes side by side, and what a run of atomic
  registrations compares its orders with.
-/
namespace NatFramework.Risk

open Lib Account

namespace RiskTop

variable {τ : Type} (O : Treap τ) (info : TradeBaseInfo)

/-- Every limit a check compares with is the configuration's. -/
structure AllRead (s : RiskTop τ) : Prop where
  instr : ∀ h r, s.mapRiskInstr.lookup h = some r → r.toRiskInstr.Read s.jConf info h
  prd : ∀ k r, s.mapRiskPrd.lookup k = some r → r.Read s.jConf info k
  acc : ∃ r, RiskAcc.init s.jConf r = (s.riskAcc, some true)

/-- A registration or a call of the engine. -/
def registered (s : RiskTop τ) : String ⊕ TopCall → RiskTop τ
  | .inl name => (s.regInstr O info name).1
  | .inr c => s.called O info c

/-- The call comes back: it does not end the process at a missing node. -/
def Returns (s : RiskTop τ) : String ⊕ TopCall → Prop
  | .inl name => (s.regInstr O info name).2 ≠ none
  | .inr (.check dir off px vol h nano) => (s.check O info dir off px vol h nano).2 ≠ none
  | _ => True

/-- Runs of calls that meet `ok` and come back, from an account that `init` has
accepted. -/
def registrations (ok : RiskTop τ → String ⊕ TopCall → Prop) : Sys (RiskTop τ) (String ⊕ TopCall) where
  start s := s.mapRiskInstr = ∅ ∧ s.mapRiskPrd = ∅ ∧
    ∃ r, RiskAcc.init s.jConf r = (s.riskAcc, some true)
  ok s c := ok s c ∧ s.Returns O info c
  next := registered O info

/-- `onNew`, and the returns that work on a record, follow a check that has let
the order through: its instrument has a record. -/
def Checked (s : RiskTop τ) : String ⊕ TopCall → Prop
  | .inr (.onNew _ _ _ _ h _ _) => (s.mapRiskInstr.lookup h).isSome
  | .inr (.onRtn t m) =>
    m.msgType.has .canceled ∨ m.msgType.has .execution → (s.mapRiskInstr.lookup t.instrHash).isSome
  | _ => True

/-- The stage at which `regInstr` stops, if it does.
mirrors risk/RiskTop.cpp:33-62 -/
def regError (name : String) (s : RiskTop τ) : Option RegError :=
  match s.accBase.regError info name with
  | some e => some e
  | none =>
    match info.find (info.nameHash name) with
    | none => some .unknown
    | some i =>
      if ¬((s.mapRiskPrd.lookup i.productHash).isSome ∨ s.jConf.ReadsPrd i.product) then some .riskPrd
      else if ¬((s.mapRiskInstr.lookup (info.nameHash name)).isSome ∨ s.jConf.ReadsInstr i) then
        some .riskInstr
      else none

/-- The account takes the instrument, and the configuration has all its settings. -/
def RegOk (name : String) (s : RiskTop τ) : Prop :=
  ∃ i, info.find (info.nameHash name) = some i ∧ s.accBase.Takes info name i ∧
    s.jConf.ReadsPrd i.product ∧ s.jConf.ReadsInstr i

/-- Of the settings a registration comes to the first without a value is missing
from the configuration: the process ends. -/
def RegEnds (name : String) (s : RiskTop τ) : Prop :=
  ∃ i, info.find (info.nameHash name) = some i ∧ s.accBase.Takes info name i ∧
    (s.mapRiskPrd.lookup i.productHash = none ∧ s.jConf.prdAnswer i.product = none ∨
      ((s.mapRiskPrd.lookup i.productHash).isSome ∨ s.jConf.ReadsPrd i.product) ∧
        s.mapRiskInstr.lookup (info.nameHash name) = none ∧ s.jConf.instrAnswer i = none)

/-- What a registration that comes back should leave: no record without its
limits; and when it fails, it goes on failing for the same reason, and a check
is answered so. -/
structure Atomic (name : String) (s : RiskTop τ) : Prop where
  allRead : (s.regInstr O info name).2 ≠ none → (s.regInstr O info name).1.AllRead info
  again : (s.regInstr O info name).2 = some false → ∀ es,
    (registrations O info Checked).Admits (s.regInstr O info name).1 es →
      let s' := (registrations O info Checked).exec (s.regInstr O info name).1 es
      (s'.regInstr O info name).2 = some false ∧ s'.regError info name = s.regError info name
  refused : (s.regInstr O info name).2 = some false → ∀ es,
    (registrations O info Checked).Admits (s.regInstr O info name).1 es →
      ∀ dir off px vol nano,
        (((registrations O info Checked).exec (s.regInstr O info name).1 es).check O info dir off px
          vol (info.nameHash name) nano).2 = some (-404)

variable {O info} {s : RiskTop τ} {name : String} {i : InstrumentInfo} {h : Hash}

/-! ## The stages -/

theorem regRiskPrd_eq {k : Hash} (hk : info.nameHash i.product = k) :
    s.regRiskPrd info i.product =
      let r := ({} : RiskPrd).init s.jConf info i.product s.accBase
      ({ s with mapRiskPrd := (regEntry s.mapRiskPrd k r.1 r.2).1 },
        (regEntry s.mapRiskPrd k r.1 r.2).2) := by
  subst hk
  unfold regRiskPrd regEntry isExistRiskPrd
  dsimp only
  split <;> rename_i hx
  · rfl
  · have hnone : s.mapRiskPrd.lookup (info.nameHash i.product) = none := by simpa using hx
    rw [riskPrdAt, hnone]
    rfl

/-- A new node, initialised. -/
def newInstr (O : Treap τ) (info : TradeBaseInfo) (conf : RiskConf) (i : InstrumentInfo) (ab : AccBase) :
    RiskInstrTop τ × Option Bool :=
  let (ri, ok) := (RiskInstrTop.fresh O).toRiskInstr.init conf info i ab
  ({ RiskInstrTop.fresh O with toRiskInstr := ri }, ok)

theorem regRiskInstr_eq (hi : info.find (info.nameHash name) = some i) :
    s.regRiskInstr O info name =
      let r := newInstr O info s.jConf i s.accBase
      ({ s with mapRiskInstr := (regEntry s.mapRiskInstr (info.nameHash name) r.1 r.2).1 },
        (regEntry s.mapRiskInstr (info.nameHash name) r.1 r.2).2) := by
  unfold regRiskInstr regEntry isExistRiskInstr
  dsimp only
  split <;> rename_i hx
  · rfl
  · have hnone : s.mapRiskInstr.lookup (info.nameHash name) = none := by simpa using hx
    rw [hi]
    dsimp only
    rw [riskInstrAt, hnone]
    rfl

/-- A known instrument that the account takes: both entries are made, the second
one if the first is there or initialised. -/
theorem regInstr_of_takes (hi : info.find (info.nameHash name) = some i)
    (ht : s.accBase.Takes info name i) :
    let ab := (s.accBase.regInstr info name).1
    let p := ({} : RiskPrd).init s.jConf info i.product ab
    let r := newInstr O info s.jConf i ab
    let mp := regEntry s.mapRiskPrd i.productHash p.1 p.2
    let mi := regEntry s.mapRiskInstr (info.nameHash name) r.1 r.2
    s.regInstr O info name =
      if mp.2 = some true then ({ s with accBase := ab, mapRiskPrd := mp.1, mapRiskInstr := mi.1 }, mi.2)
      else ({ s with accBase := ab, mapRiskPrd := mp.1 }, mp.2) := by
  intro ab p r mp mi
  have hok := (AccBase.regInstr_true_iff (a := s.accBase) hi).mpr ht
  have hab : s.accBase.regInstr info name = (ab, true) := Prod.ext rfl hok
  rw [regInstr_eq rfl hi, hab]
  dsimp only
  rw [regRiskPrd_eq (TradeBaseInfo.nameHash_product hi)]
  dsimp only
  rcases hmp : regEntry s.mapRiskPrd i.productHash p.1 p.2 with ⟨m, _ | _ | _⟩
  · rw [show mp = (m, none) from hmp]
    rfl
  · rw [show mp = (m, some false) from hmp]
    rfl
  · rw [show mp = (m, some true) from hmp]
    dsimp only
    rw [regRiskInstr_eq hi]
    rfl

/-- The account's stage fails before any record. -/
theorem regInstr_of_not_takes (hi : info.find (info.nameHash name) = some i)
    (ht : ¬s.accBase.Takes info name i) :
    s.regInstr O info name = ({ s with accBase := (s.accBase.regInstr info name).1 }, some false) := by
  have hok : (s.accBase.regInstr info name).2 = false := by
    rwa [← Bool.not_eq_true, AccBase.regInstr_true_iff hi]
  have hab : s.accBase.regInstr info name = ((s.accBase.regInstr info name).1, false) :=
    Prod.ext rfl hok
  rw [regInstr_eq rfl hi, hab]

theorem regInstr_of_unknown (hi : info.find (info.nameHash name) = none) :
    s.regInstr O info name = (s, some false) := by
  have hab : s.accBase.regInstr info name = (s.accBase, false) := by simp [AccBase.regInstr, hi]
  unfold regInstr
  rw [hab]

/-- `regError` is where it stops. -/
theorem regInstr_true_iff_regError :
    (s.regInstr O info name).2 = some true ↔ s.regError info name = none := by
  unfold regError
  cases hi : info.find (info.nameHash name) with
  | none =>
    have ha : s.accBase.regError info name = some .unknown := by simp [AccBase.regError, hi]
    simp [ha, regInstr_of_unknown hi]
  | some i =>
    by_cases ht : s.accBase.Takes info name i
    · rw [(AccBase.regError_none_iff hi).mpr ht, regInstr_of_takes hi ht]
      have hn : (newInstr O info s.jConf i (s.accBase.regInstr info name).1).2 = some true ↔
          s.jConf.ReadsInstr i := RiskInstr.init_true_iff
      dsimp only
      rw [apply_ite Prod.snd, regEntries_true_iff, RiskPrd.init_true_iff, hn, RegError.none_iff]
    · have hne : s.accBase.regError info name ≠ none := by rwa [ne_eq, AccBase.regError_none_iff hi]
      obtain ⟨e, he⟩ := Option.ne_none_iff_exists'.mp hne
      rw [he, regInstr_of_not_takes hi ht]
      simp

theorem regInstr_none_iff : (s.regInstr O info name).2 = none ↔ s.RegEnds info name := by
  cases hi : info.find (info.nameHash name) with
  | none =>
    rw [regInstr_of_unknown hi]
    simp [RegEnds, hi]
  | some i =>
    simp only [RegEnds, hi, Option.some.injEq, exists_eq_left']
    by_cases ht : s.accBase.Takes info name i
    · have hn : (newInstr O info s.jConf i (s.accBase.regInstr info name).1).2 = s.jConf.instrAnswer i :=
        RiskInstr.snd_init _ _ _ _
      rw [regInstr_of_takes hi ht, apply_ite Prod.snd, regEntries_none_iff, RiskPrd.init_true_iff,
        RiskPrd.snd_init, hn]
      simp only [ht, true_and]
    · rw [regInstr_of_not_takes hi ht]
      simp [ht]

/-- The record that `map_risk_instr_` has, or a new one. -/
theorem read_getD_iff {conf : RiskConf} (hi : info.find h = some i) {m : UMap Hash (RiskInstrTop τ)}
    (hm : ∀ k r, m.lookup k = some r → r.toRiskInstr.Read conf info k) (ab : AccBase) :
    RiskInstr.Read conf info h ((m.lookup h).getD (newInstr O info conf i ab).1).toRiskInstr ↔
      conf.ReadsInstr i := by
  constructor
  · rintro ⟨i', hi', hr⟩
    obtain rfl : i = i' := by rw [hi] at hi'; simpa using hi'
    exact hr.readsInstr
  · intro hr
    cases hl : m.lookup h with
    | some r => exact hm _ r hl
    | none => exact ⟨i, hi, ab, _, Prod.ext rfl (RiskInstr.init_true_iff.mpr hr), rfl⟩

theorem allRead_regInstr_iff (hi : info.find (info.nameHash name) = some i)
    (ht : s.accBase.Takes info name i) :
    (s.regInstr O info name).1.AllRead info ↔
      s.AllRead info ∧ s.jConf.ReadsPrd i.product ∧ s.jConf.ReadsInstr i := by
  rw [regInstr_of_takes hi ht]
  generalize (s.accBase.regInstr info name).1 = ab
  split <;> rename_i hp
  · constructor
    · rintro ⟨hinstr, hprd, hacc⟩
      obtain ⟨hinstr, hr⟩ := forall_regEntry_iff.mp hinstr
      obtain ⟨hprd, hk⟩ := forall_regEntry_iff.mp hprd
      exact ⟨⟨hinstr, hprd, hacc⟩, (RiskPrd.read_getD_iff hi hprd ab).mp hk,
        (read_getD_iff hi hinstr ab).mp hr⟩
    · rintro ⟨⟨hinstr, hprd, hacc⟩, hk, hr⟩
      exact ⟨forall_regEntry_iff.mpr ⟨hinstr, (read_getD_iff hi hinstr ab).mpr hr⟩,
        forall_regEntry_iff.mpr ⟨hprd, (RiskPrd.read_getD_iff hi hprd ab).mpr hk⟩, hacc⟩
  · -- the product's settings are missing
    have hnot : ¬s.jConf.ReadsPrd i.product := fun h =>
      hp (regEntry_true_iff.mpr (Or.inr (RiskPrd.init_true_iff.mpr h)))
    refine iff_of_false ?_ fun h => hnot h.2.1
    rintro ⟨-, hprd, -⟩
    obtain ⟨hprd, hk⟩ := forall_regEntry_iff.mp hprd
    exact hnot ((RiskPrd.read_getD_iff hi hprd ab).mp hk)

/-! ## When a registration is atomic -/

/-- A failure before the records is not repeated: the account has the entry then. -/
theorem not_atomic_of_not_takes (hi : info.find (info.nameHash name) = some i)
    (ht : ¬s.accBase.Takes info name i) : ¬s.Atomic O info name := by
  intro ha
  have hreg := regInstr_of_not_takes (O := O) hi ht
  have hagain : (s.regInstr O info name).1.regError info name = s.regError info name :=
    (ha.again (by rw [hreg]) [] trivial).2
  have hs : s.regError info name = some .modInstr := by
    simp [regError, AccBase.regError, hi, ht]
  have hs' : (s.accBase.regInstr info name).1.regError info name = none :=
    (AccBase.regError_none_iff hi).mpr (Or.inl (AccBase.isExistModInstr_regInstr hi))
  rw [hs, hreg] at hagain
  unfold regError at hagain
  rw [hs', hi] at hagain
  dsimp only at hagain
  split at hagain
  · cases hagain
  · split at hagain <;> cases hagain

/-- A registration that cannot fail. -/
theorem regInstr_of_regOk (hok : s.RegOk info name) : (s.regInstr O info name).2 = some true := by
  obtain ⟨i, hi, ht, hp, hr⟩ := hok
  rw [regInstr_true_iff_regError, regError, (AccBase.regError_none_iff hi).mpr ht, hi]
  simp [hp, hr]

theorem AllRead.regInstr (hs : s.AllRead info) (hok : s.RegOk info name) :
    (s.regInstr O info name).1.AllRead info := by
  obtain ⟨i, hi, ht, hr⟩ := hok
  exact (allRead_regInstr_iff hi ht).mpr ⟨hs, hr⟩

theorem atomic_iff : s.Atomic O info name ↔
    s.RegEnds info name ∨ s.AllRead info ∧ s.RegOk info name := by
  rw [← regInstr_none_iff (O := O)]
  constructor
  · intro h
    refine or_iff_not_imp_left.mpr fun hne => ?_
    cases hi : info.find (info.nameHash name) with
    | none =>
      -- the answer is 0
      have hreg := regInstr_of_unknown (O := O) (s := s) hi
      have h404 : ((s.regInstr O info name).1.check O info .buy .opn 0 0 (info.nameHash name) 0).2 =
          some (-404) := h.refused (by rw [hreg]) [] trivial .buy .opn 0 0 0
      simp [check, hi] at h404
    | some i =>
      by_cases ht : s.accBase.Takes info name i
      · obtain ⟨hs, hr⟩ := (allRead_regInstr_iff hi ht).mp (h.allRead hne)
        exact ⟨hs, i, hi, ht, hr⟩
      · exact absurd h (not_atomic_of_not_takes hi ht)
  · rintro (hnone | ⟨hs, hok⟩)
    · exact ⟨fun h => absurd hnone h, fun hf => absurd (hnone.symm.trans hf) (by decide),
        fun hf => absurd (hnone.symm.trans hf) (by decide)⟩
    · have htrue := regInstr_of_regOk (O := O) hok
      exact ⟨fun _ => hs.regInstr hok, fun hf => absurd (htrue.symm.trans hf) (by decide),
        fun hf => absurd (htrue.symm.trans hf) (by decide)⟩

/-! ## Runs of atomic registrations -/

variable (info) in
/-- A call that neither fails to register for want of the settings, nor makes a
record beside the registration. -/
def Sound (s : RiskTop τ) : String ⊕ TopCall → Prop
  | .inl name => s.RegEnds info name ∨ s.RegOk info name
  | .inr (.check _ _ _ _ h _) =>
    ∀ i, info.find h = some i → s.mapRiskInstr.lookup h = none →
      s.RegEnds info i.instr ∨ s.RegOk info i.instr
  | .inr (.onNew _ _ _ _ h _ _) => (s.mapRiskInstr.lookup h).isSome
  | .inr (.onRtn t m) =>
    m.msgType.has .canceled ∨ m.msgType.has .execution → (s.mapRiskInstr.lookup t.instrHash).isSome
  | _ => True

theorem AllRead.findOrReg (hs : s.AllRead info) (hi : info.find h = some i)
    (hok : s.mapRiskInstr.lookup h = none → s.RegOk info i.instr) :
    (s.findOrReg O info i).1.AllRead info := by
  rw [← TradeBaseInfo.instrHash_eq hi] at hok
  rw [findOrReg_fst]
  split
  · exact hs.regInstr (hok ‹_›)
  · exact hs

/-- A check that has to register does not come back when that does not. -/
theorem findOrReg_none (hn : s.mapRiskInstr.lookup i.instrHash = none)
    (he : (s.regInstr O info i.instr).2 = none) : (s.findOrReg O info i).2 = .error none := by
  unfold findOrReg
  rw [hn]
  dsimp only
  split <;> rename_i hx <;> rw [hx] at he
  all_goals cases he

/-- A check that comes back has registered, if it had to. -/
theorem regOk_of_sound {dir : Dir} {off : Off} {px : ℚ} {vol nano : Int}
    (hc : s.Sound info (.inr (.check dir off px vol h nano)))
    (hr : s.Returns O info (.inr (.check dir off px vol h nano))) (hi : info.find h = some i)
    (hn : s.mapRiskInstr.lookup h = none) : s.RegOk info i.instr := by
  refine (hc i hi hn).resolve_left fun he => hr ?_
  rw [← TradeBaseInfo.instrHash_eq hi] at hn
  rcases hf : s.findOrReg O info i with ⟨s', ret⟩
  have hret : ret = .error none := by
    rw [← findOrReg_none hn ((regInstr_none_iff (O := O)).mpr he), hf]
  rw [hret] at hf
  exact check_of_notFound hi hf dir off px vol nano

/-- A write to a record that is there, which leaves its settings. -/
theorem AllRead.modify (hs : s.AllRead info) {f : RiskInstrTop τ → RiskInstrTop τ}
    (hf : ∀ r, (f r).settings = r.settings) (hh : (s.mapRiskInstr.lookup h).isSome) :
    (s.modifyRiskInstr O h f).AllRead info := by
  obtain ⟨r, hr⟩ := Option.isSome_iff_exists.mp hh
  refine ⟨fun h' r' hr' => ?_, hs.prd, hs.acc⟩
  simp only [modifyRiskInstr, riskInstrAt, hr, Option.getD_some, UMap.lookup_insert_ite] at hr'
  split at hr' <;> rename_i hhh
  · obtain rfl := Option.some.inj hr'
    obtain ⟨i, hi, ab, ri, hinit, hset⟩ := hs.instr h r hr
    exact ⟨i, hhh ▸ hi, ab, ri, hinit, (hf r).trans hset⟩
  · exact hs.instr h' r' hr'

theorem settings_onNew (dir : Dir) (px : ℚ) (orderRef nano : Int) (r : RiskInstrTop τ) :
    (r.onNew O dir px orderRef nano).settings = r.settings := by
  have hr : ∀ q : RiskInstr, (q.onNew nano).settings = q.settings := by
    intro q
    unfold RiskInstr.onNew RiskInstr.settings
    dsimp only
    split <;> rfl
  unfold RiskInstrTop.onNew
  dsimp only
  rw [hr]
  split <;> rfl

theorem settings_onCxl (t : OrderTrack) (r : RiskInstrTop τ) :
    (r.onCxl O t).settings = r.settings := by
  unfold RiskInstrTop.onCxl
  dsimp only
  split <;> rfl

theorem settings_onTrd (t : OrderTrack) (r : RiskInstrTop τ) :
    (r.onTrd O t).settings = r.settings := by
  unfold RiskInstrTop.onTrd
  dsimp only
  split
  · split <;> rfl
  · rfl

theorem isSome_modify {f : RiskInstrTop τ → RiskInstrTop τ} {h' : Hash}
    (hh : (s.mapRiskInstr.lookup h').isSome) :
    ((s.modifyRiskInstr O h f).mapRiskInstr.lookup h').isSome := by
  simp only [modifyRiskInstr, UMap.lookup_insert_ite]
  split
  · rfl
  · exact hh

theorem AllRead.registered (hs : s.AllRead info) {c : String ⊕ TopCall} (hc : s.Sound info c)
    (hr : s.Returns O info c) : (s.registered O info c).AllRead info := by
  rcases c with name | c
  · exact hs.regInstr (hc.resolve_left fun h => hr (regInstr_none_iff.mpr h))
  cases c with
  | check dir off px vol h nano =>
    simp only [RiskTop.registered, called, fst_check]
    cases hi : info.find h with
    | none => exact hs
    | some i => exact hs.findOrReg hi (regOk_of_sound hc hr hi)
  | onNew dir off px vol h orderRef nano =>
    have h1 : AllRead info { s with accBase := s.accBase.onNew info dir off px vol h } :=
      ⟨hs.instr, hs.prd, hs.acc⟩
    exact h1.modify (settings_onNew dir px orderRef nano) hc
  | onRtn t m =>
    simp only [RiskTop.registered, called, onRtn]
    have h1 : AllRead info { s with accBase := s.accBase.onRtn info t m } :=
      ⟨hs.instr, hs.prd, hs.acc⟩
    by_cases hcx : m.msgType.has .canceled = true
    · have hh := hc (Or.inl hcx)
      rw [if_pos hcx]
      have h2 : AllRead info (RiskTop.modifyRiskInstr O t.instrHash (fun r => r.onCxl O t)
          { s with accBase := s.accBase.onRtn info t m }) := h1.modify (settings_onCxl t) hh
      split
      · exact h2.modify (settings_onTrd t) (isSome_modify hh)
      · exact h2
    · rw [if_neg hcx]
      split <;> rename_i hex
      · exact h1.modify (settings_onTrd t) (hc (Or.inr hex))
      · exact h1
  | onOrderTrack t => exact ⟨hs.instr, hs.prd, hs.acc⟩
  | onTickPx h px => exact ⟨hs.instr, hs.prd, hs.acc⟩

/-- The product's entry is made first. -/
theorem HasPrd.regInstr_name (hs : s.HasPrd info) : (s.regInstr O info name).1.HasPrd info := by
  cases hi : info.find (info.nameHash name) with
  | none =>
    rw [regInstr_of_unknown hi]
    exact hs
  | some i =>
    by_cases ht : s.accBase.Takes info name i
    · rw [regInstr_of_takes hi ht]
      generalize (s.accBase.regInstr info name).1 = ab
      split
      · intro h j r hj hl ha
        dsimp only at hl ⊢
        rw [lookup_regEntry] at hl
        split at hl
        · rename_i hh
          obtain rfl : i = j := by rw [hh, hi] at hj; simpa using hj
          rw [lookup_regEntry, if_pos rfl]
          rfl
        · exact isSome_regEntry (hs h j r hj hl ha)
      · intro h j r hj hl ha
        exact isSome_regEntry (hs h j r hj hl ha)
    · rw [regInstr_of_not_takes hi ht]
      exact hs

theorem read_of_reachable (hr : (registrations O info (Sound info)).Reachable s) :
    s.AllRead info ∧ s.HasPrd info := by
  refine (registrations O info (Sound info)).invariant
    (I := fun s => s.AllRead info ∧ s.HasPrd info) ?_ ?_ hr
  · rintro s ⟨hi, hp, hacc⟩
    refine ⟨⟨fun h r hl => ?_, fun k p hl => ?_, hacc⟩, fun h i r _ hl => ?_⟩ <;>
      first | rw [hi] at hl | rw [hp] at hl
    all_goals cases hl
  · rintro s c ⟨hs, hp⟩ hc
    refine ⟨hs.registered hc.1 hc.2, ?_⟩
    cases c with
    | inl name => exact hp.regInstr_name
    | inr c => exact hp.called c

/-- The records a check compares an order with have been read: the product is
asked when the instrument is allowed. -/
theorem read_findOrReg (hs : s.AllRead info ∧ s.HasPrd info) {dir : Dir} {off : Off} {px : ℚ}
    {vol nano : Int} (hc : s.Sound info (.inr (.check dir off px vol h nano)))
    (hi : info.find h = some i) {s' : RiskTop τ} {r : RiskInstrTop τ}
    (hf : s.findOrReg O info i = (s', .ok r)) :
    r.toRiskInstr.Read s'.jConf info h ∧ (r.isAllowed = true →
      ∃ p, s'.mapRiskPrd.lookup i.productHash = some p ∧ p.Read s'.jConf info i.productHash) := by
  have hok : s.mapRiskInstr.lookup h = none → s.RegOk info i.instr := by
    refine fun hn => (hc i hi hn).resolve_left fun he => ?_
    rw [← TradeBaseInfo.instrHash_eq hi] at hn
    have hnone := findOrReg_none hn ((regInstr_none_iff (O := O)).mpr he)
    rw [hf] at hnone
    cases hnone
  have hs' : s'.AllRead info := by
    have h1 := hs.1.findOrReg (O := O) hi hok
    rwa [hf] at h1
  have hp' : s'.HasPrd info := by
    have h2 := hs.2.findOrReg (O := O) hi
    rwa [hf] at h2
  have hl := findOrReg_ok hf
  rw [TradeBaseInfo.instrHash_eq hi] at hl
  refine ⟨hs'.instr h r hl, fun ha => ?_⟩
  obtain ⟨p, hp⟩ := Option.isSome_iff_exists.mp (hp' h i r hi hl ha)
  exact ⟨p, hp, hs'.prd _ p hp⟩

end RiskTop

/-- **When a failed registration is atomic.** In the account and in a strategy it
must fail on an unknown instrument, or be one that cannot fail; in the engine
it must be one that cannot fail; or it ends the process. Runs of such
registrations compare every order with the limits of the configuration. -/
theorem registration_iff {τ : Type} (O : Treap τ) (info : TradeBaseInfo) (tickPrice : Hash → ℚ) :
    (∀ (a : AccBase) name, a.Atomic info name ↔
      ∀ i, info.find (info.nameHash name) = some i → a.Takes info name i) ∧
    (∀ (s : RiskStg) name, s.Atomic info tickPrice name ↔
      s.RegEnds info tickPrice name ∨ s.AllRead info tickPrice ∧ s.RegOk info name) ∧
    (∀ (s : RiskTop τ) name, s.Atomic O info name ↔
      s.RegEnds info name ∨ s.AllRead info ∧ s.RegOk info name) ∧
    (∀ s, (RiskStg.calls info tickPrice (RiskStg.Sound info tickPrice)).Reachable s →
      s.AllRead info tickPrice ∧ ∀ dir off px vol subs,
        s.Sound info tickPrice (.check dir off px vol subs) → ∀ s' r,
          s.findOrReg info tickPrice subs.baseInfo = (s', .ok r) →
            r.Read s'.jConf info tickPrice subs.baseInfo.instrHash ∧
              ∀ i, info.find subs.baseInfo.instrHash = some i →
                ∃ p, s'.mapRiskPrd.lookup i.productHash = some p ∧
                  p.Read s'.jConf.toRiskConf info i.productHash) ∧
    (∀ s, (RiskTop.registrations O info (RiskTop.Sound info)).Reachable s →
      s.AllRead info ∧ ∀ dir off px vol h nano, s.Sound info (.inr (.check dir off px vol h nano)) →
        ∀ i, info.find h = some i → ∀ s' r, s.findOrReg O info i = (s', .ok r) →
          r.toRiskInstr.Read s'.jConf info h ∧ (r.isAllowed = true →
            ∃ p, s'.mapRiskPrd.lookup i.productHash = some p ∧
              p.Read s'.jConf info i.productHash)) := by
  refine ⟨fun a name => AccBase.atomic_iff, fun s name => RiskStg.atomic_iff,
    fun s name => RiskTop.atomic_iff, fun s hr => ?_, fun s hr => ?_⟩
  · have hs := RiskStg.read_of_reachable hr
    exact ⟨hs.1, fun dir off px vol subs hc s' r hf => RiskStg.read_findOrReg hs hc hf⟩
  · have hs := RiskTop.read_of_reachable hr
    exact ⟨hs.1, fun dir off px vol h nano hc i hi s' r hf => RiskTop.read_findOrReg hs hc hi hf⟩

theorem registration_rb :
    let s := (RiskStg.calls .rb (fun _ => 1) (RiskStg.Sound .rb fun _ => 1)).exec (stgOf rbPriced)
      [.regInstr "rb1810", .onTickPx 1 10]
    s.AllRead .rb (fun _ => 1) ∧ ∀ s' r,
      s.findOrReg .rb (fun _ => 1) TradeBaseInfo.rb1810 = (s', .ok r) →
        r.Read s'.jConf .rb (fun _ => 1) 1 := by
  intro s
  have hr : (RiskStg.calls .rb (fun _ => 1) (RiskStg.Sound .rb fun _ => 1)).Reachable s := by
    refine ⟨stgOf rbPriced, [.regInstr "rb1810", .onTickPx 1 10],
      ⟨rfl, rfl, {}, by decide +kernel⟩, ⟨⟨Or.inr ?_, by decide +kernel⟩, ⟨trivial, trivial⟩, trivial⟩,
      rfl⟩
    intro i hi
    obtain rfl : TradeBaseInfo.rb1810 = i := by cases hi; rfl
    exact ⟨Or.inr (by decide), by decide +kernel⟩
  obtain ⟨hs, hf⟩ := 
    (registration_iff (listOps TreapNode.orderRef TreapNode.priorityOrder) .rb fun _ => 1).2.2.2.1 s hr
  refine ⟨hs, fun s' r h => (hf .buy .opn 10 1 { baseInfo := TradeBaseInfo.rb1810 } ?_ s' r h).1⟩
  intro hn
  exact absurd hn (by decide +kernel)

/-- A limit of the product has no value: the second registration goes through,
and an order is compared with a limit of 0. Nor is an unknown instrument refused
by the engine. -/
theorem not_registration_atomic :
    let conf : RiskStgConf := { rbPriced with prdNetVolume := .value fun _ => .missing }
    let s := stgOf conf
    let s1 := (s.regInstr .rb (fun _ => 1) "rb1810").1
    let O := listOps TreapNode.orderRef TreapNode.priorityOrder
    let top : RiskTop (List TreapNode) :=
      { jConf := Desk.rbConf, riskAcc := (RiskAcc.init Desk.rbConf {}).1 }
    (s.regInstr .rb (fun _ => 1) "rb1810").2 = some false ∧ ¬s.Atomic .rb (fun _ => 1) "rb1810" ∧
      (s1.regInstr .rb (fun _ => 1) "rb1810").2 = some true ∧
      (s1.check .rb (fun _ => 1) .buy .opn 10 1 { baseInfo := TradeBaseInfo.rb1810 }).2.2 =
        some (-302) ∧
      (top.regInstr O .rb "hc1810").2 = some false ∧ ¬top.Atomic O .rb "hc1810" ∧
      (top.check O .rb .buy .opn 10 1 (TradeBaseInfo.rb.nameHash "hc1810") 0).2 = some 0 := by
  intro conf s s1 O top
  refine ⟨by decide +kernel, fun ha => ?_, by decide +kernel, by decide +kernel, by decide +kernel,
    fun ha => ?_, by decide +kernel⟩
  · rcases RiskStg.atomic_iff.mp ha with hends | ⟨-, hok⟩
    · exact absurd (RiskStg.regInstr_none_iff.mpr hends) (by decide +kernel)
    · exact absurd (hok TradeBaseInfo.rb1810 (by decide +kernel)).2.1 (by decide +kernel)
  · have hn : TradeBaseInfo.rb.find (TradeBaseInfo.rb.nameHash "hc1810") = none := by decide +kernel
    rcases RiskTop.atomic_iff.mp ha with ⟨i, hi, -⟩ | ⟨-, i, hi, -⟩ <;>
      · rw [hn] at hi
        cases hi

end NatFramework.Risk
