import NatFramework.Account.DayRoll
import NatFramework.Risk.RiskStg
import NatFramework.Td.RiskGate

/-!
# Failed registrations

`regInstr` of `AccBase`, `RiskTop` and `RiskStg` works in stages, each of which
makes the entry of its map with `operator[]` and then initialises it. The entry
is there when the initialisation has failed, and an entry that is there is all
the next call asks for.

* `RegError`: the stage a registration stops at; `regError` names it.
* `ReadsPrd`, `ReadsInstr`, `ReadsPrice`: the settings a configuration has;
  `prdAnswer`, `instrAnswer`, `priceAnswer`: what becomes of a call that reads
  them one after the other.
* `AllRead`: every record has the limits of the configuration.
* `Atomic`: what a registration should leave when it fails. It does so exactly
  when it fails on an unknown instrument, or cannot fail, or when it ends the
  process (`RegEnds`).
-/
namespace NatFramework.Risk

open Lib Account

/-! ## Settings that are there -/

/-- A read before `rest`: the first entry without a value decides. -/
def Setting.andThen {α : Type} (x : Setting α) (rest : Option Bool) : Option Bool :=
  match x with
  | .missing => none
  | .unreadable => some false
  | .value _ => rest

theorem Setting.isValue_iff {α : Type} {x : Setting α} : x.isValue = true ↔ ∃ v, x = .value v := by
  cases x <;> simp [isValue]

@[simp] theorem Setting.andThen_true_iff {α : Type} {x : Setting α} {rest : Option Bool} :
    x.andThen rest = some true ↔ x.isValue = true ∧ rest = some true := by
  cases x <;> simp [andThen, isValue]

namespace RiskConf

variable (conf : RiskConf)

/-- The settings `RiskPrd::init` asks for. -/
def ReadsPrd (prdName : String) : Prop :=
  (readValue conf.prdLongVolume prdName "").isValue ∧
    (readValue conf.prdShortVolume prdName "").isValue ∧
    (readValue conf.prdNetVolume prdName "").isValue

/-- Its reads in their order. -/
def prdAnswer (prdName : String) : Option Bool :=
  (readValue conf.prdLongVolume prdName "").andThen <|
    (readValue conf.prdShortVolume prdName "").andThen <|
      (readValue conf.prdNetVolume prdName "").andThen (some true)

/-- The settings `RiskInstr::init` asks for. -/
def ReadsInstr (i : InstrumentInfo) : Prop :=
  conf.allowedInstrument.isValue ∧ (readValue conf.allowedOrderSize i.product i.instr).isValue ∧
    (readValue conf.intensityCycleOrderCount i.product i.instr).isValue ∧
    (readValue conf.intensityCycleTimeSpan i.product i.instr).isValue ∧
    (readValue conf.instrLongVolume i.product i.instr).isValue ∧
    (readValue conf.instrShortVolume i.product i.instr).isValue ∧
    (readValue conf.instrNetVolume i.product i.instr).isValue

/-- Its reads in their order. -/
def instrAnswer (i : InstrumentInfo) : Option Bool :=
  conf.allowedInstrument.andThen <|
    (readValue conf.allowedOrderSize i.product i.instr).andThen <|
      (readValue conf.intensityCycleOrderCount i.product i.instr).andThen <|
        (readValue conf.intensityCycleTimeSpan i.product i.instr).andThen <|
          (readValue conf.instrLongVolume i.product i.instr).andThen <|
            (readValue conf.instrShortVolume i.product i.instr).andThen <|
              (readValue conf.instrNetVolume i.product i.instr).andThen (some true)

instance (prdName : String) : Decidable (conf.ReadsPrd prdName) := by
  unfold ReadsPrd
  infer_instance

instance (i : InstrumentInfo) : Decidable (conf.ReadsInstr i) := by
  unfold ReadsInstr
  infer_instance

theorem prdAnswer_true_iff {prdName : String} :
    conf.prdAnswer prdName = some true ↔ conf.ReadsPrd prdName := by
  simp [prdAnswer, ReadsPrd]

theorem instrAnswer_true_iff {i : InstrumentInfo} :
    conf.instrAnswer i = some true ↔ conf.ReadsInstr i := by
  simp [instrAnswer, ReadsInstr]

end RiskConf

namespace RiskStgConf

variable (conf : RiskStgConf) (tickPrice : Hash → ℚ) (i : InstrumentInfo)

/-- The limit of the price is there. -/
def ReadsPrice : Prop := (readValue conf.allowedPriceTick i.product i.instr).isValue

/-- The read of the price before `rest`: with a tick price of 0 a node without a
value is enough. -/
def priceAnswer (rest : Option Bool) : Option Bool :=
  match conf.allowedPriceTick with
  | .missing => none
  | .unreadable => some false
  | .value j =>
    match getValue j i.product i.instr with
    | .value _ => rest
    | .missing => if tickPrice i.instrHash = 0 then rest else some false
    | .unreadable => some false

/-- What `RiskInstrStg::init` asks of the price. -/
def PassesPrice : Prop := conf.priceAnswer tickPrice i (some true) = some true

instance : Decidable (conf.ReadsPrice i) := inferInstanceAs (Decidable (_ = _))

instance : Decidable (conf.PassesPrice tickPrice i) := inferInstanceAs (Decidable (_ = _))

variable {conf tickPrice i}

theorem ReadsPrice.passes (h : conf.ReadsPrice i) (tickPrice : Hash → ℚ) :
    conf.PassesPrice tickPrice i := by
  unfold ReadsPrice readValue at h
  unfold PassesPrice priceAnswer
  split at h
  · cases h
  · cases h
  · rename_i j hj
    rw [hj]
    dsimp only
    split at h <;> rename_i hv
    · rw [hv]
    · cases h

/-- A price that is not passed decides, and one that is passed does not. -/
theorem priceAnswer_of_passes (h : conf.PassesPrice tickPrice i) (rest : Option Bool) :
    conf.priceAnswer tickPrice i rest = rest := by
  unfold PassesPrice priceAnswer at h
  unfold priceAnswer
  repeat' split at h
  all_goals simp_all

theorem priceAnswer_true_iff {rest : Option Bool} :
    conf.priceAnswer tickPrice i rest = some true ↔ conf.PassesPrice tickPrice i ∧ rest = some true := by
  constructor
  · intro h
    have hp : conf.PassesPrice tickPrice i := by
      unfold priceAnswer at h
      unfold PassesPrice priceAnswer
      repeat' split at h
      all_goals simp_all
    rw [priceAnswer_of_passes hp] at h
    exact ⟨hp, h⟩
  · rintro ⟨hp, h⟩
    rw [priceAnswer_of_passes hp, h]

end RiskStgConf

variable {info : TradeBaseInfo} {tickPrice : Hash → ℚ}

theorem RiskPrd.snd_init (conf : RiskConf) (prdName : String) (ab : AccBase) (r : RiskPrd) :
    (r.init conf info prdName ab).2 = conf.prdAnswer prdName := by
  unfold init RiskConf.prdAnswer
  dsimp only
  cases readValue conf.prdLongVolume prdName "" <;> try rfl
  cases readValue conf.prdShortVolume prdName "" <;> try rfl
  cases readValue conf.prdNetVolume prdName "" <;> rfl

theorem RiskPrd.init_true_iff {conf : RiskConf} {prdName : String} {ab : AccBase} {r : RiskPrd} :
    (r.init conf info prdName ab).2 = some true ↔ conf.ReadsPrd prdName := by
  rw [snd_init, conf.prdAnswer_true_iff]

theorem RiskInstr.snd_init (conf : RiskConf) (i : InstrumentInfo) (ab : AccBase) (r : RiskInstr) :
    (r.init conf info i ab).2 = conf.instrAnswer i := by
  unfold init RiskConf.instrAnswer
  dsimp only
  cases conf.allowedInstrument <;> try rfl
  cases readValue conf.allowedOrderSize i.product i.instr <;> try rfl
  cases readValue conf.intensityCycleOrderCount i.product i.instr <;> try rfl
  cases readValue conf.intensityCycleTimeSpan i.product i.instr <;> try rfl
  cases readValue conf.instrLongVolume i.product i.instr <;> try rfl
  cases readValue conf.instrShortVolume i.product i.instr <;> try rfl
  cases readValue conf.instrNetVolume i.product i.instr <;> rfl

theorem RiskInstr.init_true_iff {conf : RiskConf} {i : InstrumentInfo} {ab : AccBase} {r : RiskInstr} :
    (r.init conf info i ab).2 = some true ↔ conf.ReadsInstr i := by
  rw [snd_init, conf.instrAnswer_true_iff]

theorem RiskInstrStg.snd_init (conf : RiskStgConf) (i : InstrumentInfo) (ab : AccBase)
    (r : RiskInstrStg) :
    (r.init conf info tickPrice i ab).2 =
      conf.priceAnswer tickPrice i (conf.toRiskConf.instrAnswer i) := by
  unfold init RiskStgConf.priceAnswer
  cases conf.allowedPriceTick with
  | missing => rfl
  | unreadable => rfl
  | value j =>
    dsimp only
    cases getValue j i.product i.instr with
    | unreadable => rfl
    | value v => exact RiskInstr.snd_init _ _ _ _
    | missing =>
      dsimp only
      by_cases ht : tickPrice i.instrHash = 0
      · rw [if_neg (fun h => h.2 ht), if_pos ht]
        exact RiskInstr.snd_init _ _ _ _
      · rw [if_pos ⟨rfl, ht⟩, if_neg ht]

theorem RiskInstrStg.init_of_value {conf : RiskStgConf} {i : InstrumentInfo} {v : ℚ}
    (hv : readValue conf.allowedPriceTick i.product i.instr = .value v) (ab : AccBase)
    (r : RiskInstrStg) :
    (r.init conf info tickPrice i ab).1 =
      { toRiskInstr := (r.toRiskInstr.init conf.toRiskConf info i ab).1
        allowedPriceMarginThreshold := v * tickPrice i.instrHash } := by
  unfold readValue at hv
  split at hv
  · cases hv
  · cases hv
  · rename_i j hj
    split at hv <;> rename_i hx
    · obtain rfl := Setting.value.inj hv
      unfold init
      rw [hj]
      dsimp only
      rw [hx]
      rfl
    · cases hv

theorem RiskInstrStg.init_true_iff {conf : RiskStgConf} {i : InstrumentInfo} {ab : AccBase}
    {r : RiskInstrStg} :
    (r.init conf info tickPrice i ab).2 = some true ↔
      conf.PassesPrice tickPrice i ∧ conf.toRiskConf.ReadsInstr i := by
  rw [snd_init, RiskStgConf.priceAnswer_true_iff, RiskConf.instrAnswer_true_iff]

/-! ## Entries that are made before they are initialised -/

/-- `if (m.find(k) == m.end()) { if (! m[k].init(..)) return false; } return true;`
where `init` leaves `r` and answers `ok`. -/
def regEntry {κ ν : Type} [DecidableEq κ] (m : UMap κ ν) (k : κ) (r : ν) (ok : Option Bool) :
    UMap κ ν × Option Bool :=
  if (m.lookup k).isSome then (m, some true) else (m.insert k r, ok)

section RegEntry

variable {κ ν : Type} [DecidableEq κ] {m : UMap κ ν} {k : κ} {r : ν} {ok : Option Bool}

theorem lookup_regEntry (k' : κ) :
    (regEntry m k r ok).1.lookup k' = if k' = k then some ((m.lookup k).getD r) else m.lookup k' := by
  unfold regEntry
  cases hm : m.lookup k with
  | none => simp [UMap.lookup_insert_ite]
  | some v =>
    rw [if_pos (by rfl)]
    split
    · rename_i hk
      rw [hk, hm]
      rfl
    · rfl

theorem isSome_regEntry {k' : κ} (h : (m.lookup k').isSome = true) :
    ((regEntry m k r ok).1.lookup k').isSome = true := by
  rw [lookup_regEntry]
  split
  · rfl
  · exact h

theorem regEntry_true_iff :
    (regEntry m k r ok).2 = some true ↔ (m.lookup k).isSome = true ∨ ok = some true := by
  unfold regEntry
  split <;> rename_i h <;> simp [h]

theorem regEntry_none_iff :
    (regEntry m k r ok).2 = none ↔ m.lookup k = none ∧ ok = none := by
  unfold regEntry
  cases m.lookup k <;> simp

/-- Two entries, the second one made if the first is there or initialised. -/
theorem regEntries_true_iff {κ' ν' : Type} [DecidableEq κ'] {m' : UMap κ' ν'} {k' : κ'} {r' : ν'} {ok' : Option Bool} :
    (if (regEntry m k r ok).2 = some true then (regEntry m' k' r' ok').2 else (regEntry m k r ok).2) = some true ↔
      ((m.lookup k).isSome = true ∨ ok = some true) ∧ ((m'.lookup k').isSome = true ∨ ok' = some true) := by
  split <;> rename_i hp
  · rw [regEntry_true_iff, and_iff_right (regEntry_true_iff.mp hp)]
  · exact iff_of_false hp fun h => hp (regEntry_true_iff.mpr h.1)

/-- The process ends at the first of them, or at the second. -/
theorem regEntries_none_iff {κ' ν' : Type} [DecidableEq κ'] {m' : UMap κ' ν'} {k' : κ'} {r' : ν'} {ok' : Option Bool} :
    (if (regEntry m k r ok).2 = some true then (regEntry m' k' r' ok').2 else (regEntry m k r ok).2) = none ↔
      m.lookup k = none ∧ ok = none ∨
        ((m.lookup k).isSome = true ∨ ok = some true) ∧ m'.lookup k' = none ∧ ok' = none := by
  split <;> rename_i hp
  · have hfirst := regEntry_true_iff.mp hp
    rw [regEntry_none_iff, and_iff_right hfirst, or_iff_right]
    rintro ⟨h1, h2⟩
    rw [h1, h2] at hfirst
    simp at hfirst
  · rw [regEntry_none_iff, or_iff_left fun h => hp (regEntry_true_iff.mpr h.1)]

/-- Every entry is good afterwards when those before were, and the new one is. -/
theorem forall_regEntry_iff {P : κ → ν → Prop} :
    (∀ k' v, (regEntry m k r ok).1.lookup k' = some v → P k' v) ↔
      (∀ k' v, m.lookup k' = some v → P k' v) ∧ P k ((m.lookup k).getD r) := by
  simp only [lookup_regEntry]
  constructor
  · intro h
    refine ⟨fun k' v hv => h k' v ?_, h k _ (if_pos rfl)⟩
    split
    · rename_i hk
      rw [← hk, hv]
      rfl
    · exact hv
  · rintro ⟨h, hk⟩ k' v hv
    split at hv
    · rename_i hkk
      obtain rfl := Option.some.inj hv
      rw [hkk]
      exact hk
    · exact h k' v hv

end RegEntry

end NatFramework.Risk

namespace NatFramework.Account

open Lib

/-! ## The account's stages -/

/-- The stage a registration fails at. -/
inductive RegError where
  | unknown
  | modInstr
  | riskPrd
  | riskInstr
  deriving DecidableEq, Repr

theorem RegError.none_iff {p q : Prop} [Decidable p] [Decidable q] {e e' : RegError} :
    (if ¬p then some e else if ¬q then some e' else none) = none ↔ p ∧ q := by
  by_cases hp : p <;> by_cases hq : q <;> simp [hp, hq]

namespace AccBase

variable (info : TradeBaseInfo)

/-- The account has the instrument, or `ModInstr::init` takes its multiple. -/
def Takes (name : String) (i : InstrumentInfo) (a : AccBase) : Prop :=
  a.isExistModInstr (info.nameHash name) = true ∨ 0 ≤ i.volMultiple

instance (name : String) (i : InstrumentInfo) (a : AccBase) : Decidable (a.Takes info name i) := by
  unfold Takes
  infer_instance

/-- Why `regInstr` answers `false`.
mirrors account/AccBase.cpp:22-54 -/
def regError (name : String) (a : AccBase) : Option RegError :=
  match info.find (info.nameHash name) with
  | none => some .unknown
  | some i => if a.Takes info name i then none else some .modInstr

variable {info} {a : AccBase} {name : String} {i : InstrumentInfo}

theorem isExistModInstr_regPrd (prdName : String) (h : Hash) :
    (a.regModPrd info prdName).isExistModInstr h = a.isExistModInstr h := by
  unfold regModPrd
  dsimp only
  split <;> rfl

/-- A known instrument has its entry after any registration. -/
theorem isExistModInstr_regInstr (hi : info.find (info.nameHash name) = some i) :
    (a.regInstr info name).1.isExistModInstr (info.nameHash name) = true := by
  simp only [regInstr, hi]
  generalize (if a.isExistModPrd i.productHash = true then a else a.regModPrd info i.product) = b
  split
  · assumption
  · rename_i hx
    simp only [regModInstr, hx, hi]
    cases (b.instrAt (info.nameHash name)).init name i.volMultiple <;>
      simp [isExistModInstr, link]

theorem regInstr_true_iff (hi : info.find (info.nameHash name) = some i) :
    (a.regInstr info name).2 = true ↔ a.Takes info name i := by
  have hb : ∀ b : AccBase,
      (b = if a.isExistModPrd i.productHash = true then a else a.regModPrd info i.product) →
        b.isExistModInstr (info.nameHash name) = a.isExistModInstr (info.nameHash name) := by
    rintro b rfl
    split
    · rfl
    · exact isExistModInstr_regPrd _ _
  simp only [regInstr, Takes, hi]
  generalize hbe : (if a.isExistModPrd i.productHash = true then a
    else a.regModPrd info i.product) = b
  rw [← hb b hbe.symm]
  split <;> rename_i hx
  · simp [hx]
  · simp only [regModInstr, hx, hi, ModInstr.init]
    by_cases hv : i.volMultiple < 0
    · simp [hv]
    · simp [hv]
      omega

theorem regError_none_iff (hi : info.find (info.nameHash name) = some i) :
    a.regError info name = none ↔ a.Takes info name i := by
  simp [regError, hi]

/-- `regError` is the reason. -/
theorem regInstr_true_iff_regError :
    (a.regInstr info name).2 = true ↔ a.regError info name = none := by
  cases hi : info.find (info.nameHash name) with
  | none => simp [regInstr, regError, hi]
  | some i => rw [regInstr_true_iff hi, regError_none_iff hi]

variable (info) in
/-- A registration that fails goes on failing for the same reason, whatever is
called in between. -/
def Atomic (name : String) (a : AccBase) : Prop :=
  (a.regInstr info name).2 = false → ∀ es,
    ((AccEvent.anySys ℚ info).exec (a.regInstr info name).1 es).regError info name =
      a.regError info name

theorem atomic_iff : a.Atomic info name ↔
    ∀ i, info.find (info.nameHash name) = some i → a.Takes info name i := by
  constructor
  · intro h i hi
    by_contra hn
    have hf : (a.regInstr info name).2 = false := by
      rw [← Bool.not_eq_true, regInstr_true_iff hi]
      exact hn
    have hagain : (a.regInstr info name).1.regError info name = a.regError info name := h hf []
    -- the entry that the failure has left is taken for registered
    rw [(regError_none_iff hi).mpr (Or.inl (isExistModInstr_regInstr hi)), eq_comm,
      regError_none_iff hi] at hagain
    exact hn hagain
  · intro h hf es
    unfold regError
    cases hi : info.find (info.nameHash name) with
    | none => rfl
    | some i =>
      rw [← Bool.not_eq_true, regInstr_true_iff hi] at hf
      exact absurd (h i hi) hf

end AccBase

end NatFramework.Account

namespace NatFramework.Risk

open Lib Account

variable {info : TradeBaseInfo} {tickPrice : Hash → ℚ}

/-! ## Records with the limits of the configuration -/

/-- The record of a product of the table, as a successful `init` leaves it. -/
def RiskPrd.Read (conf : RiskConf) (info : TradeBaseInfo) (k : Hash) (r : RiskPrd) : Prop :=
  ∃ h i, info.find h = some i ∧ i.productHash = k ∧ r.Initialised conf info i.product

/-- The record of an instrument of the table, as a successful `init` leaves it. -/
def RiskInstr.Read (conf : RiskConf) (info : TradeBaseInfo) (h : Hash) (r : RiskInstr) : Prop :=
  ∃ i, info.find h = some i ∧ r.Initialised conf info i

/-- The same of a strategy's record, whose limit of the price has been read. -/
def RiskInstrStg.Read (conf : RiskStgConf) (info : TradeBaseInfo) (tickPrice : Hash → ℚ) (h : Hash)
    (r : RiskInstrStg) : Prop :=
  ∃ i, info.find h = some i ∧ r.toRiskInstr.Initialised conf.toRiskConf info i ∧
    ∃ v, readValue conf.allowedPriceTick i.product i.instr = .value v ∧
      r.allowedPriceMarginThreshold = v * tickPrice i.instrHash

/-- The record that `map_risk_prd_` has for a product, or a new one. -/
theorem RiskPrd.read_getD_iff {conf : RiskConf} {h : Hash} {i : InstrumentInfo}
    (hi : info.find h = some i) {m : UMap Hash RiskPrd}
    (hm : ∀ k r, m.lookup k = some r → r.Read conf info k) (ab : AccBase) :
    RiskPrd.Read conf info i.productHash
      ((m.lookup i.productHash).getD (({} : RiskPrd).init conf info i.product ab).1) ↔
      conf.ReadsPrd i.product := by
  constructor
  · rintro ⟨h', i', hi', hk, ab', hinit⟩
    rw [← info.product_inj h' h i' i hi' hi hk, ← RiskPrd.init_true_iff, hinit]
  · intro hr
    cases hl : m.lookup i.productHash with
    | some r => exact hm _ r hl
    | none => exact ⟨h, i, hi, rfl, ab, Prod.ext rfl (RiskPrd.init_true_iff.mpr hr)⟩

theorem RiskInstr.Initialised.readsInstr {conf : RiskConf} {i : InstrumentInfo} {r : RiskInstr}
    (h : r.Initialised conf info i) : conf.ReadsInstr i := by
  obtain ⟨ab, ri, hinit, -⟩ := h
  rw [← RiskInstr.init_true_iff, hinit]

/-- The record that `map_risk_instr_` of a strategy has, or a new one. -/
theorem RiskInstrStg.read_getD_iff {conf : RiskStgConf} {h : Hash} {i : InstrumentInfo}
    (hi : info.find h = some i) {m : UMap Hash RiskInstrStg}
    (hm : ∀ k r, m.lookup k = some r → r.Read conf info tickPrice k) (ab : AccBase) :
    RiskInstrStg.Read conf info tickPrice h
      ((m.lookup h).getD (({} : RiskInstrStg).init conf info tickPrice i ab).1) ↔
      conf.toRiskConf.ReadsInstr i ∧ conf.ReadsPrice i := by
  constructor
  · rintro ⟨i', hi', hr, v, hv, -⟩
    obtain rfl : i = i' := by rw [hi] at hi'; simpa using hi'
    exact ⟨hr.readsInstr, by simp [RiskStgConf.ReadsPrice, hv, Setting.isValue]⟩
  · rintro ⟨hr, hp⟩
    cases hl : m.lookup h with
    | some r => exact hm _ r hl
    | none =>
      obtain ⟨v, hv⟩ := Setting.isValue_iff.mp hp
      rw [Option.getD_none, RiskInstrStg.init_of_value hv]
      exact ⟨i, hi, ⟨ab, _, Prod.ext rfl (RiskInstr.init_true_iff.mpr hr), rfl⟩, v, hv, rfl⟩

theorem RiskInstrStg.Read.onNew {conf : RiskStgConf} {h : Hash} {r : RiskInstrStg}
    (hr : r.Read conf info tickPrice h) (nano : Int) :
    RiskInstrStg.Read conf info tickPrice h { r with toRiskInstr := r.toRiskInstr.onNew nano } := by
  obtain ⟨i, hi, ⟨ab, ri, hinit, hset⟩, hpx⟩ := hr
  refine ⟨i, hi, ⟨ab, ri, hinit, ?_⟩, hpx⟩
  rw [← hset]
  unfold RiskInstr.onNew RiskInstr.settings
  dsimp only
  split <;> rfl

namespace RiskStg

variable (info tickPrice)

/-- Every limit a check compares with is the configuration's. -/
structure AllRead (s : RiskStg) : Prop where
  instr : ∀ h r, s.mapRiskInstr.lookup h = some r → r.Read s.jConf info tickPrice h
  prd : ∀ k r, s.mapRiskPrd.lookup k = some r → r.Read s.jConf.toRiskConf info k
  acc : ∃ r, RiskAcc.init s.jConf.toRiskConf r = (s.riskAcc, some true)

variable {info tickPrice} {s : RiskStg} {name : String} {i : InstrumentInfo}

/-! ## The strategy's stages -/

theorem regRiskPrd_eq {k : Hash} (hk : info.nameHash i.product = k) :
    s.regRiskPrd info i.product =
      let r := ({} : RiskPrd).init s.jConf.toRiskConf info i.product s.accBase
      ({ s with mapRiskPrd := (regEntry s.mapRiskPrd k r.1 r.2).1 },
        (regEntry s.mapRiskPrd k r.1 r.2).2) := by
  subst hk
  unfold regRiskPrd regEntry isExistRiskPrd
  dsimp only
  split <;> rename_i hx
  · rfl
  · have hnone : s.mapRiskPrd.lookup (info.nameHash i.product) = none := by simpa using hx
    rw [riskPrdAt, hnone]
    rfl

theorem regRiskInstr_eq (hi : info.find (info.nameHash name) = some i) :
    s.regRiskInstr info tickPrice name =
      let r := ({} : RiskInstrStg).init s.jConf info tickPrice i s.accBase
      ({ s with mapRiskInstr := (regEntry s.mapRiskInstr (info.nameHash name) r.1 r.2).1 },
        (regEntry s.mapRiskInstr (info.nameHash name) r.1 r.2).2) := by
  unfold regRiskInstr regEntry isExistRiskInstr
  dsimp only
  split <;> rename_i hx
  · rfl
  · have hnone : s.mapRiskInstr.lookup (info.nameHash name) = none := by simpa using hx
    rw [hi]
    dsimp only
    rw [riskInstrAt, hnone]
    rfl

/-- The three stages of a known instrument's registration. -/
theorem regInstr_eq (hi : info.find (info.nameHash name) = some i) :
    s.regInstr info tickPrice name =
      match s.accBase.regInstr info name with
      | (ab, false) => ({ s with accBase := ab }, some false)
      | (ab, true) =>
        match RiskStg.regRiskPrd info i.product { s with accBase := ab } with
        | (s, some true) => s.regRiskInstr info tickPrice name
        | (s, ok) => (s, ok) := by
  have hp : info.nameHash i.product = i.productHash := TradeBaseInfo.nameHash_product hi
  unfold regInstr
  rcases hab : s.accBase.regInstr info name with ⟨ab, _ | _⟩
  · rfl
  simp only [hi]
  have hprd : (if isExistRiskPrd i.productHash { s with accBase := ab } then
      (({ s with accBase := ab } : RiskStg), some true)
      else regRiskPrd info i.product { s with accBase := ab }) =
      regRiskPrd info i.product { s with accBase := ab } := by
    split
    · rename_i hx
      unfold regRiskPrd
      rw [hp]
      dsimp only
      rw [if_pos hx]
    · rfl
  rw [hprd]
  rcases hs : regRiskPrd info i.product { s with accBase := ab } with ⟨s1, _ | _ | _⟩
  · rfl
  · rfl
  dsimp only
  split
  · rename_i hx
    unfold regRiskInstr
    dsimp only
    rw [if_pos hx]
  · rfl

/-- A known instrument that the account takes: both entries are made, the second
one if the first is there or initialised. -/
theorem regInstr_of_takes (hi : info.find (info.nameHash name) = some i)
    (ht : s.accBase.Takes info name i) :
    let ab := (s.accBase.regInstr info name).1
    let p := ({} : RiskPrd).init s.jConf.toRiskConf info i.product ab
    let r := ({} : RiskInstrStg).init s.jConf info tickPrice i ab
    let mp := regEntry s.mapRiskPrd i.productHash p.1 p.2
    let mi := regEntry s.mapRiskInstr (info.nameHash name) r.1 r.2
    s.regInstr info tickPrice name =
      if mp.2 = some true then ({ s with accBase := ab, mapRiskPrd := mp.1, mapRiskInstr := mi.1 }, mi.2)
      else ({ s with accBase := ab, mapRiskPrd := mp.1 }, mp.2) := by
  intro ab p r mp mi
  have hok := (AccBase.regInstr_true_iff (a := s.accBase) hi).mpr ht
  have hab : s.accBase.regInstr info name = (ab, true) := Prod.ext rfl hok
  rw [regInstr_eq hi, hab]
  dsimp only
  rw [regRiskPrd_eq (TradeBaseInfo.nameHash_product hi)]
  dsimp only
  rcases hmp : regEntry s.mapRiskPrd i.productHash p.1 p.2 with ⟨m, _ | _ | _⟩
  · rw [show mp = (m, none) from hmp]
    rfl
  · rw [show mp = (m, some false) from hmp]
    rfl
  · rw [show mp = (m, some true) from hmp]
    dsimp only
    rw [regRiskInstr_eq hi]
    rfl

/-- The account's stage fails before any record. -/
theorem regInstr_of_not_takes (hi : info.find (info.nameHash name) = some i)
    (ht : ¬s.accBase.Takes info name i) :
    s.regInstr info tickPrice name =
      ({ s with accBase := (s.accBase.regInstr info name).1 }, some false) := by
  have hok : (s.accBase.regInstr info name).2 = false := by
    rwa [← Bool.not_eq_true, AccBase.regInstr_true_iff hi]
  have hab : s.accBase.regInstr info name = ((s.accBase.regInstr info name).1, false) :=
    Prod.ext rfl hok
  rw [regInstr_eq hi, hab]

/-- A registration that reaches the records leaves them all read when they were,
and the configuration has the settings of both. -/
theorem allRead_regInstr_iff (hi : info.find (info.nameHash name) = some i)
    (ht : s.accBase.Takes info name i) :
    (s.regInstr info tickPrice name).1.AllRead info tickPrice ↔
      s.AllRead info tickPrice ∧ s.jConf.ReadsPrd i.product ∧ s.jConf.ReadsInstr i ∧
        s.jConf.ReadsPrice i := by
  rw [regInstr_of_takes hi ht]
  generalize (s.accBase.regInstr info name).1 = ab
  split <;> rename_i hp
  · constructor
    · rintro ⟨hinstr, hprd, hacc⟩
      obtain ⟨hinstr, hr⟩ := forall_regEntry_iff.mp hinstr
      obtain ⟨hprd, hk⟩ := forall_regEntry_iff.mp hprd
      exact ⟨⟨hinstr, hprd, hacc⟩, (RiskPrd.read_getD_iff hi hprd ab).mp hk,
        (RiskInstrStg.read_getD_iff hi hinstr ab).mp hr⟩
    · rintro ⟨⟨hinstr, hprd, hacc⟩, hk, hr⟩
      exact ⟨forall_regEntry_iff.mpr ⟨hinstr, (RiskInstrStg.read_getD_iff hi hinstr ab).mpr hr⟩,
        forall_regEntry_iff.mpr ⟨hprd, (RiskPrd.read_getD_iff hi hprd ab).mpr hk⟩, hacc⟩
  · -- the product's settings are missing
    have hnot : ¬s.jConf.ReadsPrd i.product := fun h =>
      hp (regEntry_true_iff.mpr (Or.inr (RiskPrd.init_true_iff.mpr h)))
    refine iff_of_false ?_ fun h => hnot h.2.1
    rintro ⟨-, hprd, -⟩
    obtain ⟨hprd, hk⟩ := forall_regEntry_iff.mp hprd
    exact hnot ((RiskPrd.read_getD_iff hi hprd ab).mp hk)

end RiskStg

/-! ## Calls on a strategy's account -/

/-- A call on a `RiskStg`. -/
inductive StgCall where
  | regInstr (name : String)
  | check (dir : Dir) (off : Off) (px : ℚ) (vol : Int) (subs : SubsInstrInfo)
  | onNew (dir : Dir) (off : Off) (px : ℚ) (vol : Int) (h : Hash) (nano : Int)
  | onRtn (t : OrderTrack) (m : RtnMsg)
  | onOrderTrack (t : OrderTrack)
  | onTickPx (h : Hash) (px : ℚ)
  | onSwitchDay (stale : Option (Ptr Hash) → UnitVol)

namespace RiskStg

variable (info tickPrice)

def called (s : RiskStg) : StgCall → RiskStg
  | .regInstr name => (s.regInstr info tickPrice name).1
  | .check dir off px vol subs => (s.check info tickPrice dir off px vol subs).1
  | .onNew dir off px vol h nano => s.onNew info dir off px vol h nano
  | .onRtn t m => s.onRtn info t m
  | .onOrderTrack t => s.onOrderTrack info t
  | .onTickPx h px => s.onTickPx info h px
  | .onSwitchDay stale => s.onSwitchDay stale

/-- The call comes back: it does not end the process at a missing node. -/
def Returns (s : RiskStg) : StgCall → Prop
  | .regInstr name => (s.regInstr info tickPrice name).2 ≠ none
  | .check dir off px vol subs => (s.check info tickPrice dir off px vol subs).2.2 ≠ none
  | _ => True

instance (s : RiskStg) : (c : StgCall) → Decidable (s.Returns info tickPrice c)
  | .regInstr _ => inferInstanceAs (Decidable (_ ≠ none))
  | .check .. => inferInstanceAs (Decidable (_ ≠ none))
  | .onNew .. | .onRtn .. | .onOrderTrack _ | .onTickPx .. | .onSwitchDay _ => isTrue trivial

/-- Runs of calls that meet `ok` and come back, from an account that `init` has
accepted. -/
def calls (ok : RiskStg → StgCall → Prop) : Sys RiskStg StgCall where
  start s := s.mapRiskInstr = ∅ ∧ s.mapRiskPrd = ∅ ∧
    ∃ r, RiskAcc.init s.jConf.toRiskConf r = (s.riskAcc, some true)
  ok s c := ok s c ∧ s.Returns info tickPrice c
  next := called info tickPrice

/-- `onNew` follows a check that has let the order through: its instrument has a
record. -/
def Checked (s : RiskStg) : StgCall → Prop
  | .onNew _ _ _ _ h _ => (s.mapRiskInstr.lookup h).isSome
  | _ => True

/-- The stage at which `regInstr` stops, if it does.
mirrors risk/RiskStg.cpp:32-68 -/
def regError (name : String) (s : RiskStg) : Option RegError :=
  match s.accBase.regError info name with
  | some e => some e
  | none =>
    match info.find (info.nameHash name) with
    | none => some .unknown
    | some i =>
      if ¬((s.mapRiskPrd.lookup i.productHash).isSome ∨ s.jConf.ReadsPrd i.product) then some .riskPrd
      else if ¬((s.mapRiskInstr.lookup (info.nameHash name)).isSome ∨
          s.jConf.PassesPrice tickPrice i ∧ s.jConf.ReadsInstr i) then some .riskInstr
      else none

/-- The instrument is not in the table, or the account takes it and the
configuration has all its settings. -/
def RegOk (name : String) (s : RiskStg) : Prop :=
  ∀ i, info.find (info.nameHash name) = some i →
    s.accBase.Takes info name i ∧ s.jConf.ReadsPrd i.product ∧ s.jConf.ReadsInstr i ∧
      s.jConf.ReadsPrice i

/-- Of the settings a registration comes to the first without a value is missing
from the configuration: the process ends. -/
def RegEnds (name : String) (s : RiskStg) : Prop :=
  ∃ i, info.find (info.nameHash name) = some i ∧ s.accBase.Takes info name i ∧
    (s.mapRiskPrd.lookup i.productHash = none ∧ s.jConf.prdAnswer i.product = none ∨
      ((s.mapRiskPrd.lookup i.productHash).isSome ∨ s.jConf.ReadsPrd i.product) ∧
        s.mapRiskInstr.lookup (info.nameHash name) = none ∧
        s.jConf.priceAnswer tickPrice i (s.jConf.instrAnswer i) = none)

/-- What a registration that comes back should leave: no record without its
limits; and when it fails, it goes on failing for the same reason, and a check
is answered so. -/
structure Atomic (name : String) (s : RiskStg) : Prop where
  allRead : (s.regInstr info tickPrice name).2 ≠ none →
    (s.regInstr info tickPrice name).1.AllRead info tickPrice
  again : (s.regInstr info tickPrice name).2 = some false → ∀ es,
    (calls info tickPrice Checked).Admits (s.regInstr info tickPrice name).1 es →
      let s' := (calls info tickPrice Checked).exec (s.regInstr info tickPrice name).1 es
      (s'.regInstr info tickPrice name).2 = some false ∧
        s'.regError info tickPrice name = s.regError info tickPrice name
  refused : (s.regInstr info tickPrice name).2 = some false → ∀ es,
    (calls info tickPrice Checked).Admits (s.regInstr info tickPrice name).1 es →
      ∀ dir off px vol subs, subs.baseInfo.instr = name →
        subs.baseInfo.instrHash = info.nameHash name →
        (((calls info tickPrice Checked).exec (s.regInstr info tickPrice name).1 es).check info
          tickPrice dir off px vol subs).2.2 = some (-403)

variable {info tickPrice} {s : RiskStg} {name : String} {i : InstrumentInfo} {h : Hash}

/-- `regError` is where it stops. -/
theorem regInstr_true_iff_regError :
    (s.regInstr info tickPrice name).2 = some true ↔ s.regError info tickPrice name = none := by
  unfold regError
  cases hi : info.find (info.nameHash name) with
  | none =>
    have ha : s.accBase.regError info name = some .unknown := by simp [AccBase.regError, hi]
    have hab : s.accBase.regInstr info name = (s.accBase, false) := by simp [AccBase.regInstr, hi]
    simp [ha, regInstr, hab]
  | some i =>
    by_cases ht : s.accBase.Takes info name i
    · rw [(AccBase.regError_none_iff hi).mpr ht, regInstr_of_takes hi ht]
      dsimp only
      rw [apply_ite Prod.snd, regEntries_true_iff, RiskPrd.init_true_iff, RiskInstrStg.init_true_iff,
        RegError.none_iff]
    · have hne : s.accBase.regError info name ≠ none := by rwa [ne_eq, AccBase.regError_none_iff hi]
      obtain ⟨e, he⟩ := Option.ne_none_iff_exists'.mp hne
      rw [he, regInstr_of_not_takes hi ht]
      simp

theorem regInstr_none_iff :
    (s.regInstr info tickPrice name).2 = none ↔ s.RegEnds info tickPrice name := by
  cases hi : info.find (info.nameHash name) with
  | none =>
    have hab : s.accBase.regInstr info name = (s.accBase, false) := by simp [AccBase.regInstr, hi]
    simp [RegEnds, hi, regInstr, hab]
  | some i =>
    simp only [RegEnds, hi, Option.some.injEq, exists_eq_left']
    by_cases ht : s.accBase.Takes info name i
    · rw [regInstr_of_takes hi ht, apply_ite Prod.snd, regEntries_none_iff, RiskPrd.init_true_iff, RiskPrd.snd_init, RiskInstrStg.snd_init]
      simp only [ht, true_and]
    · rw [regInstr_of_not_takes hi ht]
      simp [ht]

/-! ### Unknown instruments -/

theorem regInstr_of_unknown (hi : info.find (info.nameHash name) = none) :
    s.regInstr info tickPrice name = (s, some false) := by
  have hab : s.accBase.regInstr info name = (s.accBase, false) := by simp [AccBase.regInstr, hi]
  unfold regInstr
  rw [hab]

theorem regError_of_unknown (hi : info.find (info.nameHash name) = none) :
    s.regError info tickPrice name = some .unknown := by
  simp [regError, AccBase.regError, hi]

/-- No registration makes a record of an unknown instrument. -/
theorem lookup_regInstr_of_unknown (hu : info.find h = none) :
    (s.regInstr info tickPrice name).1.mapRiskInstr.lookup h = s.mapRiskInstr.lookup h := by
  refine @regInstr_records info tickPrice s
    (fun t => t.mapRiskInstr.lookup h = s.mapRiskInstr.lookup h) name rfl ?_ ?_
  · intro t n ht
    unfold regRiskPrd
    dsimp only
    split <;> exact ht
  · intro t n ht
    unfold regRiskInstr
    dsimp only
    split
    · exact ht
    · split
      · exact ht
      · rename_i i hi
        have hne : h ≠ info.nameHash n := fun he => by rw [he, hi] at hu; cases hu
        dsimp only
        rwa [UMap.lookup_insert_ite, if_neg hne]

theorem lookup_findOrReg_of_unknown (hu : info.find h = none) (j : InstrumentInfo) :
    (s.findOrReg info tickPrice j).1.mapRiskInstr.lookup h = s.mapRiskInstr.lookup h := by
  rw [findOrReg_fst]
  split
  · exact lookup_regInstr_of_unknown hu
  · rfl

theorem lookup_called_of_unknown (hu : info.find h = none) {c : StgCall}
    (hn : s.mapRiskInstr.lookup h = none) (hc : s.Checked c) :
    (s.called info tickPrice c).mapRiskInstr.lookup h = none := by
  cases c with
  | regInstr name => exact (lookup_regInstr_of_unknown hu).trans hn
  | check dir off px vol subs =>
    simp only [called, fst_check]
    exact (lookup_findOrReg_of_unknown hu _).trans hn
  | onNew dir off px vol h' nano =>
    have hne : h ≠ h' := fun he => by rw [Checked, ← he, hn] at hc; cases hc
    simp only [called, onNew]
    rwa [UMap.lookup_insert_ite, if_neg hne]
  | onRtn t m => exact hn
  | onOrderTrack t => exact hn
  | onTickPx h' px => exact hn
  | onSwitchDay stale =>
    simp only [called, onSwitchDay]
    rw [UMap.lookup_sweep, hn]
    rfl

theorem check_of_unknown {dir : Dir} {off : Off} {px : ℚ} {vol : Int} {subs : SubsInstrInfo}
    (hi : info.find (info.nameHash subs.baseInfo.instr) = none)
    (hn : s.mapRiskInstr.lookup subs.baseInfo.instrHash = none) :
    (s.check info tickPrice dir off px vol subs).2.2 = some (-403) := by
  simp only [check, findOrReg, hn, regInstr_of_unknown hi]

theorem AllRead.lookup_of_unknown (hs : s.AllRead info tickPrice) (hu : info.find h = none) :
    s.mapRiskInstr.lookup h = none := by
  cases hl : s.mapRiskInstr.lookup h with
  | none => rfl
  | some r =>
    obtain ⟨i, hi, -⟩ := hs.instr h r hl
    rw [hu] at hi
    cases hi

/-! ### When a registration is atomic -/

/-- A failure before the records is not repeated: the account has the entry then. -/
theorem not_atomic_of_not_takes (hi : info.find (info.nameHash name) = some i)
    (ht : ¬s.accBase.Takes info name i) : ¬s.Atomic info tickPrice name := by
  intro ha
  have hreg : s.regInstr info tickPrice name = (_, some false) := regInstr_of_not_takes hi ht
  have hagain : (s.regInstr info tickPrice name).1.regError info tickPrice name =
      s.regError info tickPrice name := (ha.again (by rw [hreg]) [] trivial).2
  have hs : s.regError info tickPrice name = some .modInstr := by
    simp [regError, AccBase.regError, hi, ht]
  have hs' : (s.accBase.regInstr info name).1.regError info name = none :=
    (AccBase.regError_none_iff hi).mpr (Or.inl (AccBase.isExistModInstr_regInstr hi))
  rw [hs, hreg] at hagain
  unfold regError at hagain
  rw [hs', hi] at hagain
  dsimp only at hagain
  split at hagain
  · cases hagain
  · split at hagain <;> cases hagain

/-- A registration that cannot fail. -/
theorem regInstr_of_regOk (hi : info.find (info.nameHash name) = some i) (hok : s.RegOk info name) :
    (s.regInstr info tickPrice name).2 = some true := by
  obtain ⟨ht, hp, hr, hpx⟩ := hok i hi
  rw [regInstr_true_iff_regError, regError, (AccBase.regError_none_iff hi).mpr ht, hi]
  simp [hp, hr, hpx.passes tickPrice]

theorem AllRead.regInstr (hs : s.AllRead info tickPrice) (hok : s.RegOk info name) :
    (s.regInstr info tickPrice name).1.AllRead info tickPrice := by
  cases hi : info.find (info.nameHash name) with
  | none =>
    rw [regInstr_of_unknown hi]
    exact hs
  | some i =>
    obtain ⟨ht, hr⟩ := hok i hi
    exact (allRead_regInstr_iff hi ht).mpr ⟨hs, hr⟩

theorem atomic_iff : s.Atomic info tickPrice name ↔
    s.RegEnds info tickPrice name ∨ s.AllRead info tickPrice ∧ s.RegOk info name := by
  rw [← regInstr_none_iff]
  cases hi : info.find (info.nameHash name) with
  | none =>
    have hreg : s.regInstr info tickPrice name = (s, some false) := regInstr_of_unknown hi
    have hok : s.RegOk info name := fun i h => by rw [hi] at h; cases h
    have hsame : (s.regInstr info tickPrice name).1 = s := by rw [hreg]
    have hne : (s.regInstr info tickPrice name).2 ≠ none := by rw [hreg]; simp
    refine ⟨fun h => Or.inr ⟨hsame ▸ h.allRead hne, hok⟩, ?_⟩
    rintro (h | ⟨hs, -⟩)
    · exact absurd h hne
    rw [← hsame] at hs
    refine ⟨fun _ => hs, fun _ es _ => ⟨?_, ?_⟩, fun _ es hadm dir off px vol subs hn hh => ?_⟩
    · rw [regInstr_of_unknown hi]
    · rw [regError_of_unknown hi, regError_of_unknown hi]
    · refine check_of_unknown (hn ▸ hi) ?_
      rw [hh]
      exact (calls info tickPrice Checked).invariant_run
        (I := fun t => t.mapRiskInstr.lookup (info.nameHash name) = none)
        (fun t c ht hc => lookup_called_of_unknown hi ht hc.1) _ es (hs.lookup_of_unknown hi) hadm
  | some i =>
    constructor
    · intro h
      refine or_iff_not_imp_left.mpr fun hne => ?_
      by_cases ht : s.accBase.Takes info name i
      · obtain ⟨hs, hr⟩ := (allRead_regInstr_iff hi ht).mp (h.allRead hne)
        refine ⟨hs, fun j hj => ?_⟩
        obtain rfl : i = j := by rw [hi] at hj; simpa using hj
        exact ⟨ht, hr⟩
      · exact absurd h (not_atomic_of_not_takes hi ht)
    · rintro (hnone | ⟨hs, hok⟩)
      · exact ⟨fun h => absurd hnone h, fun hf => absurd (hnone.symm.trans hf) (by decide),
          fun hf => absurd (hnone.symm.trans hf) (by decide)⟩
      · have htrue : (s.regInstr info tickPrice name).2 = some true := regInstr_of_regOk hi hok
        exact ⟨fun _ => hs.regInstr hok, fun hf => absurd (htrue.symm.trans hf) (by decide),
          fun hf => absurd (htrue.symm.trans hf) (by decide)⟩

/-! ### Runs of atomic registrations -/

variable (info tickPrice) in
/-- An instrument with a record has the record of its product. -/
def HasPrd (s : RiskStg) : Prop :=
  ∀ h i, info.find h = some i → (s.mapRiskInstr.lookup h).isSome →
    (s.mapRiskPrd.lookup i.productHash).isSome

variable (info tickPrice) in
/-- A call that neither fails to register for want of the settings, nor makes or
orphans a record beside the registration. -/
def Sound (s : RiskStg) : StgCall → Prop
  | .regInstr name => s.RegEnds info tickPrice name ∨ s.RegOk info name
  | .check _ _ _ _ subs =>
    s.mapRiskInstr.lookup subs.baseInfo.instrHash = none →
      s.RegEnds info tickPrice subs.baseInfo.instr ∨ s.RegOk info subs.baseInfo.instr
  | .onNew _ _ _ _ h _ => (s.mapRiskInstr.lookup h).isSome
  | .onSwitchDay stale =>
    -- a product has volume wherever one of its instruments has
    ∀ h i r p, info.find h = some i → s.mapRiskInstr.lookup h = some r →
      s.mapRiskPrd.lookup i.productHash = some p →
      (instrVol stale s.accBase.onSwitchDay r.pUnitVol).posLong ≠ 0 ∨
        (instrVol stale s.accBase.onSwitchDay r.pUnitVol).posShort ≠ 0 →
      (prdVol stale s.accBase.onSwitchDay p.pUnitVol).posLong ≠ 0 ∨
        (prdVol stale s.accBase.onSwitchDay p.pUnitVol).posShort ≠ 0
  | _ => True

theorem HasPrd.regInstr (hs : s.HasPrd info) :
    (s.regInstr info tickPrice name).1.HasPrd info := by
  cases hi : info.find (info.nameHash name) with
  | none =>
    rw [regInstr_of_unknown hi]
    exact hs
  | some i =>
    by_cases ht : s.accBase.Takes info name i
    · rw [regInstr_of_takes hi ht]
      generalize (s.accBase.regInstr info name).1 = ab
      split
      · intro h j hj hl
        dsimp only at hl ⊢
        rw [lookup_regEntry] at hl
        split at hl
        · rename_i hh
          obtain rfl : i = j := by rw [hh, hi] at hj; simpa using hj
          rw [lookup_regEntry, if_pos rfl]
          rfl
        · exact isSome_regEntry (hs h j hj hl)
      · intro h j hj hl
        exact isSome_regEntry (hs h j hj hl)
    · rw [regInstr_of_not_takes hi ht]
      exact hs

theorem AllRead.findOrReg (hs : s.AllRead info tickPrice) {j : InstrumentInfo}
    (hok : s.mapRiskInstr.lookup j.instrHash = none → s.RegOk info j.instr) :
    (s.findOrReg info tickPrice j).1.AllRead info tickPrice := by
  rw [findOrReg_fst]
  split
  · exact hs.regInstr (hok ‹_›)
  · exact hs

theorem HasPrd.findOrReg (hs : s.HasPrd info) (j : InstrumentInfo) :
    (s.findOrReg info tickPrice j).1.HasPrd info := by
  rw [findOrReg_fst]
  split
  · exact hs.regInstr
  · exact hs

/-- A record kept by a switch of the day is one of those before. -/
theorem lookup_onSwitchDay {stale : Option (Ptr Hash) → UnitVol} {r : RiskInstrStg} :
    (s.onSwitchDay stale).mapRiskInstr.lookup h = some r ↔ s.mapRiskInstr.lookup h = some r ∧
      ((instrVol stale s.accBase.onSwitchDay r.pUnitVol).posLong ≠ 0 ∨
        (instrVol stale s.accBase.onSwitchDay r.pUnitVol).posShort ≠ 0) := by
  unfold onSwitchDay
  dsimp only
  rw [UMap.mem_sweep]
  constructor
  · rintro ⟨w, hw, hg⟩
    split at hg <;> rename_i hflat
    · cases hg
    · obtain rfl := Option.some.inj hg
      exact ⟨hw, by rwa [← not_and_or]⟩
  · rintro ⟨hr, hvol⟩
    exact ⟨r, hr, if_neg (by rwa [not_and_or])⟩

theorem lookupPrd_onSwitchDay {stale : Option (Ptr Hash) → UnitVol} {k : Hash} {p : RiskPrd} :
    (s.onSwitchDay stale).mapRiskPrd.lookup k = some p ↔ s.mapRiskPrd.lookup k = some p ∧
      ((prdVol stale s.accBase.onSwitchDay p.pUnitVol).posLong ≠ 0 ∨
        (prdVol stale s.accBase.onSwitchDay p.pUnitVol).posShort ≠ 0) := by
  unfold onSwitchDay
  dsimp only
  rw [UMap.mem_sweep]
  constructor
  · rintro ⟨w, hw, hg⟩
    split at hg <;> rename_i hflat
    · cases hg
    · obtain rfl := Option.some.inj hg
      exact ⟨hw, by rwa [← not_and_or]⟩
  · rintro ⟨hr, hvol⟩
    exact ⟨p, hr, if_neg (by rwa [not_and_or])⟩

/-- A check that has to register does not come back when that does not. -/
theorem findOrReg_none (j : InstrumentInfo) (hn : s.mapRiskInstr.lookup j.instrHash = none)
    (he : (s.regInstr info tickPrice j.instr).2 = none) :
    (s.findOrReg info tickPrice j).2 = .error none := by
  unfold findOrReg
  rw [hn]
  dsimp only
  split <;> rename_i hx <;> rw [hx] at he
  all_goals cases he

theorem regInstr_of_returns {dir : Dir} {off : Off} {px : ℚ} {vol : Int} {subs : SubsInstrInfo}
    (hr : s.Returns info tickPrice (.check dir off px vol subs))
    (hn : s.mapRiskInstr.lookup subs.baseInfo.instrHash = none) :
    (s.regInstr info tickPrice subs.baseInfo.instr).2 ≠ none := by
  refine fun he => hr ?_
  unfold check
  rcases hf : s.findOrReg info tickPrice subs.baseInfo with ⟨s', ret⟩
  have hret : ret = .error none := by rw [← findOrReg_none _ hn he, hf]
  rw [hret]

theorem regOk_of_sound {dir : Dir} {off : Off} {px : ℚ} {vol : Int} {subs : SubsInstrInfo}
    (hc : s.Sound info tickPrice (.check dir off px vol subs))
    (hr : s.Returns info tickPrice (.check dir off px vol subs))
    (hn : s.mapRiskInstr.lookup subs.baseInfo.instrHash = none) : s.RegOk info subs.baseInfo.instr :=
  (hc hn).resolve_left fun he => regInstr_of_returns hr hn (regInstr_none_iff.mpr he)

theorem read_called (hs : s.AllRead info tickPrice ∧ s.HasPrd info) {c : StgCall}
    (hc : s.Sound info tickPrice c) (hr : s.Returns info tickPrice c) : (s.called info tickPrice c).AllRead info tickPrice ∧
      (s.called info tickPrice c).HasPrd info := by
  cases c with
  | regInstr name =>
    exact ⟨hs.1.regInstr (hc.resolve_left fun h => hr (regInstr_none_iff.mpr h)), hs.2.regInstr⟩
  | check dir off px vol subs =>
    simp only [called, fst_check]
    exact ⟨hs.1.findOrReg (regOk_of_sound hc hr), hs.2.findOrReg _⟩
  | onNew dir off px vol h nano =>
    obtain ⟨r, hr⟩ := Option.isSome_iff_exists.mp hc
    have hat : riskInstrAt h s = r := by rw [riskInstrAt, hr]; rfl
    have hat' : riskInstrAt h { s with accBase := s.accBase.onNew info dir off px vol h } = r := hat
    simp only [called, onNew, hat']
    refine ⟨⟨fun h' r' hr' => ?_, hs.1.prd, hs.1.acc⟩, fun h' i hi hl => ?_⟩
    · dsimp only at hr'
      rw [UMap.lookup_insert_ite] at hr'
      split at hr' <;> rename_i hh
      · obtain rfl := Option.some.inj hr'
        rw [hh]
        exact (hs.1.instr h r hr).onNew nano
      · exact hs.1.instr h' r' hr'
    · dsimp only at hl
      rw [UMap.lookup_insert_ite] at hl
      split at hl <;> rename_i hh
      · exact hs.2 h' i hi (by rw [hh]; exact hc)
      · exact hs.2 h' i hi hl
  | onRtn t m => exact ⟨⟨hs.1.instr, hs.1.prd, hs.1.acc⟩, hs.2⟩
  | onOrderTrack t => exact ⟨⟨hs.1.instr, hs.1.prd, hs.1.acc⟩, hs.2⟩
  | onTickPx h px => exact ⟨⟨hs.1.instr, hs.1.prd, hs.1.acc⟩, hs.2⟩
  | onSwitchDay stale =>
    refine ⟨⟨fun h r hr => ?_, fun k p hp => ?_, hs.1.acc⟩, fun h i hi hl => ?_⟩
    · exact hs.1.instr h r (lookup_onSwitchDay.mp hr).1
    · exact hs.1.prd k p (lookupPrd_onSwitchDay.mp hp).1
    · obtain ⟨r, hr⟩ := Option.isSome_iff_exists.mp hl
      obtain ⟨hr, hvol⟩ := lookup_onSwitchDay.mp hr
      obtain ⟨p, hp⟩ := Option.isSome_iff_exists.mp (hs.2 h i hi (by rw [hr]; rfl))
      exact Option.isSome_iff_exists.mpr ⟨p, lookupPrd_onSwitchDay.mpr ⟨hp, hc h i r p hi hr hp hvol⟩⟩

theorem read_of_reachable (hr : (calls info tickPrice (Sound info tickPrice)).Reachable s) :
    s.AllRead info tickPrice ∧ s.HasPrd info := by
  refine (calls info tickPrice (Sound info tickPrice)).invariant
    (I := fun s => s.AllRead info tickPrice ∧ s.HasPrd info) ?_
    (fun s c hs hc => read_called hs hc.1 hc.2) hr
  rintro s ⟨hi, hp, hacc⟩
  refine ⟨⟨fun h r hl => ?_, fun k p hl => ?_, hacc⟩, fun h i _ hl => ?_⟩ <;>
    first | rw [hi] at hl | rw [hp] at hl
  all_goals cases hl

/-- The records a check compares an order with have been read. -/
theorem read_findOrReg (hs : s.AllRead info tickPrice ∧ s.HasPrd info) {dir : Dir} {off : Off} {px : ℚ}
    {vol : Int} {subs : SubsInstrInfo} (hc : s.Sound info tickPrice (.check dir off px vol subs))
    {s' : RiskStg} {r : RiskInstrStg} (hf : s.findOrReg info tickPrice subs.baseInfo = (s', .ok r)) :
    r.Read s'.jConf info tickPrice subs.baseInfo.instrHash ∧
      ∀ i, info.find subs.baseInfo.instrHash = some i →
        ∃ p, s'.mapRiskPrd.lookup i.productHash = some p ∧
          p.Read s'.jConf.toRiskConf info i.productHash := by
  have hok : s.mapRiskInstr.lookup subs.baseInfo.instrHash = none → s.RegOk info subs.baseInfo.instr := by
    refine fun hn => (hc hn).resolve_left fun he => ?_
    have hnone := findOrReg_none subs.baseInfo hn (regInstr_none_iff.mpr he)
    rw [hf] at hnone
    cases hnone
  have hs' : s'.AllRead info tickPrice := by
    have h1 := hs.1.findOrReg hok
    rwa [hf] at h1
  have hp' : s'.HasPrd info := by
    have h2 : (s.findOrReg info tickPrice subs.baseInfo).1.HasPrd info := hs.2.findOrReg _
    rwa [hf] at h2
  have hl := findOrReg_ok hf
  refine ⟨hs'.instr _ r hl, fun i hi => ?_⟩
  obtain ⟨p, hp⟩ := Option.isSome_iff_exists.mp (hp' _ i hi (by rw [hl]; rfl))
  exact ⟨p, hp, hs'.prd _ p hp⟩

end RiskStg

/-- The configuration of the tests with a limit of the price. -/
def rbPriced : RiskStgConf :=
  { Desk.rbConf with
    allowedPriceTick := .value fun k => if k = "default" then .value 5 else .missing }

/-- A strategy's account under `conf`. -/
def stgOf (conf : RiskStgConf) : RiskStg :=
  { jConf := conf, riskAcc := (RiskAcc.init conf.toRiskConf {}).1 }

end NatFramework.Risk
