import NatFramework.Risk.Register

/-!
# The risk records' pointers into the account

A record of `RiskStg` keeps the address of its instrument's, or product's,
`UnitVol` in `acc_base_`. `onSwitchDay` lets the account erase what is flat and
then asks each record, through that address, whether it is flat.

* `VolRead`, `ReadsValid`: the pointers a call reads, in the state it reads them in.
* `Linked`: every record points at the node of its key.
* `linked_called`: what keeps a call from breaking it. A day switch with a flat
  record breaks it at its own reads (`readsValid_onSwitchDay_iff`).
-/
namespace NatFramework.Risk

open Lib Account

variable {info : TradeBaseInfo} {tickPrice : Hash → ℚ}

/-! ## The account keeps its nodes between the switches of the day -/

/-- No node of the account has been erased, and none has moved. -/
structure AccGrows (a a' : AccBase) : Prop where
  instr : a.mapInstr.Grows a'.mapInstr
  prd : a.mapPrd.Grows a'.mapPrd

theorem AccGrows.refl (a : AccBase) : AccGrows a a := ⟨.refl _, .refl _⟩

theorem AccGrows.trans {a b c : AccBase} (h : AccGrows a b) (h' : AccGrows b c) : AccGrows a c :=
  ⟨h.instr.trans h'.instr, h.prd.trans h'.prd⟩

theorem grows_setInstr (a : AccBase) (h : Hash) (m : ModInstr) :
    AccGrows a { a with mapInstr := a.mapInstr.set h m } :=
  ⟨NodeMap.grows_set _ _ _, .refl _⟩

theorem grows_setPrd (a : AccBase) (k : Hash) (p : ModPrd) :
    AccGrows a { a with mapPrd := a.mapPrd.set k p } :=
  ⟨.refl _, NodeMap.grows_set _ _ _⟩

theorem grows_regModPrd (a : AccBase) (prdName : String) : AccGrows a (a.regModPrd info prdName) := by
  unfold AccBase.regModPrd
  dsimp only
  split
  · exact .refl a
  · exact grows_setPrd a _ _

theorem grows_regModInstr (a : AccBase) (name : String) :
    AccGrows a (a.regModInstr info name).1 := by
  unfold AccBase.regModInstr
  dsimp only
  split
  · exact .refl a
  · split
    · exact .refl a
    · split
      · exact grows_setInstr a _ _
      · exact grows_setInstr a _ _

theorem grows_link (a : AccBase) (h k : Hash) : AccGrows a (a.link h k) := by
  have ht : AccGrows a (a.touchPrd k) := by
    unfold AccBase.touchPrd
    split
    · exact .refl a
    · exact grows_setPrd a _ _
  exact ht.trans (grows_setInstr _ _ _)

theorem grows_regInstr (a : AccBase) (name : String) : AccGrows a (a.regInstr info name).1 := by
  unfold AccBase.regInstr
  dsimp only
  split
  · exact .refl a
  · rename_i i _
    have hp : ∀ b : AccBase,
        (b = if a.isExistModPrd i.productHash = true then a else a.regModPrd info i.product) →
          AccGrows a b := by
      rintro b rfl
      split
      · exact .refl a
      · exact grows_regModPrd a _
    generalize hb : (if a.isExistModPrd i.productHash = true then a
      else a.regModPrd info i.product) = b
    have hab := hp b hb.symm
    have hbm : AccGrows b (b.regModInstr info name).1 := grows_regModInstr b name
    split
    · exact hab
    · split <;> rename_i hx <;> rw [hx] at hbm
      · exact hab.trans hbm
      · exact (hab.trans hbm).trans (grows_link _ _ _)

theorem grows_onInstr (a : AccBase) (h : Hash) (f : Books → Books) :
    AccGrows a (a.onInstr info h f) := by
  unfold AccBase.onInstr
  split
  · exact .refl a
  · rename_i i _
    have hr : AccGrows a (a.regInstr info i.instr).1 := grows_regInstr a i.instr
    split <;> rename_i b hx <;> rw [hx] at hr
    · exact hr
    · refine hr.trans ?_
      unfold AccBase.withBooks
      split
      · exact .refl b
      · split
        · split
          · exact .refl b
          · exact ⟨NodeMap.grows_set _ _ _, NodeMap.grows_set _ _ _⟩
        · exact .refl b

/-- A registration the account takes leaves both entries. -/
theorem designated_regInstr {a : AccBase} {name : String} {i : InstrumentInfo}
    (hi : info.find (info.nameHash name) = some i) :
    ((a.regInstr info name).1.mapInstr.find (info.nameHash name)).isSome ∧
      ((a.regInstr info name).1.mapPrd.find i.productHash).isSome := by
  refine ⟨AccBase.isExistModInstr_regInstr hi, ?_⟩
  simp only [AccBase.regInstr, hi]
  have hp : ∀ b : AccBase,
      (b = if a.isExistModPrd i.productHash = true then a else a.regModPrd info i.product) →
        (b.mapPrd.find i.productHash).isSome := by
    rintro b rfl
    split
    · assumption
    · rename_i hx
      simp [AccBase.regModPrd, TradeBaseInfo.nameHash_product hi, hx]
  generalize hb : (if a.isExistModPrd i.productHash = true then a
    else a.regModPrd info i.product) = b
  have hbp := hp b hb.symm
  have hbm : AccGrows b (b.regModInstr info name).1 := grows_regModInstr b name
  split
  · exact hbp
  · split <;> rename_i hx <;> rw [hx] at hbm
    · exact hbm.prd.find _ hbp
    · exact (hbm.trans (grows_link _ _ _)).prd.find _ hbp

/-! ## Where a new record points -/

theorem RiskPrd.pUnitVol_init (conf : RiskConf) (prdName : String) (ab : AccBase) (r : RiskPrd) :
    (r.init conf info prdName ab).1.pUnitVol = some (ab.mapPrd.addr (info.nameHash prdName)) := by
  unfold RiskPrd.init
  dsimp only
  repeat' split
  all_goals rfl

theorem RiskInstrStg.pUnitVol_init {conf : RiskStgConf} {i : InstrumentInfo}
    (hp : conf.PassesPrice tickPrice i) (ab : AccBase) (r : RiskInstrStg) :
    (r.init conf info tickPrice i ab).1.pUnitVol = some (ab.mapInstr.addr i.instrHash) := by
  unfold RiskStgConf.PassesPrice RiskStgConf.priceAnswer at hp
  unfold RiskInstrStg.init
  cases hj : conf.allowedPriceTick with
  | missing =>
    rw [hj] at hp
    cases hp
  | unreadable =>
    rw [hj] at hp
    cases hp
  | value j =>
    rw [hj] at hp
    dsimp only at hp ⊢
    cases hv : getValue j i.product i.instr with
    | value v => exact RiskInstr.pUnitVol_init _ _ _ _
    | unreadable =>
      rw [hv] at hp
      cases hp
    | missing =>
      rw [hv] at hp
      dsimp only at hp ⊢
      split at hp
      · rename_i ht
        rw [if_neg fun h => h.2 ht]
        exact RiskInstr.pUnitVol_init _ _ _ _
      · cases hp

/-! ## The reads of `p_unit_vol` -/

/-- A read through the pointer of the instrument's, or the product's, record
under a key. -/
inductive VolRead where
  | instr (h : Hash) (p : Option (Ptr Hash))
  | prd (k : Hash) (p : Option (Ptr Hash))
  deriving DecidableEq, Repr

/-- The pointer designates the entry that the account has under the key now. -/
def VolRead.Valid (ab : AccBase) : VolRead → Prop
  | instr h p => ab.mapInstr.Designates h p
  | prd k p => ab.mapPrd.Designates k p

instance (ab : AccBase) (rd : VolRead) : Decidable (rd.Valid ab) := by
  unfold VolRead.Valid
  cases rd <;> infer_instance

/-- The volumes are read behind the price, the permission, the size and the
intensity.
mirrors risk/RiskInstrStg.cpp:64-71 and risk/RiskInstr.cpp:150-176 -/
def RiskInstrStg.reaches (px ask bid : ℚ) (vol nano : Int) (r : RiskInstrStg) : Bool :=
  r.isPriceCorrect px ask bid && r.isAllowed && r.isSizeCorrect vol && r.isIntensityNormal nano

namespace RiskStg

/-- Behind the choice of the offset; a product without a record is read past the
end of the map. -/
def offReads (dir : Dir) (off : Off) (px : ℚ) (vol : Int) (subs : SubsInstrInfo) (r : RiskInstrStg)
    (s : RiskStg) : List VolRead :=
  (if r.reaches px subs.askPx subs.bidPx vol subs.exchTime then
    [.instr subs.baseInfo.instrHash r.pUnitVol] else []) ++
  if r.check s.accBase dir off vol px subs.askPx subs.bidPx subs.exchTime = 0 then
    [.prd subs.baseInfo.productHash (s.riskPrdAt subs.baseInfo.productHash).pUnitVol] else []

/-- What `check` reads with the record it has found.
mirrors risk/RiskStg.cpp:131-162 -/
def checkReads (dir : Dir) (off : Off) (px : ℚ) (vol : Int) (subs : SubsInstrInfo) (r : RiskInstrStg)
    (s : RiskStg) : List VolRead :=
  if off = .auto ∨ off = .close then
    let chosen := r.parseAutoOffset s.accBase dir off vol
    (if dir = .buy ∨ dir = .sell then [.instr subs.baseInfo.instrHash r.pUnitVol] else []) ++
    if chosen.2 ≠ 0 then [] else s.offReads dir chosen.1 px vol subs r
  else s.offReads dir off px vol subs r

/-- What `onSwitchDay` reads: every record's pointer.
mirrors risk/RiskStg.cpp:192-219 -/
def switchReads (s : RiskStg) : List VolRead :=
  s.mapRiskInstr.entries.map (fun e => .instr e.1 e.2.pUnitVol) ++
    s.mapRiskPrd.entries.map fun e => .prd e.1 e.2.pUnitVol

variable (info tickPrice)

/-- Every read of a call is of a pointer that designates the entry under the
record's key, in the account as it is then. -/
def ReadsValid (s : RiskStg) : StgCall → Prop
  | .check dir off px vol subs =>
    ∀ s' r, s.findOrReg info tickPrice subs.baseInfo = (s', .ok r) →
      ∀ rd ∈ s'.checkReads dir off px vol subs r, rd.Valid s'.accBase
  | .onSwitchDay _ => ∀ rd ∈ s.switchReads, rd.Valid s.accBase.onSwitchDay
  | _ => True

/-- Every record points at the node of its key, and an instrument with a record
has the record of its product. -/
structure Linked (s : RiskStg) : Prop where
  instr : ∀ h r, s.mapRiskInstr.lookup h = some r → s.accBase.mapInstr.Designates h r.pUnitVol
  prd : ∀ k r, s.mapRiskPrd.lookup k = some r → s.accBase.mapPrd.Designates k r.pUnitVol
  hasPrd : s.HasPrd info

/-- A registration that comes to the instrument's record gets past the price, or
ends the process there. -/
def PriceOk (name : String) (s : RiskStg) : Prop :=
  ∀ i, info.find (info.nameHash name) = some i → s.accBase.Takes info name i →
    (s.mapRiskPrd.lookup i.productHash).isSome ∨ s.jConf.ReadsPrd i.product →
    s.mapRiskInstr.lookup (info.nameHash name) = none →
      s.jConf.PassesPrice tickPrice i ∨ s.jConf.allowedPriceTick = .missing

/-- No instrument or product with a record is flat. -/
structure NoneFlat (s : RiskStg) : Prop where
  instr : ∀ h r, s.mapRiskInstr.lookup h = some r →
    (s.accBase.instrAt h).unitVol.posLong ≠ 0 ∨ (s.accBase.instrAt h).unitVol.posShort ≠ 0
  prd : ∀ k r, s.mapRiskPrd.lookup k = some r →
    (s.accBase.prdAt k).unitVol.posLong ≠ 0 ∨ (s.accBase.prdAt k).unitVol.posShort ≠ 0

/-- A call that keeps the records linked. -/
def Keeps (s : RiskStg) : StgCall → Prop
  | .regInstr name => s.PriceOk info tickPrice name
  | .check _ _ _ _ subs =>
    info.find subs.baseInfo.instrHash = some subs.baseInfo ∧
      (s.mapRiskInstr.lookup subs.baseInfo.instrHash = none →
        s.PriceOk info tickPrice subs.baseInfo.instr)
  | .onNew _ _ _ _ h _ => (s.mapRiskInstr.lookup h).isSome
  | .onSwitchDay _ => s.NoneFlat
  | _ => True

variable {info tickPrice} {s : RiskStg} {name : String} {i : InstrumentInfo}

/-! ## What keeps the records linked -/

theorem Linked.grows (hs : s.Linked info) {ab : AccBase} (hg : AccGrows s.accBase ab) :
    Linked info { s with accBase := ab } where
  instr h r hr := (hs.instr h r hr).grows hg.instr
  prd k r hr := (hs.prd k r hr).grows hg.prd
  hasPrd := hs.hasPrd

theorem Linked.regInstr (hs : s.Linked info) (hok : s.PriceOk info tickPrice name)
    (hret : (s.regInstr info tickPrice name).2 ≠ none) :
    (s.regInstr info tickPrice name).1.Linked info := by
  have hprd' : (s.regInstr info tickPrice name).1.HasPrd info := hs.hasPrd.regInstr
  have hg : AccGrows s.accBase (s.accBase.regInstr info name).1 := grows_regInstr _ _
  cases hi : info.find (info.nameHash name) with
  | none =>
    rw [regInstr_of_unknown hi]
    exact hs
  | some i =>
    by_cases ht : s.accBase.Takes info name i
    · obtain ⟨hfi, hfp⟩ := designated_regInstr (a := s.accBase) hi
      rw [regInstr_of_takes hi ht] at hprd' hret ⊢
      generalize (s.accBase.regInstr info name).1 = ab at *
      have hl := hs.grows hg
      -- the product's record, old or new
      have hk : ab.mapPrd.Designates i.productHash ((s.mapRiskPrd.lookup i.productHash).getD
          (({} : RiskPrd).init s.jConf.toRiskConf info i.product ab).1).pUnitVol := by
        cases hr : s.mapRiskPrd.lookup i.productHash with
        | some r => exact hl.prd _ r hr
        | none =>
          refine ⟨?_, hfp⟩
          rw [Option.getD_none, RiskPrd.pUnitVol_init, TradeBaseInfo.nameHash_product hi]
      split at hprd' <;> rename_i hp
      · rw [if_pos hp] at hret ⊢
        refine ⟨forall_regEntry_iff.mpr ⟨hl.instr, ?_⟩, forall_regEntry_iff.mpr ⟨hl.prd, hk⟩, hprd'⟩
        cases hr : s.mapRiskInstr.lookup (info.nameHash name) with
        | some r => exact hl.instr _ r hr
        | none =>
          rw [regEntry_true_iff, RiskPrd.init_true_iff] at hp
          have hpass := (hok i hi ht hp hr).resolve_right fun hmiss => hret <| by
            rw [regEntry_none_iff, RiskInstrStg.snd_init, RiskStgConf.priceAnswer, hmiss]
            exact ⟨hr, rfl⟩
          refine ⟨?_, hfi⟩
          rw [Option.getD_none, RiskInstrStg.pUnitVol_init hpass, TradeBaseInfo.instrHash_eq hi]
      · rw [if_neg hp]
        exact ⟨hl.instr, forall_regEntry_iff.mpr ⟨hl.prd, hk⟩, hprd'⟩
    · rw [regInstr_of_not_takes hi ht]
      exact hs.grows hg

theorem Linked.findOrReg (hs : s.Linked info) {j : InstrumentInfo}
    (hok : s.mapRiskInstr.lookup j.instrHash = none → s.PriceOk info tickPrice j.instr)
    (hret : s.mapRiskInstr.lookup j.instrHash = none → (s.regInstr info tickPrice j.instr).2 ≠ none) :
    (s.findOrReg info tickPrice j).1.Linked info := by
  rw [findOrReg_fst]
  split
  · exact hs.regInstr (hok ‹_›) (hret ‹_›)
  · exact hs

theorem Linked.onNew (hs : s.Linked info) {dir : Dir} {off : Off} {px : ℚ} {vol : Int} {h : Hash}
    {nano : Int} (hh : (s.mapRiskInstr.lookup h).isSome) :
    (s.onNew info dir off px vol h nano).Linked info := by
  obtain ⟨r, hr⟩ := Option.isSome_iff_exists.mp hh
  have hl : Linked info { s with accBase := s.accBase.onNew info dir off px vol h } :=
    hs.grows (grows_onInstr _ _ _)
  have hp : ∀ q : RiskInstr, (q.onNew nano).pUnitVol = q.pUnitVol := by
    intro q
    unfold RiskInstr.onNew
    dsimp only
    split <;> rfl
  have hat : riskInstrAt h { s with accBase := s.accBase.onNew info dir off px vol h } = r := by
    rw [riskInstrAt, hr]
    rfl
  unfold RiskStg.onNew
  simp only [hat]
  refine ⟨fun h' r' hr' => ?_, hl.prd, fun h' i hi hx => ?_⟩
  · dsimp only at hr'
    rw [UMap.lookup_insert_ite] at hr'
    split at hr' <;> rename_i hh'
    · obtain rfl := Option.some.inj hr'
      rw [hh']
      dsimp only
      rw [hp]
      exact hl.instr h r hr
    · exact hl.instr h' r' hr'
  · dsimp only at hx
    rw [UMap.lookup_insert_ite] at hx
    split at hx <;> rename_i hh'
    · exact hs.hasPrd h' i hi (by rw [hh']; exact hh)
    · exact hs.hasPrd h' i hi hx

/-! ### The switch of the day -/

theorem isSome_unless_flat {α : Type} {x y : Int} (v : α) :
    (if 0 = x ∧ 0 = y then none else some v).isSome = true ↔ x ≠ 0 ∨ y ≠ 0 := by
  split <;> rename_i hf
  · refine iff_of_false (by simp) ?_
    rintro (h | h)
    · exact h hf.1.symm
    · exact h hf.2.symm
  · rw [not_and_or] at hf
    exact iff_of_true rfl (hf.imp Ne.symm Ne.symm)

theorem designates_onSwitchDay_instr {ab : AccBase} {h : Hash} {p : Option (Ptr Hash)}
    (hd : ab.mapInstr.Designates h p) :
    ab.onSwitchDay.mapInstr.Designates h p ↔
      (ab.instrAt h).unitVol.posLong ≠ 0 ∨ (ab.instrAt h).unitVol.posShort ≠ 0 := by
  obtain ⟨m, hm⟩ := Option.isSome_iff_exists.mp hd.2
  have hat : ab.instrAt h = m := by rw [AccBase.instrAt, hm]; rfl
  rw [AccBase.onSwitchDay, hd.sweep_iff hm, hat]
  exact isSome_unless_flat _

theorem designates_onSwitchDay_prd {ab : AccBase} {k : Hash} {p : Option (Ptr Hash)}
    (hd : ab.mapPrd.Designates k p) :
    ab.onSwitchDay.mapPrd.Designates k p ↔
      (ab.prdAt k).unitVol.posLong ≠ 0 ∨ (ab.prdAt k).unitVol.posShort ≠ 0 := by
  obtain ⟨m, hm⟩ := Option.isSome_iff_exists.mp hd.2
  have hat : ab.prdAt k = m := by rw [AccBase.prdAt, hm]; rfl
  rw [AccBase.onSwitchDay, hd.sweep_iff hm, hat]
  exact isSome_unless_flat _

/-- In a linked state the reads of a switch of the day are valid exactly when
nothing it reads is flat. -/
theorem readsValid_onSwitchDay_iff (hs : s.Linked info) (stale : Option (Ptr Hash) → UnitVol) :
    s.ReadsValid info tickPrice (.onSwitchDay stale) ↔ s.NoneFlat := by
  have hi : (∀ rd ∈ s.mapRiskInstr.entries.map (fun e => VolRead.instr e.1 e.2.pUnitVol),
      rd.Valid s.accBase.onSwitchDay) ↔ ∀ h r, s.mapRiskInstr.lookup h = some r →
        s.accBase.onSwitchDay.mapInstr.Designates h r.pUnitVol := by
    simp only [List.forall_mem_map, Sigma.forall]
    exact forall₂_congr fun h r => imp_congr AList.mem_lookup_iff.symm Iff.rfl
  have hp : (∀ rd ∈ s.mapRiskPrd.entries.map (fun e => VolRead.prd e.1 e.2.pUnitVol),
      rd.Valid s.accBase.onSwitchDay) ↔ ∀ k r, s.mapRiskPrd.lookup k = some r →
        s.accBase.onSwitchDay.mapPrd.Designates k r.pUnitVol := by
    simp only [List.forall_mem_map, Sigma.forall]
    exact forall₂_congr fun h r => imp_congr AList.mem_lookup_iff.symm Iff.rfl
  unfold ReadsValid switchReads
  rw [List.forall_mem_append, hi, hp]
  constructor
  · rintro ⟨h1, h2⟩
    exact ⟨fun h r hr => (designates_onSwitchDay_instr (hs.instr h r hr)).mp (h1 h r hr),
      fun k r hr => (designates_onSwitchDay_prd (hs.prd k r hr)).mp (h2 k r hr)⟩
  · rintro ⟨h1, h2⟩
    exact ⟨fun h r hr => (designates_onSwitchDay_instr (hs.instr h r hr)).mpr (h1 h r hr),
      fun k r hr => (designates_onSwitchDay_prd (hs.prd k r hr)).mpr (h2 k r hr)⟩

/-- A switch of the day that finds nothing flat erases nothing. -/
theorem Linked.onSwitchDay (hs : s.Linked info) (hf : s.NoneFlat)
    (stale : Option (Ptr Hash) → UnitVol) : (s.onSwitchDay stale).Linked info := by
  have hprd : ∀ k p, s.mapRiskPrd.lookup k = some p →
      (s.onSwitchDay stale).mapRiskPrd.lookup k = some p := by
    intro k p hp
    obtain ⟨q, hq⟩ := Option.isSome_iff_exists.mp (hs.prd k p hp).2
    have hat : s.accBase.prdAt k = q := by rw [AccBase.prdAt, hq]; rfl
    have hvol := hf.prd k p hp
    have hd := (designates_onSwitchDay_prd (hs.prd k p hp)).mpr hvol
    refine lookupPrd_onSwitchDay.mpr ⟨hp, ?_⟩
    -- the pointer still designates the node, whose positions have not changed
    rw [prdVol, hd.1, Option.bind_some, NodeMap.deref_addr, AccBase.onSwitchDay, NodeMap.find_sweep, hq]
    rw [hat] at hvol
    rw [Option.bind_some, if_neg (by rw [not_and_or]; exact hvol.imp Ne.symm Ne.symm)]
    exact hvol
  refine ⟨fun h r hr => ?_, fun k p hp => ?_, fun h i hi hx => ?_⟩
  · have hr' := (lookup_onSwitchDay.mp hr).1
    exact (designates_onSwitchDay_instr (hs.instr h r hr')).mpr (hf.instr h r hr')
  · have hp' := (lookupPrd_onSwitchDay.mp hp).1
    exact (designates_onSwitchDay_prd (hs.prd k p hp')).mpr (hf.prd k p hp')
  · obtain ⟨r, hr⟩ := Option.isSome_iff_exists.mp hx
    obtain ⟨p, hp⟩ := Option.isSome_iff_exists.mp
      (hs.hasPrd h i hi (by rw [(lookup_onSwitchDay.mp hr).1]; rfl))
    exact Option.isSome_iff_exists.mpr ⟨p, hprd _ p hp⟩

/-! ## Runs -/

theorem linked_called (hs : s.Linked info) {c : StgCall} (hc : s.Keeps info tickPrice c)
    (hr : s.Returns info tickPrice c) : (s.called info tickPrice c).Linked info := by
  cases c with
  | regInstr name => exact hs.regInstr hc hr
  | check dir off px vol subs =>
    simp only [called, fst_check]
    exact hs.findOrReg hc.2 (regInstr_of_returns hr)
  | onNew dir off px vol h nano => exact hs.onNew hc
  | onRtn t m => exact hs.grows (grows_onInstr _ _ _)
  | onOrderTrack t => exact hs.grows (grows_onInstr _ _ _)
  | onTickPx h px => exact hs.grows (grows_onInstr _ _ _)
  | onSwitchDay stale => exact hs.onSwitchDay hc stale

/-- The pointers a check reads are those of the records it has found. -/
theorem valid_checkReads {s' : RiskStg} (hs : s'.Linked info) {subs : SubsInstrInfo}
    (hi : info.find subs.baseInfo.instrHash = some subs.baseInfo) {r : RiskInstrStg}
    (hr : s'.mapRiskInstr.lookup subs.baseInfo.instrHash = some r) (dir : Dir) (off : Off) (px : ℚ)
    (vol : Int) {rd : VolRead} (hrd : rd ∈ s'.checkReads dir off px vol subs r) :
    rd.Valid s'.accBase := by
  have hinstr : (VolRead.instr subs.baseInfo.instrHash r.pUnitVol).Valid s'.accBase :=
    hs.instr _ r hr
  have hprd : (VolRead.prd subs.baseInfo.productHash
      (s'.riskPrdAt subs.baseInfo.productHash).pUnitVol).Valid s'.accBase := by
    obtain ⟨p, hp⟩ := Option.isSome_iff_exists.mp (hs.hasPrd _ _ hi (by rw [hr]; rfl))
    rw [riskPrdAt, hp]
    exact hs.prd _ p hp
  have hoff : ∀ o : Off, rd ∈ s'.offReads dir o px vol subs r → rd.Valid s'.accBase := by
    intro o ho
    rcases List.mem_append.mp ho with h | h
    · split at h
      · rwa [List.mem_singleton.mp h]
      · cases h
    · split at h
      · rwa [List.mem_singleton.mp h]
      · cases h
  unfold checkReads at hrd
  split at hrd
  · rcases List.mem_append.mp hrd with h | h
    · split at h
      · rwa [List.mem_singleton.mp h]
      · cases h
    · split at h
      · cases h
      · exact hoff _ h
  · exact hoff _ hrd

theorem readsValid_of_keeps (hs : s.Linked info) {c : StgCall} (hc : s.Keeps info tickPrice c) :
    s.ReadsValid info tickPrice c := by
  cases c with
  | check dir off px vol subs =>
    intro s' r hf rd hrd
    have hs' : (s.findOrReg info tickPrice subs.baseInfo).1.Linked info := by
      refine hs.findOrReg hc.2 fun hn he => ?_
      have hnone := findOrReg_none _ hn he
      rw [hf] at hnone
      cases hnone
    rw [hf] at hs'
    exact valid_checkReads hs' hc.1 (findOrReg_ok hf) dir off px vol hrd
  | onSwitchDay stale => exact (readsValid_onSwitchDay_iff hs stale).mpr hc
  | _ => trivial

theorem linked_start (hs : s.mapRiskInstr = ∅ ∧ s.mapRiskPrd = ∅) : s.Linked info := by
  refine ⟨fun h r hl => ?_, fun k r hl => ?_, fun h i _ hl => ?_⟩ <;>
    first | rw [hs.1] at hl | rw [hs.2] at hl
  all_goals cases hl

end RiskStg

/-- **Live pointers.** In a run whose registrations get past the price, whose
`onNew` follow a check, and whose switches of the day find no flat record, every
read of `p_unit_vol` is of the account's entry under the record's key, also in a
last call that does not come back. A switch of the day in any state of such a
run reads only live entries exactly when it finds no flat record. -/
theorem readsValid_of_run (info : TradeBaseInfo) (tickPrice : Hash → ℚ) {s : RiskStg}
    {cs : List StgCall}
    (hs : (RiskStg.calls info tickPrice (RiskStg.Keeps info tickPrice)).start s)
    (ha : (RiskStg.calls info tickPrice (RiskStg.Keeps info tickPrice)).Admits s cs) :
    let S := RiskStg.calls info tickPrice (RiskStg.Keeps info tickPrice)
    AtEach (fun pre c => (S.exec s pre).ReadsValid info tickPrice c) cs ∧
      (∀ c, (S.exec s cs).Keeps info tickPrice c → (S.exec s cs).ReadsValid info tickPrice c) ∧
      ∀ stale, (S.exec s cs).ReadsValid info tickPrice (.onSwitchDay stale) ↔
        (S.exec s cs).NoneFlat := by
  intro S
  have h0 : s.Linked info := RiskStg.linked_start ⟨hs.1, hs.2.1⟩
  have hstep : ∀ s c, RiskStg.Linked info s → S.ok s c → RiskStg.Linked info (S.next s c) :=
    fun s c h hc => RiskStg.linked_called h hc.1 hc.2
  have hend : (S.exec s cs).Linked info := S.invariant_run hstep s cs h0 ha
  exact ⟨S.atEach_run hstep (fun s c h hc => RiskStg.readsValid_of_keeps h hc.1) s cs h0 ha,
    fun c hc => RiskStg.readsValid_of_keeps hend hc, RiskStg.readsValid_onSwitchDay_iff hend⟩

/-- Two lots bought, a switch of the day, and a sell that may close them. -/
def linkedRun : List StgCall :=
  [.regInstr "rb1810", .onNew .buy .opn 10 2 1 0,
    .onRtn { instrHash := 1, dir := .buy, off := .opn, price := 10, vol := 2, volTraded := 2 }
      { msgType := ods .execution, price := 10, vol := 2 },
    .onSwitchDay fun _ => 0, .check .sell .auto 10 2 { baseInfo := TradeBaseInfo.rb1810 }]

theorem readsValid_rb :
    let S := RiskStg.calls .rb (fun _ => 1) (RiskStg.Keeps .rb fun _ => 1)
    AtEach (fun pre c => (S.exec (stgOf rbPriced) pre).ReadsValid .rb (fun _ => 1) c) linkedRun := by
  intro S
  suffices ha : S.Admits (stgOf rbPriced) linkedRun from
    (readsValid_of_run .rb (fun _ => 1) ⟨rfl, rfl, {}, by decide +kernel⟩ ha).1
  have hread : ∀ i, TradeBaseInfo.rb.find 1 = some i → rbPriced.PassesPrice (fun _ => 1) i := by
    intro i hi
    obtain rfl : TradeBaseInfo.rb1810 = i := by cases hi; rfl
    decide +kernel
  have hnew : ((S.exec (stgOf rbPriced) (linkedRun.take 1)).mapRiskInstr.lookup 1).isSome := by
    decide +kernel
  have hinstr : ∀ e ∈ (S.exec (stgOf rbPriced) (linkedRun.take 3)).mapRiskInstr.entries,
      ((S.exec (stgOf rbPriced) (linkedRun.take 3)).accBase.instrAt e.1).unitVol.posLong ≠ 0 := by
    decide +kernel
  have hprd : ∀ e ∈ (S.exec (stgOf rbPriced) (linkedRun.take 3)).mapRiskPrd.entries,
      ((S.exec (stgOf rbPriced) (linkedRun.take 3)).accBase.prdAt e.1).unitVol.posLong ≠ 0 := by
    decide +kernel
  exact ⟨⟨fun i hi _ _ _ => Or.inl (hread i hi), by decide +kernel⟩, ⟨hnew, trivial⟩,
    ⟨trivial, trivial⟩,
    ⟨⟨fun h r hr => Or.inl (hinstr ⟨h, r⟩ (AList.mem_lookup_iff.mp hr)),
      fun k p hp => Or.inl (hprd ⟨k, p⟩ (AList.mem_lookup_iff.mp hp))⟩, trivial⟩,
    ⟨⟨rfl, fun _ i hi _ _ _ => Or.inl (hread i hi)⟩, by decide +kernel⟩, trivial⟩

/-- A registered contract nobody has traded: the switch of the day erases its
node and then reads it. With no value for the limit of the price the registration
fails and leaves a null pointer, which the choice of an offset reads. -/
theorem not_readsValid :
    let s := (RiskStg.calls .rb (fun _ => 1) fun _ _ => True).exec (stgOf rbPriced) [.regInstr "rb1810"]
    let s' := (RiskStg.calls .rb (fun _ => 1) fun _ _ => True).exec
      (stgOf { rbPriced with allowedPriceTick := .value fun _ => .missing }) [.regInstr "rb1810"]
    (∀ stale, ¬s.ReadsValid .rb (fun _ => 1) (.onSwitchDay stale)) ∧
      ¬s'.ReadsValid .rb (fun _ => 1) (.check .buy .auto 10 1 { baseInfo := TradeBaseInfo.rb1810 }) := by
  intro s s'
  refine ⟨fun stale h => ?_, fun h => ?_⟩
  · have hn : ¬∀ rd ∈ s.switchReads, rd.Valid s.accBase.onSwitchDay := by decide +kernel
    exact hn h
  · have hf : s'.findOrReg .rb (fun _ => 1) TradeBaseInfo.rb1810 =
        (s', .ok (s'.riskInstrAt 1)) := rfl
    have hv := h s' (s'.riskInstrAt 1) hf (.instr 1 (s'.riskInstrAt 1).pUnitVol) (by decide +kernel)
    exact absurd hv (by decide +kernel)

end NatFramework.Risk
