import NatFramework.Account.AccBase
import NatFramework.Account.MarkToMarket
import NatFramework.Lib.Run

/-!
# The three levels of the account agree

Every event is written at the instrument, the product and the account; the day
roll erases products and instruments independently of one another. `Inv` is
what survives all of it: a product in the map sums up the instruments that
point at its node, the account sums up all instruments, and an instrument whose
product has been erased shares its stale pointer with one of negative position
(`Inv.stale`), so that without negative positions there is none.

* `inv_apply`: every operation preserves `Inv`, whatever the fills are.
* `allNonNeg_apply`: fills that exceed no position they close leave none negative.
* `rollUp_of_run`: the sums of the three levels agree after every operation, and
  every instrument points at a product in the map, as long as no operation is about
  an instrument with a negative multiple.
-/
namespace NatFramework.Account

open Lib

/-- The day roll of what an instrument contributes. -/
def Contrib.onSwitchDay : Contrib →+ Contrib where
  toFun c := (c.1.onSwitchDay, c.2.1.onSwitchDay, c.2.2.onSwitchDay)
  map_zero' := rfl
  map_add' c d := by
    refine Prod.ext ?_ (Prod.ext ?_ ?_)
    · ext <;> simp [UnitVol.onSwitchDay]
    · ext <;> simp [UnitAmt.onSwitchDay]
    · ext <;> simp [UnitPnl.onSwitchDay]

theorem ModInstr.contrib_onSwitchDay (m : ModInstr) :
    m.onSwitchDay.contrib = Contrib.onSwitchDay m.contrib := rfl

theorem ModPrd.contrib_onSwitchDay (q : ModPrd) :
    q.onSwitchDay.contrib = Contrib.onSwitchDay q.contrib := rfl

theorem ModAcc.contrib_onSwitchDay {x : ModAcc} {c : Contrib} (h : x.contrib = c.2) :
    x.onSwitchDay.contrib = (Contrib.onSwitchDay c).2 := by
  rw [show (Contrib.onSwitchDay c).2 = (c.2.1.onSwitchDay, c.2.2.onSwitchDay) from rfl, ← h]
  rfl

namespace AccBase

/-! ## Sums over `map_instr_` -/

section Sums

variable {α : Type} [OfNat α 0] {info : TradeBaseInfo} {a : AccBase α} {name : String}
  {h k : Hash} {i : InstrumentInfo} {m : ModInstr α} {q : ModPrd α} {b : Books α}
  {M : Type} [AddCommGroup M] (f : Hash → ModInstr α → M)

/-- The sum over `map_instr_`. -/
def sum (a : AccBase α) : M := UMap.total f a.mapInstr.nodes

theorem sum_reg (h0 : f h (freshInstr name i (a.mapPrd.addr i.productHash)) = 0) :
    (a.reg name h i).sum f = a.sum f := by
  have haddr : (a.regPrd i).mapPrd.addr i.productHash = a.mapPrd.addr i.productHash := by
    simp [NodeMap.addr]
  unfold reg sum
  simp only [haddr]
  split
  · rw [regPrd_mapInstr]
  · rename_i hx
    have hnone : a.mapInstr.nodes.lookup h = none := by
      simpa [isExistModInstr, NodeMap.find] using hx
    simp only [NodeMap.set, regPrd_mapInstr]
    rw [UMap.total_insert_new _ hnone, h0, zero_add]

theorem sum_put (hm : a.mapInstr.find h = some m) :
    (a.put h k b).sum f = a.sum f + (f h b.instr - f h m) :=
  UMap.total_insert_old b.instr hm

/-! ### The day roll of the two maps -/

theorem switchDay_instr (h : Hash) :
    a.onSwitchDay.mapInstr.find h = (a.mapInstr.find h).bind fun m =>
      if 0 = m.unitVol.posLong ∧ 0 = m.unitVol.posShort then none else some m.onSwitchDay :=
  NodeMap.find_sweep _ _ _

theorem switchDay_prd (k : Hash) :
    a.onSwitchDay.mapPrd.find k = (a.mapPrd.find k).bind fun q =>
      if 0 = q.unitVol.posLong ∧ 0 = q.unitVol.posShort then none else some q.onSwitchDay :=
  NodeMap.find_sweep _ _ _

/-- What the day roll leaves of the instruments. -/
theorem switchDay_instr_some {m' : ModInstr α} (hm' : a.onSwitchDay.mapInstr.find h = some m') :
    ∃ m, a.mapInstr.find h = some m ∧ ¬ (0 = m.unitVol.posLong ∧ 0 = m.unitVol.posShort) ∧
      m' = m.onSwitchDay := by
  rw [switchDay_instr, Option.bind_eq_some_iff] at hm'
  obtain ⟨m, hm, hg⟩ := hm'
  split at hg
  · cases hg
  · rename_i hne
    exact ⟨m, hm, hne, by simpa using hg.symm⟩

theorem switchDay_instr_kept (hm : a.mapInstr.find h = some m)
    (hne : ¬ (0 = m.unitVol.posLong ∧ 0 = m.unitVol.posShort)) :
    a.onSwitchDay.mapInstr.find h = some m.onSwitchDay := by
  rw [switchDay_instr, hm, Option.bind_some, if_neg hne]

theorem switchDay_prd_some {q' : ModPrd α} (hq' : a.onSwitchDay.mapPrd.find k = some q') :
    ∃ q, a.mapPrd.find k = some q ∧ ¬ (0 = q.unitVol.posLong ∧ 0 = q.unitVol.posShort) ∧
      q' = q.onSwitchDay ∧ a.onSwitchDay.mapPrd.addr k = a.mapPrd.addr k := by
  rw [switchDay_prd, Option.bind_eq_some_iff] at hq'
  obtain ⟨q, hq, hg⟩ := hq'
  split at hg
  · cases hg
  · rename_i hne
    refine ⟨q, hq, hne, by simpa using hg.symm, ?_⟩
    exact NodeMap.addr_sweep_kept hq (if_neg hne)

theorem switchDay_gen_erased (hq : a.mapPrd.find k = some q)
    (h0 : 0 = q.unitVol.posLong ∧ 0 = q.unitVol.posShort) :
    a.onSwitchDay.mapPrd.gen k = a.mapPrd.gen k + 1 :=
  NodeMap.gen_sweep_erased hq (if_pos h0)

/-- The record under a pointer keeps its node or gets a new generation. -/
theorem Entry.onSwitchDay {p : Ptr Hash} (he : Entry info a h m i p) :
    Entry info a.onSwitchDay h m.onSwitchDay i p where
  known := he.known
  pAcc := he.pAcc
  instrName := he.instrName
  volMultiple := he.volMultiple
  pPrd := he.pPrd
  key := he.key
  gen_le := he.gen_le.trans (NodeMap.gen_le_sweep _ _ _)
  live := by
    intro hg
    cases hq : a.mapPrd.find p.key with
    | none =>
      have hgen : a.onSwitchDay.mapPrd.gen p.key = a.mapPrd.gen p.key :=
        NodeMap.gen_sweep_absent hq
      have := he.live (hg.trans hgen)
      simp [hq] at this
    | some q =>
      by_cases h0 : 0 = q.unitVol.posLong ∧ 0 = q.unitVol.posShort
      · have := switchDay_gen_erased hq h0
        have := he.gen_le
        omega
      · rw [switchDay_prd, hq, Option.bind_some, if_neg h0]
        rfl

theorem WF.onSwitchDay (hw : WF info a) : WF info a.onSwitchDay where
  instr := by
    intro h m' hm'
    obtain ⟨m, hm, -, rfl⟩ := switchDay_instr_some hm'
    obtain ⟨i, p, he⟩ := hw.instr h m hm
    exact ⟨i, p, he.onSwitchDay⟩
  prd := by
    intro k q' hq'
    obtain ⟨q, hq, -, rfl, -⟩ := switchDay_prd_some hq'
    exact hw.prd k q hq

theorem sum_onSwitchDay :
    a.onSwitchDay.sum f = a.sum fun h m =>
      if 0 = m.unitVol.posLong ∧ 0 = m.unitVol.posShort then 0 else f h m.onSwitchDay := by
  unfold sum onSwitchDay NodeMap.sweep
  rw [UMap.total_sweep]
  congr
  funext h m
  split <;> rfl

variable {f} (φ : M →+ M)

/-- The sum under a day roll that acts on each summand by `φ` and erases only
what `φ` takes to zero. -/
theorem sum_map_onSwitchDay (hf : ∀ h m, f h m.onSwitchDay = φ (f h m))
    (h0 : ∀ h m, a.mapInstr.find h = some m → 0 = m.unitVol.posLong ∧ 0 = m.unitVol.posShort →
      φ (f h m) = 0) : a.onSwitchDay.sum f = φ (a.sum f) := by
  rw [sum_onSwitchDay, sum, sum, UMap.map_total]
  apply UMap.total_congr
  intro h m hm
  split
  · exact (h0 h m hm ‹_›).symm
  · exact hf h m

/-! ### What points at a product -/

/-- What `c` takes of an instrument that points at `p`. -/
def pointing (c : ModInstr α → M) (p : Ptr Hash) (_ : Hash) (m : ModInstr α) : M :=
  if m.pPrd = some p then c m else 0

/-- Every product in the map sums up the instruments that point at its node. -/
def Rolls (c : ModInstr α → M) (d : ModPrd α → M) (a : AccBase α) : Prop :=
  ∀ k q, a.mapPrd.find k = some q → d q = a.sum (pointing c (a.mapPrd.addr k))

variable {c : ModInstr α → M} {d : ModPrd α → M}

theorem Rolls.reg (hr : Rolls c d a) (hw : WF info a) (hc : ∀ p, c (freshInstr name i p) = 0)
    (hd : d (freshPrd i) = 0) : Rolls c d (a.reg name h i) := by
  intro k q hq
  have hsum : (a.reg name h i).sum (pointing c ((a.reg name h i).mapPrd.addr k)) =
      a.sum (pointing c (a.mapPrd.addr k)) := by
    have haddr : (a.reg name h i).mapPrd.addr k = a.mapPrd.addr k := by simp [NodeMap.addr]
    rw [haddr]
    exact sum_reg _ (by simp [pointing, hc])
  rw [hsum]
  rw [reg_mapPrd, regPrd_find] at hq
  split at hq
  · rename_i hk
    cases hq' : a.mapPrd.find k with
    | none =>
      simp only [hq', Option.getD_none, Option.some.injEq] at hq
      -- no pointer carries the generation of a node that does not exist yet
      have h0 : a.sum (pointing c (a.mapPrd.addr k)) = 0 := by
        apply UMap.total_zero
        intro h' m' hm'
        obtain ⟨i', p', he⟩ := hw.instr h' m' hm'
        unfold pointing
        split
        · rename_i hp
          rw [he.pPrd, Option.some.injEq] at hp
          have hlive := he.live (by rw [hp]; rfl)
          rw [hp] at hlive
          simp [NodeMap.addr, hq'] at hlive
        · rfl
      rw [h0, ← hq, hd]
    | some q' =>
      simp only [hq', Option.getD_some, Option.some.injEq] at hq
      exact hr k q (by rw [hq', hq])
  · exact hr k q hq

theorem Rolls.put (hr : Rolls c d a) (hm : a.mapInstr.find h = some m)
    (hp : m.pPrd = some (a.mapPrd.addr k)) (hq : a.mapPrd.find k = some q)
    (hpb : b.instr.pPrd = m.pPrd) (hdiff : d b.prd - d q = c b.instr - c m) :
    Rolls c d (a.put h k b) := by
  intro k' q' hq'
  rw [put_addr, sum_put _ hm]
  rw [put_prd] at hq'
  rw [hp] at hpb
  split at hq'
  · rename_i hk
    subst hk
    simp only [Option.some.injEq] at hq'
    rw [← hq', ← hr k' q hq, pointing, pointing, if_pos hpb, if_pos hp, ← hdiff]
    abel
  · rename_i hk
    have hne : ∀ x : ModInstr α, x.pPrd = some (a.mapPrd.addr k) →
        pointing c (a.mapPrd.addr k') h x = 0 := by
      intro x hx
      rw [pointing, if_neg]
      rw [hx]
      simp only [Option.some.injEq, NodeMap.addr, Ptr.mk.injEq, not_and]
      exact fun hkk => absurd hkk.symm hk
    rw [hne _ hpb, hne _ hp, sub_zero, add_zero]
    exact hr k' q' hq'

theorem Rolls.onSwitchDay (hr : Rolls c d a) (hc : ∀ m, c m.onSwitchDay = φ (c m))
    (hd : ∀ q, d q.onSwitchDay = φ (d q))
    (h0 : ∀ h m, a.mapInstr.find h = some m → 0 = m.unitVol.posLong ∧ 0 = m.unitVol.posShort →
      φ (c m) = 0) : Rolls c d a.onSwitchDay := by
  intro k q' hq'
  obtain ⟨q, hq, -, rfl, haddr⟩ := switchDay_prd_some hq'
  rw [haddr, hd, hr k q hq]
  refine (sum_map_onSwitchDay φ (fun h m => ?_) fun h m hm hflat => ?_).symm
  · unfold pointing
    rw [apply_ite φ, map_zero]
    exact if_congr Iff.rfl (hc m) rfl
  · unfold pointing
    split
    · exact h0 h m hm hflat
    · exact map_zero φ

end Sums

variable {info : TradeBaseInfo} {a : AccBase} {name : String} {h k : Hash} {i : InstrumentInfo}
  {m : ModInstr} {q : ModPrd} {b : Books}

/-! ## The invariant -/

structure Inv (info : TradeBaseInfo) (a : AccBase) : Prop extends WF info a where
  amts : ∀ h m, a.mapInstr.find h = some m → m.defect.amtLong = 0 ∧ m.defect.amtShort = 0
  roll : Rolls ModInstr.contrib ModPrd.contrib a
  acc : a.modAcc.contrib = (a.sum fun _ m => m.contrib).2
  stale : ∀ h m, a.mapInstr.find h = some m → ¬ a.Attached m →
    ∃ h' m', a.mapInstr.find h' = some m' ∧ m'.pPrd = m.pPrd ∧
      (m'.unitVol.posLong < 0 ∨ m'.unitVol.posShort < 0)

theorem inv_empty : Inv info {} where
  toWF := linked_empty.toWF
  amts _ _ hx := by cases hx
  roll _ _ hx := by cases hx
  acc := rfl
  stale _ _ hx := by cases hx

theorem contrib_fresh (p : Ptr Hash) : (freshInstr name i p).contrib = 0 := rfl

theorem Inv.reg (ha : Inv info a) (hn : info.nameHash name = h) (hf : info.find h = some i) :
    Inv info (a.reg name h i) where
  toWF := ha.toWF.reg hn hf
  amts := by
    intro h' m' hm'
    rw [reg_find] at hm'
    split at hm'
    · cases hm : a.mapInstr.find h with
      | none =>
        simp only [hm, Option.getD_none, Option.some.injEq] at hm'
        subst hm'
        simp [freshInstr]
      | some m =>
        simp only [hm, Option.getD_some, Option.some.injEq] at hm'
        subst hm'
        exact ha.amts _ _ hm
    · exact ha.amts _ _ hm'
  roll := ha.roll.reg ha.toWF contrib_fresh rfl
  acc := by
    rw [reg_modAcc, sum_reg _ (contrib_fresh _)]
    exact ha.acc
  stale := by
    intro h' m' hm' hat
    have hkeep : ∀ x y, a.mapInstr.find x = some y → (a.reg name h i).mapInstr.find x = some y := by
      intro x y hxy
      rw [reg_find]
      split
      · rename_i hx
        subst hx
        rw [hxy]; rfl
      · exact hxy
    have hm : a.mapInstr.find h' = some m' := by
      rw [reg_find] at hm'
      split at hm'
      · rename_i hh
        subst hh
        cases hx : a.mapInstr.find h' with
        | none =>
          simp only [hx, Option.getD_none, Option.some.injEq] at hm'
          exact absurd (hm' ▸ attached_fresh hn hf) hat
        | some m =>
          simpa [hx] using hm'
      · exact hm'
    obtain ⟨i', p', he⟩ := ha.instr _ _ hm
    obtain ⟨x, y, hxy, hp, hneg⟩ := ha.stale h' m' hm (fun hx => hat (he.attached_reg.mpr hx))
    exact ⟨x, y, hkeep x y hxy, hp, hneg⟩

theorem Inv.put (ha : Inv info a) (hm : a.mapInstr.find h = some m)
    (hp : m.pPrd = some (a.mapPrd.addr k)) (hq : a.mapPrd.find k = some q)
    (hb : Balanced ⟨m, q, a.modAcc⟩ b) (hamt : b.instr.defect.amtLong = 0 ∧ b.instr.defect.amtShort = 0) :
    Inv info (a.put h k b) where
  toWF := ha.toWF.put hm hq hb.toKeeps
  amts := by
    intro h' m' hm'
    rw [put_instr] at hm'
    split at hm'
    · simp only [Option.some.injEq] at hm'
      subst hm'
      exact hamt
    · exact ha.amts _ _ hm'
  roll := ha.roll.put hm hp hq hb.pPrd hb.prd
  acc := by
    rw [put_modAcc, sum_put _ hm]
    have hdiff := hb.acc
    have hacc := ha.acc
    simp only [Prod.snd_add, Prod.snd_sub, ← hacc, ← hdiff]
    abel
  stale := by
    intro h' m' hm' hat
    rw [attached_put hq] at hat
    have hmat : a.Attached m := ⟨_, hp, by rw [NodeMap.deref_addr, hq]; rfl⟩
    -- the written instrument is attached before and after, the others are as they were
    have hne : ∀ x y, ¬ a.Attached y → (a.put h k b).mapInstr.find x = some y → x ≠ h := by
      intro x y hy hxy hx
      rw [put_instr, if_pos hx, Option.some.injEq] at hxy
      exact hy (hxy ▸ ⟨_, hb.pPrd.trans hp, by rw [NodeMap.deref_addr, hq]; rfl⟩)
    have hh := hne h' m' hat hm'
    rw [put_instr, if_neg hh] at hm'
    obtain ⟨x, y, hxy, hpy, hneg⟩ := ha.stale h' m' hm' hat
    refine ⟨x, y, ?_, hpy, hneg⟩
    rw [put_instr, if_neg]
    · exact hxy
    · rintro rfl
      rw [hm, Option.some.injEq] at hxy
      subst hxy
      obtain ⟨p, hp', hd⟩ := hmat
      exact hat ⟨p, by rw [← hpy]; exact hp', hd⟩

/-- An event that keeps the account balanced and the position amounts in their
closed forms keeps the invariant. -/
theorem Inv.onInstr (hv : ∀ i, info.find h = some i → 0 ≤ i.volMultiple) {f : Books → Books} (hb : ∀ b, Balanced b (f b))
    (hamt : ∀ b, (f b).instr.defect.amtLong = b.instr.defect.amtLong ∧
      (f b).instr.defect.amtShort = b.instr.defect.amtShort)
    (ha : Inv info a) : Inv info (a.onInstr info h f) := by
  cases hf : info.find h with
  | none => rw [onInstr_unknown f hf]; exact ha
  | some i =>
    have hr := ha.reg (TradeBaseInfo.nameHash_instr hf) hf
    rcases onInstr_cases ha.toWF hf (hv i hf) f with ⟨hat, he⟩ | ⟨-, he⟩
    · rw [he]
      obtain ⟨i', p, hen⟩ := hr.instr _ _ reg_find_self
      obtain rfl : i = i' := by have := hen.known; rw [hf] at this; simpa using this
      have hp := hen.attached_iff.mp hat
      obtain ⟨h1, h2⟩ := hr.amts _ _ reg_find_self
      refine hr.put reg_find_self (hp ▸ hen.pPrd) reg_find_prd ?_ ?_
      · rw [reg_modAcc]
        exact hb (a.booksAt h i)
      · rw [(hamt _).1, (hamt _).2]
        exact ⟨h1, h2⟩
    · rw [he]
      exact hr

/-! ## The day roll -/

section SwitchDay

/-- An instrument without positions has nothing left after the day roll. -/
theorem contrib_flat (hamt : m.defect.amtLong = 0 ∧ m.defect.amtShort = 0)
    (h0 : 0 = m.unitVol.posLong ∧ 0 = m.unitVol.posShort) : m.onSwitchDay.contrib = 0 := by
  obtain ⟨h1, h2⟩ := hamt
  simp only [ModInstr.defect_amtLong, ModInstr.defect_amtShort, ← h0.1, ← h0.2, Int.cast_zero,
    mul_zero, zero_mul, sub_zero] at h1 h2
  refine Prod.ext ?_ (Prod.ext ?_ ?_)
  · ext <;> simp [ModInstr.contrib, ModInstr.onSwitchDay, UnitVol.onSwitchDay, ← h0.1, ← h0.2]
  · ext <;> simp [ModInstr.contrib, ModInstr.onSwitchDay, UnitAmt.onSwitchDay, UnitAmt.shared, h1, h2]
  · rfl

/-- The positions of a sum of volumes. -/
def longVol : UnitVol →+ Int where
  toFun u := u.posLong
  map_zero' := rfl
  map_add' _ _ := rfl

def shortVol : UnitVol →+ Int where
  toFun u := u.posShort
  map_zero' := rfl
  map_add' _ _ := rfl

/-- If an instrument of a product without positions has one, another of them
has a negative one. -/
theorem exists_negative {p : Ptr Hash} (hm : a.mapInstr.find h = some m) (hp : m.pPrd = some p)
    (hne : ¬ (0 = m.unitVol.posLong ∧ 0 = m.unitVol.posShort))
    (hsum : (a.sum (pointing ModInstr.contrib p)).1.posLong = 0 ∧ (a.sum (pointing ModInstr.contrib p)).1.posShort = 0) :
    ∃ h' m', a.mapInstr.find h' = some m' ∧ m'.pPrd = some p ∧
      (m'.unitVol.posLong < 0 ∨ m'.unitVol.posShort < 0) := by
  by_contra hcon
  push Not at hcon
  have hzero : ∀ φ : Contrib →+ Int, φ (a.sum (pointing ModInstr.contrib p)) = 0 →
      (∀ h' m', a.mapInstr.find h' = some m' → m'.pPrd = some p → 0 ≤ φ m'.contrib) →
      φ m.contrib = 0 := by
    intro φ h0 hnn
    rw [sum, UMap.map_total] at h0
    have := UMap.total_nonneg_eq_zero (m := a.mapInstr.nodes)
      (f := fun h m => φ (pointing ModInstr.contrib p h m)) ?_ h0 hm
    · simpa [pointing, hp] using this
    · intro h' m' hm'
      simp only [pointing]
      split
      · rename_i hp'
        exact hnn h' m' hm' hp'
      · simp
  apply hne
  constructor
  · exact (hzero (longVol.comp (AddMonoidHom.fst _ _)) hsum.1 fun h' m' hm' hp' => (hcon h' m' hm' hp').1).symm
  · exact (hzero (shortVol.comp (AddMonoidHom.fst _ _)) hsum.2 fun h' m' hm' hp' => (hcon h' m' hm' hp').2).symm

theorem Inv.onSwitchDay (ha : Inv info a) : Inv info a.onSwitchDay where
  toWF := ha.toWF.onSwitchDay
  amts := by
    intro h m' hm'
    obtain ⟨m, hm, -, rfl⟩ := switchDay_instr_some hm'
    rw [ModInstr.defect_onSwitchDay]
    exact ha.amts h m hm
  roll := ha.roll.onSwitchDay Contrib.onSwitchDay ModInstr.contrib_onSwitchDay ModPrd.contrib_onSwitchDay
    fun h m hm h0 => contrib_flat (ha.amts h m hm) h0
  acc := by
    rw [sum_map_onSwitchDay Contrib.onSwitchDay (fun _ m => m.contrib_onSwitchDay)
      fun h m hm h0 => contrib_flat (ha.amts h m hm) h0]
    exact ModAcc.contrib_onSwitchDay ha.acc
  stale := by
    intro h m' hm' hat
    obtain ⟨m, hm, hne, rfl⟩ := switchDay_instr_some hm'
    obtain ⟨i, p, he⟩ := ha.instr h m hm
    have hneg : ∃ h' m', a.mapInstr.find h' = some m' ∧ m'.pPrd = m.pPrd ∧
        (m'.unitVol.posLong < 0 ∨ m'.unitVol.posShort < 0) := by
      by_cases hold : a.Attached m
      · -- its product was there, so it has been erased by this day roll
        have hp := he.attached_iff.mp hold
        obtain ⟨q, hq⟩ : ∃ q, a.mapPrd.find i.productHash = some q := by
          have := he.live (by rw [hp]; rfl)
          rw [he.key] at this
          exact Option.isSome_iff_exists.mp this
        have h0 : 0 = q.unitVol.posLong ∧ 0 = q.unitVol.posShort := by
          by_contra h0
          apply hat
          rw [he.onSwitchDay.attached_iff, hp]
          exact (NodeMap.addr_sweep_kept hq (if_neg h0)).symm
        have hr := ha.roll _ q hq
        rw [← hp] at hr
        obtain ⟨h', m', h1, h2, h3⟩ := exists_negative hm he.pPrd hne
          ⟨by rw [← hr]; exact h0.1.symm, by rw [← hr]; exact h0.2.symm⟩
        exact ⟨h', m', h1, h2.trans he.pPrd.symm, h3⟩
      · exact ha.stale h m hm hold
    obtain ⟨h', m', h1, h2, h3⟩ := hneg
    refine ⟨h', m'.onSwitchDay, switchDay_instr_kept h1 ?_, h2, h3⟩
    rintro ⟨h4, h5⟩
    omega

end SwitchDay

end AccBase

open AccBase

/-! ## Operations -/

/-- A call on an `AccBase`. -/
inductive AccEvent (α : Type := ℚ) [OfNat α 0] where
  | regInstr (name : String)
  | new (dir : Dir) (off : Off) (px : α) (vol : Int) (instrHash : Hash)
  | rtn (t : OrderTrack α) (r : RtnMsg α)
  | orderTrack (t : OrderTrack α)
  | tickPx (instrHash : Hash) (px : α)
  | switchDay
  deriving DecidableEq, Repr

/-- A fill of `vol` closes no more than the position it closes, and opens no
negative one. -/
def Covered (dir : Dir) (off : Off) (u : UnitVol) (vol : Int) : Prop :=
  match Leg.of dir off with
  | some .longOpn | some .shortOpn => 0 ≤ vol
  | some .shortYdCls => vol ≤ u.posShortYd
  | some .shortTdCls => vol ≤ u.posShortTd
  | some .longYdCls => vol ≤ u.posLongYd
  | some .longTdCls => vol ≤ u.posLongTd
  | none => True

namespace AccEvent

variable {α : Type} [OfNat α 0] (info : TradeBaseInfo)

def apply [OfNat α 1] [Add α] [Sub α] [Mul α] [Div α] [Neg α] [IntCast α] [DecidableEq α] :
    AccEvent α → AccBase α → AccBase α
  | regInstr name, a => (a.regInstr info name).1
  | new dir off px vol h, a => a.onNew info dir off px vol h
  | rtn t r, a => a.onRtn info t r
  | orderTrack t, a => a.onOrderTrack info t
  | tickPx h px, a => a.onTickPx info h px
  | switchDay, a => a.onSwitchDay

/-- The instrument an operation is about. -/
def about : AccEvent α → Option Hash
  | regInstr name => some (info.nameHash name)
  | new _ _ _ _ h | tickPx h _ => some h
  | rtn t _ | orderTrack t => some t.instrHash
  | switchDay => none

/-- The multiple of the instrument an operation is about is not negative, if
`CTradeBaseInfo` knows the instrument. -/
def MultipleOk (e : AccEvent α) : Prop :=
  ∀ h i, e.about info = some h → info.find h = some i → 0 ≤ i.volMultiple

variable {info} in
theorem multipleOk (hv : info.VolMultiplesOk) (e : AccEvent α) : e.MultipleOk info :=
  fun h i _ hf => hv h i hf

/-- The fill an operation books is covered. -/
def Ok (a : AccBase) : AccEvent → Prop
  | rtn t r =>
    r.msgType.has .execution → Covered t.dir t.off (a.instrAt t.instrHash).unitVol r.vol
  | orderTrack t =>
    t.status.has .execution → Covered t.dir t.off (a.instrAt t.instrHash).unitVol t.volTraded
  | _ => True

/-- Runs of operations from an empty account in which every fill is covered. -/
def sys : Lib.Sys AccBase AccEvent where
  start a := a = {}
  ok a e := e.Ok a
  next a e := e.apply info a

end AccEvent

namespace AccBase

variable {info : TradeBaseInfo} {a : AccBase}

/-! ### Every operation keeps the invariant -/

theorem amts_onTrd (b : Books) (dir : Dir) (off : Off) (px : ℚ) (v vt : Int) (tp : ℚ) (tv : Int) :
    (b.onTrd dir off px v vt tp tv).instr.defect.amtLong = b.instr.defect.amtLong ∧
      (b.onTrd dir off px v vt tp tv).instr.defect.amtShort = b.instr.defect.amtShort := by
  rw [Books.defect_onTrd]
  exact ⟨rfl, rfl⟩

theorem amts_rtn (t : OrderTrack) (r : RtnMsg) (b : Books) :
    (rtnBooks t r b).instr.defect.amtLong = b.instr.defect.amtLong ∧
      (rtnBooks t r b).instr.defect.amtShort = b.instr.defect.amtShort := by
  unfold rtnBooks
  have h1 : (if hasAny r.msgType cxlMask then b.onCxl t.dir t.off t.price r.vol else b).instr.defect =
      b.instr.defect := by
    split
    · exact Books.defect_onCxl _ _ _ _ _
    · rfl
  simp only
  rw [← h1]
  split
  · exact amts_onTrd _ _ _ _ _ _ _ _
  · exact ⟨rfl, rfl⟩

theorem amts_orderTrack (t : OrderTrack) (b : Books) :
    (orderTrackBooks t b).instr.defect.amtLong = b.instr.defect.amtLong ∧
      (orderTrackBooks t b).instr.defect.amtShort = b.instr.defect.amtShort := by
  unfold orderTrackBooks
  have h1 : (if hasAny t.status (ods .send ||| ods .tdSend) then
      b.onNew t.dir t.off t.price t.vol else b).instr.defect = b.instr.defect := by
    split
    · exact Books.defect_onNew _ _ _ _ _
    · rfl
  generalize (if hasAny t.status (ods .send ||| ods .tdSend) then
    b.onNew t.dir t.off t.price t.vol else b) = c at h1
  have h2 : (if t.status.has .closed && t.vol != t.volTraded then
      c.onCxl t.dir t.off t.price (t.vol - t.volTraded) else c).instr.defect = c.instr.defect := by
    split
    · exact Books.defect_onCxl _ _ _ _ _
    · rfl
  simp only
  rw [← h1, ← h2]
  split
  · exact amts_onTrd _ _ _ _ _ _ _ _
  · exact ⟨rfl, rfl⟩

theorem Inv.regInstr (hv : ∀ i, info.find (info.nameHash name) = some i → 0 ≤ i.volMultiple)
    (ha : Inv info a) : Inv info (a.regInstr info name).1 := by
  cases hf : info.find (info.nameHash name) with
  | none =>
    have : a.regInstr info name = (a, false) := by simp [AccBase.regInstr, hf]
    rw [this]
    exact ha
  | some i =>
    rw [regInstr_eq (a := a) rfl hf (hv i hf)]
    exact ha.reg rfl hf

/-- Every operation keeps the invariant. -/
theorem inv_apply {e : AccEvent} (hv : e.MultipleOk info) (ha : Inv info a) :
    Inv info (e.apply info a) := by
  cases e with
  | regInstr name => exact ha.regInstr fun i hf => hv _ i rfl hf
  | new dir off px vol h =>
    refine ha.onInstr (fun i hf => hv h i rfl hf) (fun b => Balanced.onNew b dir off px vol) fun b => ?_
    rw [Books.defect_onNew]
    exact ⟨rfl, rfl⟩
  | rtn t r => exact ha.onInstr (fun i hf => hv _ i rfl hf) (balanced_rtn t r) (amts_rtn t r)
  | orderTrack t =>
    exact ha.onInstr (fun i hf => hv _ i rfl hf) (balanced_orderTrack t) (amts_orderTrack t)
  | tickPx h px =>
    refine ha.onInstr (fun i hf => hv h i rfl hf) (fun b => Balanced.onTickPx b px) fun b => ?_
    rw [Books.defect_onTickPx]
    exact ⟨rfl, rfl⟩
  | switchDay => exact ha.onSwitchDay

/-! ### Covered fills leave no negative position -/

structure NonNeg (u : UnitVol) : Prop where
  posLongYd : 0 ≤ u.posLongYd
  posLongTd : 0 ≤ u.posLongTd
  posShortYd : 0 ≤ u.posShortYd
  posShortTd : 0 ≤ u.posShortTd
  posLong : u.posLong = u.posLongYd + u.posLongTd
  posShort : u.posShort = u.posShortYd + u.posShortTd

theorem NonNeg.ing {u : UnitVol} (hu : NonNeg u) (dir : Dir) (off : Off) (v : Int) :
    NonNeg (u + ingOf dir off v) := by
  obtain ⟨h1, h2, h3, h4, h5, h6⟩ := hu
  unfold ingOf
  rcases Leg.of dir off with _ | l
  · constructor <;> simp [*]
  · cases l <;> constructor <;> simp [Leg.ing, *]

theorem NonNeg.trd {u : UnitVol} (hu : NonNeg u) {dir : Dir} {off : Off} {v : Int}
    (hc : Covered dir off u v) : NonNeg (u + trdOf dir off v) := by
  obtain ⟨h1, h2, h3, h4, h5, h6⟩ := hu
  unfold Covered at hc
  unfold trdOf
  generalize Leg.of dir off = o at hc ⊢
  rcases o with _ | l
  · constructor <;> simp [*]
  · cases l <;> constructor <;> simp [Leg.trd] <;> omega

theorem NonNeg.onSwitchDay {u : UnitVol} (hu : NonNeg u) : NonNeg u.onSwitchDay := by
  obtain ⟨h1, h2, h3, h4, h5, h6⟩ := hu
  constructor <;> simp [UnitVol.onSwitchDay] <;> omega

/-- No instrument has a negative position. -/
def AllNonNeg (a : AccBase) : Prop := ∀ h m, a.mapInstr.find h = some m → NonNeg m.unitVol

theorem AllNonNeg.instrAt (hn : AllNonNeg a) (h : Hash) : NonNeg (a.instrAt h).unitVol := by
  unfold AccBase.instrAt
  cases hm : a.mapInstr.find h with
  | none => constructor <;> simp
  | some m => exact hn h m hm

theorem AllNonNeg.reg {name : String} {h : Hash} {i : InstrumentInfo} (hn : AllNonNeg a) :
    AllNonNeg (a.reg name h i) := by
  intro h' m' hm'
  rw [reg_find] at hm'
  split at hm'
  · cases hm : a.mapInstr.find h with
    | none =>
      simp only [hm, Option.getD_none, Option.some.injEq] at hm'
      subst hm'
      constructor <;> simp [freshInstr]
    | some m =>
      simp only [hm, Option.getD_some, Option.some.injEq] at hm'
      subst hm'
      exact hn h m hm
  · exact hn _ _ hm'

theorem AllNonNeg.onInstr {h : Hash} (hw : WF info a)
    (hv : ∀ i, info.find h = some i → 0 ≤ i.volMultiple) (hn : AllNonNeg a) {f : Books → Books}
    (hf : ∀ b, b.instr.unitVol = (a.instrAt h).unitVol → NonNeg (f b).instr.unitVol) :
    AllNonNeg (a.onInstr info h f) := by
  cases hi : info.find h with
  | none => rw [onInstr_unknown f hi]; exact hn
  | some i =>
    rcases onInstr_cases hw hi (hv i hi) f with ⟨-, he⟩ | ⟨-, he⟩
    · rw [he]
      intro h' m' hm'
      rw [put_instr] at hm'
      split at hm'
      · simp only [Option.some.injEq] at hm'
        subst hm'
        exact hf _ booksAt_unitVol
      · exact hn.reg _ _ hm'
    · rw [he]
      exact hn.reg

/-- Pending volumes are no positions. -/
theorem covered_ing {dir : Dir} {off : Off} {u : UnitVol} {v w : Int} :
    Covered dir off (u + ingOf dir off v) w ↔ Covered dir off u w := by
  unfold Covered ingOf
  rcases Leg.of dir off with _ | l
  · rfl
  · cases l <;> simp [Leg.ing]

theorem nonNeg_rtn {t : OrderTrack} {r : RtnMsg} {b : Books} (hb : NonNeg b.instr.unitVol)
    (hc : r.msgType.has .execution → Covered t.dir t.off b.instr.unitVol r.vol) :
    NonNeg (rtnBooks t r b).instr.unitVol := by
  unfold rtnBooks
  split <;> split
  · rename_i he
    rw [Books.onTrd_unitVol, Books.onCxl_unitVol]
    exact (hb.ing _ _ _).trd (covered_ing.mpr (hc he))
  · rw [Books.onCxl_unitVol]
    exact hb.ing _ _ _
  · rename_i he
    rw [Books.onTrd_unitVol]
    exact hb.trd (hc he)
  · exact hb

theorem nonNeg_orderTrack {t : OrderTrack} {b : Books} (hb : NonNeg b.instr.unitVol)
    (hc : t.status.has .execution → Covered t.dir t.off b.instr.unitVol t.volTraded) :
    NonNeg (orderTrackBooks t b).instr.unitVol := by
  unfold orderTrackBooks
  have h1 : ∀ c : Books, NonNeg c.instr.unitVol →
      (t.status.has .execution → Covered t.dir t.off c.instr.unitVol t.volTraded) →
      ∀ px, NonNeg (if t.status.has .execution then
        c.onTrd t.dir t.off t.price t.vol t.volTraded px t.volTraded else c).instr.unitVol := by
    intro c hn hcov px
    split
    · rename_i he
      rw [Books.onTrd_unitVol]
      exact hn.trd (hcov he)
    · exact hn
  apply h1
  · split <;> split
    · rw [Books.onCxl_unitVol, Books.onNew_unitVol]
      exact (hb.ing _ _ _).ing _ _ _
    · rw [Books.onCxl_unitVol]
      exact hb.ing _ _ _
    · rw [Books.onNew_unitVol]
      exact hb.ing _ _ _
    · exact hb
  · intro he
    have hcov := hc he
    split <;> split <;> simpa only [Books.onNew_unitVol, Books.onCxl_unitVol, covered_ing] using hcov

/-- A covered operation leaves no negative position. -/
theorem allNonNeg_apply {e : AccEvent} (hw : WF info a) (hv : e.MultipleOk info) (hn : AllNonNeg a)
    (he : e.Ok a) : AllNonNeg (e.apply info a) := by
  cases e with
  | regInstr name =>
    cases hf : info.find (info.nameHash name) with
    | none =>
      have : a.regInstr info name = (a, false) := by simp [AccBase.regInstr, hf]
      simp only [AccEvent.apply, this]
      exact hn
    | some i =>
      simp only [AccEvent.apply, regInstr_eq (a := a) rfl hf (hv _ i rfl hf)]
      exact hn.reg
  | new dir off px vol h =>
    refine hn.onInstr hw (fun i hf => hv _ i rfl hf) fun b hb => ?_
    rw [Books.onNew_unitVol, hb]
    exact (hn.instrAt h).ing _ _ _
  | rtn t r =>
    refine hn.onInstr hw (fun i hf => hv _ i rfl hf) fun b hb => nonNeg_rtn (hb ▸ hn.instrAt _) ?_
    rw [hb]
    exact he
  | orderTrack t =>
    refine hn.onInstr hw (fun i hf => hv _ i rfl hf) fun b hb => nonNeg_orderTrack (hb ▸ hn.instrAt _) ?_
    rw [hb]
    exact he
  | tickPx h px =>
    refine hn.onInstr hw (fun i hf => hv _ i rfl hf) fun b hb => ?_
    rw [Books.onTickPx_unitVol, hb]
    exact hn.instrAt h
  | switchDay =>
    intro h m' hm'
    obtain ⟨m, hm, -, rfl⟩ := switchDay_instr_some hm'
    exact (hn h m hm).onSwitchDay

/-! ### Multiples -/

/-- Every instrument in the map has a multiple that `ModInstr::init` takes. -/
def Taken (a : AccBase) : Prop := ∀ h m, a.mapInstr.find h = some m → 0 ≤ m.volMultiple

section Multiples

variable {name : String} {h : Hash} {i : InstrumentInfo}

theorem Taken.reg (ht : Taken a) (hv : 0 ≤ i.volMultiple) : Taken (a.reg name h i) := by
  intro h' m' hm'
  rw [reg_find] at hm'
  split at hm'
  · cases hm : a.mapInstr.find h with
    | none =>
      simp only [hm, Option.getD_none, Option.some.injEq] at hm'
      rw [← hm']
      exact hv
    | some m =>
      simp only [hm, Option.getD_some, Option.some.injEq] at hm'
      rw [← hm']
      exact ht h m hm
  · exact ht h' m' hm'

theorem Taken.onInstr (hw : WF info a) (hv : ∀ i, info.find h = some i → 0 ≤ i.volMultiple)
    (ht : Taken a) {f : Books → Books} (hk : ∀ b, Keeps b (f b)) : Taken (a.onInstr info h f) := by
  cases hf : info.find h with
  | none => rw [onInstr_unknown f hf]; exact ht
  | some i =>
    have hr : Taken (a.reg i.instr h i) := ht.reg (hv i hf)
    rcases onInstr_cases hw hf (hv i hf) f with ⟨-, he⟩ | ⟨-, he⟩
    · rw [he]
      intro h' m' hm'
      rw [put_instr] at hm'
      split at hm'
      · simp only [Option.some.injEq] at hm'
        rw [← hm', (hk _).volMultiple, booksAt_volMultiple hw hf]
        exact hv i hf
      · exact hr h' m' hm'
    · rw [he]
      exact hr

theorem taken_apply {e : AccEvent} (hw : WF info a) (hv : e.MultipleOk info) (ht : Taken a) :
    Taken (e.apply info a) := by
  have hv' : ∀ h, e.about info = some h → ∀ i, info.find h = some i → 0 ≤ i.volMultiple :=
    fun h hh i hf => hv h i hh hf
  cases e with
  | regInstr name =>
    cases hf : info.find (info.nameHash name) with
    | none =>
      have : a.regInstr info name = (a, false) := by simp [AccBase.regInstr, hf]
      simp only [AccEvent.apply, this]
      exact ht
    | some i =>
      simp only [AccEvent.apply, regInstr_eq (a := a) rfl hf (hv' _ rfl i hf)]
      exact ht.reg (hv' _ rfl i hf)
  | new dir off px vol h => exact ht.onInstr hw (hv' h rfl) fun b => Keeps.onNew b dir off px vol
  | rtn t r => exact ht.onInstr hw (hv' _ rfl) (keeps_rtn t r)
  | orderTrack t => exact ht.onInstr hw (hv' _ rfl) (keeps_orderTrack t)
  | tickPx h px => exact ht.onInstr hw (hv' h rfl) fun b => Keeps.onTickPx b px
  | switchDay =>
    intro h m' hm'
    obtain ⟨m, hm, -, rfl⟩ := switchDay_instr_some hm'
    exact ht h m hm

/-- A refused multiple: the new node stays in the map, without pointers. -/
theorem regInstr_refused (hn : info.nameHash name = h) (hf : info.find h = some i)
    (hv : i.volMultiple < 0) (hnew : a.mapInstr.find h = none) :
    (a.regInstr info name).2 = false ∧ (a.regInstr info name).1.mapInstr.find h = some {} := by
  have hat : ∀ b : AccBase, b.mapInstr = a.mapInstr →
      b.isExistModInstr h = false ∧ b.instrAt h = {} := by
    intro b hb
    simp [isExistModInstr, instrAt, hb, hnew]
  have hprd : ∀ b : AccBase, b = (if a.isExistModPrd i.productHash then a
      else a.regModPrd info i.product) → b.mapInstr = a.mapInstr := by
    rintro b rfl
    unfold regModPrd
    split
    · rfl
    · simp only
      split <;> rfl
  obtain ⟨h1, h2⟩ := hat _ (hprd _ rfl)
  simp [AccBase.regInstr, hn, hf, h1, regModInstr, h2, ModInstr.init, hv]

/-- An operation about an instrument with a refused multiple leaves an
instrument that points nowhere. -/
theorem apply_refused {e : AccEvent} (hw : WF info a) (ht : Taken a) (he : ¬ e.MultipleOk info) :
    ∃ h, (e.apply info a).mapInstr.find h = some {} := by
  unfold AccEvent.MultipleOk at he
  push Not at he
  obtain ⟨h, i, hh, hf, hv⟩ := he
  have hnew : a.mapInstr.find h = none := by
    cases hm : a.mapInstr.find h with
    | none => rfl
    | some m =>
      obtain ⟨i', p, hen⟩ := hw.instr h m hm
      obtain rfl : i = i' := by have := hen.known; rw [hf] at this; simpa using this
      have := ht h m hm
      rw [hen.volMultiple] at this
      omega
  have hon : ∀ f, a.onInstr info h f = (a.regInstr info i.instr).1 := by
    intro f
    obtain ⟨h2, -⟩ := regInstr_refused (TradeBaseInfo.nameHash_instr hf) hf hv hnew
    simp only [AccBase.onInstr, hf]
    split
    · rename_i heq
      rw [heq]
    · rename_i heq
      rw [heq] at h2
      cases h2
  have hreg := (regInstr_refused (TradeBaseInfo.nameHash_instr hf) hf hv hnew).2
  cases e with
  | regInstr name =>
    obtain rfl : info.nameHash name = h := Option.some.inj hh
    exact ⟨_, (regInstr_refused rfl hf hv hnew).2⟩
  | new dir off px vol h' =>
    obtain rfl : h' = h := Option.some.inj hh
    exact ⟨_, (congrArg (·.mapInstr.find h') (hon _)).trans hreg⟩
  | rtn t r =>
    obtain rfl : t.instrHash = h := Option.some.inj hh
    exact ⟨_, (congrArg (·.mapInstr.find t.instrHash) (hon _)).trans hreg⟩
  | orderTrack t =>
    obtain rfl : t.instrHash = h := Option.some.inj hh
    exact ⟨_, (congrArg (·.mapInstr.find t.instrHash) (hon _)).trans hreg⟩
  | tickPx h' px =>
    obtain rfl : h' = h := Option.some.inj hh
    exact ⟨_, (congrArg (·.mapInstr.find h') (hon _)).trans hreg⟩
  | switchDay => cases hh

end Multiples

/-! ## The sums of the three levels -/

/-- The contributions of the instruments of product `k`. -/
def ofProduct (info : TradeBaseInfo) (k : Hash) (h : Hash) (m : ModInstr) : Contrib :=
  if (info.find h).map (·.productHash) = some k then m.contrib else 0

/-- The three levels agree, and every instrument points at its product. -/
structure RollUp (info : TradeBaseInfo) (a : AccBase) : Prop where
  prd : ∀ k q, a.mapPrd.find k = some q → q.contrib = a.sum (ofProduct info k)
  acc : a.modAcc.contrib = (a.sum fun _ m => m.contrib).2
  linked : ∀ h m, a.mapInstr.find h = some m → ∃ i q, info.find h = some i ∧
    m.pPrd = some (a.mapPrd.addr i.productHash) ∧ a.mapPrd.find i.productHash = some q

/-- Without negative positions no pointer is stale. -/
theorem Inv.linked (ha : Inv info a)
    (hn : ∀ h m, a.mapInstr.find h = some m → 0 ≤ m.unitVol.posLong ∧ 0 ≤ m.unitVol.posShort) :
    Linked info a where
  toWF := ha.toWF
  attached := by
    intro h m hm
    by_contra hat
    obtain ⟨h', m', hm', -, hneg⟩ := ha.stale h m hm hat
    have := hn h' m' hm'
    omega

theorem Linked.entry {h : Hash} {m : ModInstr} (hl : Linked info a)
    (hm : a.mapInstr.find h = some m) :
    ∃ i, Entry info a h m i (a.mapPrd.addr i.productHash) := by
  obtain ⟨i, p, he⟩ := hl.instr h m hm
  have hp := he.attached_iff.mp (hl.attached h m hm)
  exact ⟨i, hp ▸ he⟩

/-- Pointing at the node of a product is being of that product. -/
theorem Linked.sum_pointing (hl : Linked info a) (k : Hash) :
    a.sum (pointing ModInstr.contrib (a.mapPrd.addr k)) = a.sum (ofProduct info k) := by
  apply UMap.total_congr
  intro h m hm
  obtain ⟨i, he⟩ := hl.entry hm
  have hiff : m.pPrd = some (a.mapPrd.addr k) ↔ (info.find h).map (·.productHash) = some k := by
    rw [he.pPrd, he.known]
    simp only [Option.some.injEq, Option.map_some, NodeMap.addr, Ptr.mk.injEq]
    constructor
    · exact fun hk => hk.1
    · rintro rfl
      exact ⟨rfl, rfl⟩
  simp only [pointing, ofProduct, hiff]

theorem Inv.rollUp (ha : Inv info a)
    (hn : ∀ h m, a.mapInstr.find h = some m → 0 ≤ m.unitVol.posLong ∧ 0 ≤ m.unitVol.posShort) :
    RollUp info a where
  prd := by
    intro k q hq
    rw [ha.roll k q hq]
    exact (ha.linked hn).sum_pointing k
  acc := ha.acc
  linked := by
    intro h m hm
    obtain ⟨i, he⟩ := (ha.linked hn).entry hm
    obtain ⟨q, hq⟩ := Option.isSome_iff_exists.mp (he.live rfl)
    exact ⟨i, q, he.known, he.pPrd, hq⟩

end AccBase

/-- Runs of covered operations about instruments whose multiple is accepted. -/
def AccEvent.takenSys (info : TradeBaseInfo) : Lib.Sys AccBase AccEvent where
  start a := a = {}
  ok a e := e.Ok a ∧ e.MultipleOk info
  next a e := e.apply info a

/-- **Roll-up.** After every run of operations from the empty account whose
fills are covered and whose instruments have no negative multiple, every
product sums up its instruments, the account sums up all of them, and every
instrument points at its product in the map. The first operation about an
instrument with a negative multiple ends this. -/
theorem rollUp_of_run {info : TradeBaseInfo} {a : AccBase}
    (ha : (AccEvent.takenSys info).Reachable a) :
    RollUp info a ∧ ∀ e : AccEvent, ¬ e.MultipleOk info → ¬ RollUp info (e.apply info a) := by
  have hinv : Inv info a ∧ AllNonNeg a ∧ Taken a := by
    refine (AccEvent.takenSys info).invariant (I := fun a => Inv info a ∧ AllNonNeg a ∧ Taken a)
      ?_ ?_ ha
    · rintro a rfl
      exact ⟨inv_empty, fun _ _ hx => (by cases hx), fun _ _ hx => (by cases hx)⟩
    · rintro a e ⟨h1, h2, h3⟩ ⟨he, hv⟩
      exact ⟨inv_apply hv h1, allNonNeg_apply h1.toWF hv h2 he, taken_apply h1.toWF hv h3⟩
  constructor
  · refine hinv.1.rollUp fun h m hm => ?_
    obtain ⟨h1, h2, h3, h4, h5, h6⟩ := hinv.2.1 h m hm
    omega
  · intro e he hr
    obtain ⟨h, hm⟩ := apply_refused hinv.1.toWF hinv.2.2 he
    obtain ⟨i, q, -, hp, -⟩ := hr.linked h _ hm
    cases hp

/-- Two contracts of one product, a close and a day roll that erases one of
them, and its registration anew. -/
theorem rollUp_rb :
    let a := (AccEvent.takenSys TradeBaseInfo.rb).exec {}
      [.new .buy .opn 10 2 1,
        .rtn { instrHash := 1, dir := .buy, off := .opn, price := 10, vol := 2, volTraded := 2 }
          { msgType := ods .execution, price := 10, vol := 2 },
        .orderTrack
          { status := ods .send ||| ods .execution, instrHash := 2, dir := .sell, off := .opn
            price := 9, vol := 1, volTraded := 1, amountTraded := 9 },
        .rtn
          { instrHash := 1, dir := .sell, off := .closeToday, price := 11, vol := 2, volTraded := 2 }
          { msgType := ods .execution, price := 11, vol := 2 },
        .switchDay, .regInstr "rb1810", .tickPx 2 8]
    RollUp TradeBaseInfo.rb a ∧ ∀ e : AccEvent, ¬ e.MultipleOk TradeBaseInfo.rb →
      ¬ RollUp TradeBaseInfo.rb (e.apply TradeBaseInfo.rb a) := by
  have hv := AccEvent.multipleOk (α := ℚ) TradeBaseInfo.rb_volMultiplesOk
  refine rollUp_of_run ⟨{}, _, rfl, ?_, rfl⟩
  refine ⟨⟨trivial, hv _⟩, ⟨fun _ => ?_, hv _⟩, ⟨fun _ => ?_, hv _⟩, ⟨fun _ => ?_, hv _⟩,
    ⟨trivial, hv _⟩, ⟨trivial, hv _⟩, ⟨trivial, hv _⟩, trivial⟩
  · exact show (0 : Int) ≤ 2 by decide
  · exact show (0 : Int) ≤ 1 by decide
  · exact show (2 : Int) ≤ UnitVol.posLongTd _ by decide +kernel

theorem lookup_insert_empty {h k : Hash} {i j : InstrumentInfo}
    (hi : ((∅ : UMap Hash InstrumentInfo).insert h i).lookup k = some j) : k = h ∧ j = i := by
  simp only [UMap.lookup_insert_ite, AList.lookup_empty] at hi
  split at hi
  · exact ⟨‹_›, by simpa using hi.symm⟩
  · cases hi

/-- A table whose one contract has a negative multiple. -/
def rbNegative : TradeBaseInfo where
  nameHash name := if name = "rb1810" then 1 else 3
  instrInfo := AList.insert 1 { TradeBaseInfo.rb1810 with volMultiple := -1 } ∅
  key_hash h i hi := by
    obtain ⟨rfl, rfl⟩ := lookup_insert_empty hi
    decide
  product_inj h h' i i' hi hi' _ := by
    obtain ⟨-, rfl⟩ := lookup_insert_empty hi
    obtain ⟨-, rfl⟩ := lookup_insert_empty hi'
    rfl

/-- Registering it is refused, and its node stays without a product. -/
theorem not_rollUp :
    (AccEvent.sys rbNegative).Reachable ((AccEvent.regInstr "rb1810").apply rbNegative {}) ∧
      ¬ RollUp rbNegative ((AccEvent.regInstr "rb1810").apply rbNegative {}) := by
  refine ⟨⟨{}, [.regInstr "rb1810"], rfl, ⟨trivial, trivial⟩, rfl⟩, fun hr => ?_⟩
  obtain ⟨i, q, -, hp, -⟩ := hr.linked 1 {} (by decide +kernel)
  cases hp

end NatFramework.Account
