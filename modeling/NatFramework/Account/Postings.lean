import NatFramework.Account.Effect
import NatFramework.Account.RollUp

/-!
# The account as its start plus postings

A posting is an effect on an instrument. `Booked` says that an account is a
start account moved by a list of postings: each instrument by what was posted
to it, the product and the account by as much as their instruments (the gaps
between the levels stay what they were).

* `Booked.onInstr`: one event posts its effect.
* `Booked.same`: the sums of the postings and the last prices determine every
  instrument, every product and the account.
-/
namespace NatFramework.Account

open Lib

theorem UnitAmt.eq_of_shared {u v : UnitAmt} (h : shared u = shared v) (hb : u.amtBuy = v.amtBuy)
    (hs : u.amtSell = v.amtSell) : u = v := by
  obtain ⟨h1, h2, h3, h4, h5, h6, h7, h8, -, -⟩ := UnitAmt.ext_iff.mp h
  exact UnitAmt.ext h1 h2 h3 h4 h5 h6 h7 h8 hb hs

/-- Two accounts with the same contents. -/
structure AccBase.Same (a b : AccBase) : Prop where
  instr : ∀ h, a.mapInstr.find h = b.mapInstr.find h
  prd : ∀ k, a.mapPrd.find k = b.mapPrd.find k
  acc : a.modAcc = b.modAcc

/-- An instrument without its prices and pnl. -/
def ModInstr.read (m : ModInstr) : ModInstr := { m with unitPx := {}, unitPnl := {} }

/-- Two accounts that no pre-trade check tells apart: they may differ in prices
and pnl. -/
structure AccBase.SameRead (a b : AccBase) : Prop where
  instr : ∀ h, (a.mapInstr.find h).map ModInstr.read = (b.mapInstr.find h).map ModInstr.read
  prd : ∀ k, (a.mapPrd.find k).map (·.unitVol) = (b.mapPrd.find k).map (·.unitVol)
  unfilled : a.modAcc.unfilledOrderCnt = b.modAcc.unfilledOrderCnt
  unitAmt : a.modAcc.unitAmt = b.modAcc.unitAmt

namespace AccBase

variable {info : TradeBaseInfo} {a : AccBase} {name : String} {h k k' : Hash} {i : InstrumentInfo}
  {m : ModInstr} {q : ModPrd} {b : Books}

/-! ## What the product and the account have beyond their instruments -/

/-- The product less the instruments that point at it. -/
def gap (a : AccBase) (k : Hash) : Contrib :=
  (a.prdAt k).contrib - a.sum (pointing ModInstr.contrib (a.mapPrd.addr k))

/-- The account less all instruments. -/
def accGap (a : AccBase) : UnitAmt × UnitPnl :=
  a.modAcc.contrib - (a.sum fun _ m => m.contrib).2

theorem gap_reg : (a.reg name h i).gap k = a.gap k := by
  have haddr : (a.reg name h i).mapPrd.addr k = a.mapPrd.addr k := by simp [NodeMap.addr]
  have hprd : ((a.reg name h i).prdAt k).contrib = (a.prdAt k).contrib := by
    unfold prdAt
    rw [reg_mapPrd, regPrd_find]
    split
    · cases a.mapPrd.find k <;> rfl
    · rfl
  unfold gap
  rw [haddr, hprd, sum_reg]
  simp [pointing, contrib_fresh]

theorem accGap_reg : (a.reg name h i).accGap = a.accGap := by
  unfold accGap
  rw [reg_modAcc, sum_reg _ (contrib_fresh _)]

theorem gap_put (hm : a.mapInstr.find h = some m) (hp : m.pPrd = some (a.mapPrd.addr k))
    (hq : a.mapPrd.find k = some q) (hb : Balanced ⟨m, q, a.modAcc⟩ b) :
    (a.put h k b).gap k' = a.gap k' := by
  have hpb : b.instr.pPrd = some (a.mapPrd.addr k) := hb.pPrd.trans hp
  unfold gap
  rw [put_addr, sum_put _ hm, prdAt, put_prd]
  by_cases hk : k' = k
  · subst hk
    have hdiff := hb.prd
    rw [if_pos rfl, pointing, pointing, if_pos hpb, if_pos hp, ← hdiff, prdAt, hq]
    simp only [Option.getD_some]
    abel
  · have hne : ∀ x : ModInstr, x.pPrd = some (a.mapPrd.addr k) →
        pointing ModInstr.contrib (a.mapPrd.addr k') h x = 0 := by
      intro x hx
      rw [pointing, if_neg]
      rw [hx]
      simp only [Option.some.injEq, NodeMap.addr, Ptr.mk.injEq, not_and]
      exact fun hkk => absurd hkk.symm hk
    rw [if_neg hk, hne _ hpb, hne _ hp, sub_zero, add_zero]
    rfl

theorem accGap_put (hm : a.mapInstr.find h = some m) (hb : Balanced ⟨m, q, a.modAcc⟩ b) :
    (a.put h k b).accGap = a.accGap := by
  have hdiff := hb.acc
  unfold accGap
  rw [put_modAcc, sum_put _ hm]
  simp only [Prod.snd_add, Prod.snd_sub, ← hdiff]
  abel

/-- No balanced event changes a gap. -/
theorem Linked.gap_onInstr (hl : Linked info a) (hv : info.VolMultiplesOk) {f : Books → Books}
    (hb : ∀ b, Balanced b (f b)) (h k : Hash) :
    (a.onInstr info h f).gap k = a.gap k ∧ (a.onInstr info h f).accGap = a.accGap := by
  cases hf : info.find h with
  | none => simp [onInstr_unknown f hf]
  | some i =>
    have hr := hl.reg (TradeBaseInfo.nameHash_instr hf) hf
    obtain ⟨i', he⟩ := hr.entry reg_find_self
    obtain rfl : i = i' := by have := he.known; rw [hf] at this; simpa using this
    have hbal : Balanced ⟨(a.booksAt h i).instr, (a.booksAt h i).prd, (a.reg i.instr h i).modAcc⟩
        (f (a.booksAt h i)) := by
      rw [reg_modAcc]
      exact hb (a.booksAt h i)
    rw [hl.onInstr_eq hf (hv h i hf)]
    exact ⟨(gap_put reg_find_self he.pPrd reg_find_prd hbal).trans gap_reg,
      (accGap_put reg_find_self hbal).trans accGap_reg⟩

end AccBase

open AccBase

/-! ## Postings -/

/-- An effect on an instrument. -/
abbrev Posting := Hash × Effect

namespace Posting

/-- What the postings to `h` add up to. -/
def sumAt (h : Hash) (l : List Posting) : Effect := (l.map fun p => if p.1 = h then p.2 else 0).sum

def unfilled (l : List Posting) : Int := (l.map fun p => p.2.unfilled).sum

def Touched (h : Hash) (l : List Posting) : Prop := ∃ e, (h, e) ∈ l

/-- The same sums over the same instruments. -/
structure Equiv (l l' : List Posting) : Prop where
  sumAt : ∀ h, sumAt h l = sumAt h l'
  unfilled : unfilled l = unfilled l'
  touched : ∀ h, Touched h l ↔ Touched h l'

theorem sumAt_append (h : Hash) (l l' : List Posting) : sumAt h (l ++ l') = sumAt h l + sumAt h l' := by
  simp [sumAt]

@[simp] theorem sumAt_single (h h' : Hash) (e : Effect) : sumAt h [(h', e)] = if h' = h then e else 0 := by
  simp [sumAt]

theorem unfilled_append (l l' : List Posting) : unfilled (l ++ l') = unfilled l + unfilled l' := by
  simp [unfilled]

@[simp] theorem unfilled_single (p : Posting) : unfilled [p] = p.2.unfilled := by simp [unfilled]

theorem touched_append {h : Hash} {l l' : List Posting} :
    Touched h (l ++ l') ↔ Touched h l ∨ Touched h l' := by
  simp [Touched, exists_or]

@[simp] theorem touched_single {h h' : Hash} {e : Effect} : Touched h [(h', e)] ↔ h = h' := by
  simp [Touched]

theorem Equiv.refl (l : List Posting) : Equiv l l := ⟨fun _ => rfl, rfl, fun _ => Iff.rfl⟩

theorem Equiv.trans_eq {l l' l'' : List Posting} (h : Equiv l l') (he : l' = l'') : Equiv l l'' :=
  he ▸ h

theorem Equiv.of_perm {l l' : List Posting} (h : l.Perm l') : Equiv l l' where
  sumAt _ := (h.map _).sum_eq
  unfilled := (h.map _).sum_eq
  touched _ := exists_congr fun _ => h.mem_iff

/-- Posting to an instrument that has a posting is adding to that posting. -/
theorem Equiv.amend (l l' : List Posting) (h : Hash) (e d : Effect) :
    Equiv (l ++ (h, e) :: l' ++ [(h, d)]) (l ++ (h, e + d) :: l') where
  sumAt h' := by
    simp only [Posting.sumAt, List.map_append, List.sum_append, List.map_cons, List.sum_cons,
      List.map_nil, List.sum_nil]
    split
    · abel
    · abel
  unfilled := by
    simp only [Posting.unfilled, List.map_append, List.sum_append, List.map_cons, List.sum_cons,
      List.map_nil, List.sum_nil, Effect.add_unfilled]
    abel
  touched h' := by
    simp only [Touched, List.mem_append, List.mem_cons, List.not_mem_nil, or_false, Prod.mk.injEq]
    constructor
    · rintro ⟨x, (hx | ⟨rfl, -⟩ | hx) | ⟨rfl, -⟩⟩
      · exact ⟨x, Or.inl hx⟩
      · exact ⟨e + d, Or.inr (Or.inl ⟨rfl, rfl⟩)⟩
      · exact ⟨x, Or.inr (Or.inr hx)⟩
      · exact ⟨e + d, Or.inr (Or.inl ⟨rfl, rfl⟩)⟩
    · rintro ⟨x, hx | ⟨rfl, -⟩ | hx⟩
      · exact ⟨x, Or.inl (Or.inl hx)⟩
      · exact ⟨e, Or.inl (Or.inr (Or.inl ⟨rfl, rfl⟩))⟩
      · exact ⟨x, Or.inl (Or.inr (Or.inr hx))⟩

/-- The same at a position of the list. -/
theorem Equiv.set {l : List Posting} {k : Nat} {h : Hash} {e : Effect} (hk : l[k]? = some (h, e))
    (d : Effect) : Equiv (l ++ [(h, d)]) (l.set k (h, e + d)) := by
  obtain ⟨hlt, hget⟩ := List.getElem?_eq_some_iff.mp hk
  have hsplit : l = l.take k ++ (h, e) :: l.drop (k + 1) := by
    rw [← hget, List.getElem_cons_drop, List.take_append_drop]
  rw [List.set_eq_take_append_cons_drop, if_pos hlt]
  conv_lhs => rw [hsplit]
  exact Equiv.amend _ _ _ _ _

end Posting

open Posting

/-! ## The account as its start plus its postings -/

/-- What no order event changes, from the start account `a0` to `a`. -/
structure Sibling (info : TradeBaseInfo) (a0 a : AccBase) : Prop where
  linked : Linked info a
  addr : ∀ k, a.mapPrd.addr k = a0.mapPrd.addr k
  gap : ∀ k, a.gap k = a0.gap k
  accGap : a.accGap = a0.accGap
  prdBuy : ∀ k, (a.prdAt k).unitAmt.amtBuy = (a0.prdAt k).unitAmt.amtBuy
  prdSell : ∀ k, (a.prdAt k).unitAmt.amtSell = (a0.prdAt k).unitAmt.amtSell
  accBuy : a.modAcc.unitAmt.amtBuy = a0.modAcc.unitAmt.amtBuy
  accSell : a.modAcc.unitAmt.amtSell = a0.modAcc.unitAmt.amtSell

/-- `a` is `a0` after the postings `l`. -/
structure Booked (info : TradeBaseInfo) (a0 : AccBase) (l : List Posting) (a : AccBase) : Prop
    extends Sibling info a0 a where
  instr : ∀ h i, info.find h = some i →
    Moved (sumAt h l) (a0.booksAt h i).instr (a.booksAt h i).instr
  instrSome : ∀ h i, info.find h = some i → Touched h l → (a.mapInstr.find h).isSome
  instrKept : ∀ h, (∀ i, info.find h = some i → ¬ Touched h l) →
    a.mapInstr.find h = a0.mapInstr.find h
  prdSome : ∀ h i, info.find h = some i → Touched h l → (a.mapPrd.find i.productHash).isSome
  prdKept : ∀ k, (∀ h i, info.find h = some i → Touched h l → i.productHash ≠ k) →
    a.mapPrd.find k = a0.mapPrd.find k
  unfilled : a.modAcc.unfilledOrderCnt = a0.modAcc.unfilledOrderCnt + unfilled l

section Events

variable {info : TradeBaseInfo} {a0 a : AccBase} {l l' : List Posting} {h : Hash}
  {i : InstrumentInfo} {f : Books → Books} {e : Effect}

theorem booksAt_prd_unitAmt : (a.booksAt h i).prd.unitAmt = (a.prdAt i.productHash).unitAmt := by
  unfold booksAt prdAt
  cases a.mapPrd.find i.productHash <;> rfl

theorem Sibling.onInstr (hs : Sibling info a0 a) (hv : info.VolMultiplesOk) {vm : Int}
    (hd : Does vm f e) (h : Hash) : Sibling info a0 (a.onInstr info h f) := by
  cases hi : info.find h with
  | none => rw [onInstr_unknown f hi]; exact hs
  | some i =>
    have hgap := fun k => hs.linked.gap_onInstr hv hd.balanced h k
    have hkept := hd.kept (a.booksAt h i)
    have hprd := hs.linked.onInstr_prdAt hi (hv h i hi) f
    have hacc := hs.linked.onInstr_modAcc hi (hv h i hi) f
    refine ⟨hs.linked.onInstr hv fun b => (hd.balanced b).toKeeps,
      fun k => (hs.linked.onInstr_addr hv h k f).2.trans (hs.addr k),
      fun k => (hgap k).1.trans (hs.gap k), (hgap 0).2.trans hs.accGap, ?_, ?_, ?_, ?_⟩
    · intro k
      rw [hprd, ← hs.prdBuy]
      split
      · rename_i hk
        rw [hkept.prdBuy, booksAt_prd_unitAmt, hk]
      · rfl
    · intro k
      rw [hprd, ← hs.prdSell]
      split
      · rename_i hk
        rw [hkept.prdSell, booksAt_prd_unitAmt, hk]
      · rfl
    · rw [hacc, hkept.accBuy]
      exact hs.accBuy
    · rw [hacc, hkept.accSell]
      exact hs.accSell

namespace Booked

theorem start (hl : Linked info a0) : Booked info a0 [] a0 where
  linked := hl
  addr _ := rfl
  gap _ := rfl
  accGap := rfl
  prdBuy _ := rfl
  prdSell _ := rfl
  accBuy := rfl
  accSell := rfl
  instr _ _ _ := Moved.refl _
  instrSome _ _ _ ht := by simp [Touched] at ht
  instrKept _ _ := rfl
  prdSome _ _ _ ht := by simp [Touched] at ht
  prdKept _ _ := rfl
  unfilled := (add_zero _).symm

/-- Only the sums at the instruments the table knows matter. -/
theorem congr (hb : Booked info a0 l a) (hsum : ∀ h i, info.find h = some i → sumAt h l = sumAt h l')
    (ht : ∀ h i, info.find h = some i → (Touched h l ↔ Touched h l'))
    (hu : Posting.unfilled l = Posting.unfilled l') : Booked info a0 l' a where
  toSibling := hb.toSibling
  instr h i hf := hsum h i hf ▸ hb.instr h i hf
  instrSome h i hf hx := hb.instrSome h i hf ((ht h i hf).mpr hx)
  instrKept h hn := hb.instrKept h fun i hf hx => hn i hf ((ht h i hf).mp hx)
  prdSome h i hf hx := hb.prdSome h i hf ((ht h i hf).mpr hx)
  prdKept k hn := hb.prdKept k fun h i hf hx => hn h i hf ((ht h i hf).mp hx)
  unfilled := hu ▸ hb.unfilled

theorem equiv (hb : Booked info a0 l a) (he : Equiv l l') : Booked info a0 l' a :=
  hb.congr (fun h _ _ => he.sumAt h) (fun h _ _ => he.touched h) he.unfilled

theorem of_eq (hb : Booked info a0 l a) (he : l = l') : Booked info a0 l' a := he ▸ hb

theorem onInstr_known (hb : Booked info a0 l a) (hv : info.VolMultiplesOk)
    (hi : info.find h = some i) (hd : Does i.volMultiple f e) :
    Booked info a0 (l ++ [(h, e)]) (a.onInstr info h f) := by
  have hs := hb.toSibling.onInstr hv hd h
  have hput := hb.linked.onInstr_eq hi (hv h i hi) f
  refine ⟨hs, ?_, ?_, ?_, ?_, ?_, ?_⟩
  · intro h' i' hf'
    rw [sumAt_append, sumAt_single]
    refine (hb.instr h' i' hf').trans ?_
    unfold booksAt
    rw [hs.addr, ← hb.addr, hput, put_instr, reg_find]
    by_cases hh : h' = h
    · subst hh
      obtain rfl : i = i' := by rw [hi] at hf'; simpa using hf'
      rw [if_pos rfl, if_pos rfl]
      exact hd.moved _ (booksAt_volMultiple hb.linked.toWF hi)
    · rw [if_neg (Ne.symm hh), if_neg hh, if_neg hh]
      exact Moved.refl _
  · intro h' i' hf' ht
    rw [hput, put_instr, reg_find]
    split
    · rfl
    · rename_i hh
      rw [touched_append, touched_single, or_iff_left hh] at ht
      exact hb.instrSome h' i' hf' ht
  · intro h' hx
    have hh : h' ≠ h := by
      rintro rfl
      exact hx i hi (touched_append.mpr (Or.inr (touched_single.mpr rfl)))
    rw [hput, put_instr, reg_find, if_neg hh, if_neg hh]
    exact hb.instrKept h' fun i' hf' hy => hx i' hf' (touched_append.mpr (Or.inl hy))
  · intro h' i' hf' ht
    rw [hput, put_prd, reg_mapPrd, regPrd_find]
    split
    · rfl
    · rename_i hk
      rw [touched_append, touched_single] at ht
      rcases ht with ht | rfl
      · exact hb.prdSome h' i' hf' ht
      · rw [hi, Option.some.injEq] at hf'
        exact absurd (congrArg _ hf'.symm) hk
  · intro k hx
    have hk : k ≠ i.productHash := by
      rintro rfl
      exact hx h i hi (touched_append.mpr (Or.inr (touched_single.mpr rfl))) rfl
    rw [hput, put_prd, reg_mapPrd, regPrd_find, if_neg hk, if_neg hk]
    exact hb.prdKept k fun h' i' hf' hy => hx h' i' hf' (touched_append.mpr (Or.inl hy))
  · rw [hb.linked.onInstr_modAcc hi (hv h i hi), hd.unfilled, unfilled_append, unfilled_single,
      ← add_assoc, ← hb.unfilled]
    rfl

/-- One event on `h` posts its effect there; an instrument the table does not
know is left alone. -/
theorem onInstr (hb : Booked info a0 l a) (hv : info.VolMultiplesOk) (h : Hash) (e : Int → Effect)
    (hd : ∀ vm, Does vm f (e vm)) :
    Booked info a0 (l ++ [(h, (info.find h).elim 0 fun i => e i.volMultiple)])
      (a.onInstr info h f) := by
  cases hi : info.find h with
  | some i => exact hb.onInstr_known hv hi (hd _)
  | none =>
    have hne : ∀ h' i', info.find h' = some i' → h' ≠ h := by
      rintro h' i' hf' rfl
      rw [hi] at hf'
      cases hf'
    rw [onInstr_unknown f hi]
    refine hb.congr ?_ ?_ ?_
    · intro h' i' _
      simp [sumAt_append]
    · intro h' i' hf'
      rw [touched_append, touched_single, or_iff_left (hne h' i' hf')]
    · simp [unfilled_append]

/-- Registration is no event: it posts nothing to the instrument. -/
theorem reg (hb : Booked info a0 l a) (hi : info.find h = some i) :
    Booked info a0 (l ++ [(h, 0)]) (a.reg i.instr h i) := by
  have hprd : ∀ k, (a.reg i.instr h i).prdAt k =
      if k = i.productHash then (a.booksAt h i).prd else a.prdAt k := by
    intro k
    unfold prdAt
    rw [reg_mapPrd, regPrd_find]
    split
    · rename_i hk
      rw [hk]
      rfl
    · rfl
  have hs : Sibling info a0 (a.reg i.instr h i) := by
    refine ⟨hb.linked.reg (TradeBaseInfo.nameHash_instr hi) hi, fun k => ?_,
      fun k => gap_reg.trans (hb.gap k), accGap_reg.trans hb.accGap, fun k => ?_, fun k => ?_, ?_, ?_⟩
    · rw [← hb.addr]
      simp [NodeMap.addr]
    · rw [hprd, ← hb.prdBuy]
      split
      · rename_i hk
        rw [booksAt_prd_unitAmt, hk]
      · rfl
    · rw [hprd, ← hb.prdSell]
      split
      · rename_i hk
        rw [booksAt_prd_unitAmt, hk]
      · rfl
    · rw [reg_modAcc]
      exact hb.accBuy
    · rw [reg_modAcc]
      exact hb.accSell
  have hat : ∀ h' i', info.find h' = some i' →
      ((a.reg i.instr h i).booksAt h' i').instr = (a.booksAt h' i').instr := by
    intro h' i' hi'
    unfold booksAt
    rw [hs.addr, ← hb.addr, reg_find]
    by_cases hh : h' = h
    · subst hh
      obtain rfl : i = i' := by rw [hi] at hi'; simpa using hi'
      rw [if_pos rfl]
      rfl
    · rw [if_neg hh]
  refine ⟨hs, ?_, ?_, ?_, ?_, ?_, ?_⟩
  · intro h' i' hi'
    rw [sumAt_append, sumAt_single, ite_self, add_zero, hat h' i' hi']
    exact hb.instr h' i' hi'
  · intro h' i' hi' ht
    rw [reg_find]
    split
    · rfl
    · rename_i hh
      rw [touched_append, touched_single, or_iff_left hh] at ht
      exact hb.instrSome h' i' hi' ht
  · intro h' hx
    have hh : h' ≠ h := by
      rintro rfl
      exact hx i hi (touched_append.mpr (Or.inr (touched_single.mpr rfl)))
    rw [reg_find, if_neg hh]
    exact hb.instrKept h' fun i' hi' hy => hx i' hi' (touched_append.mpr (Or.inl hy))
  · intro h' i' hi' ht
    rw [reg_mapPrd, regPrd_find]
    split
    · rfl
    · rename_i hk
      rw [touched_append, touched_single] at ht
      rcases ht with ht | rfl
      · exact hb.prdSome h' i' hi' ht
      · rw [hi, Option.some.injEq] at hi'
        exact absurd (congrArg _ hi'.symm) hk
  · intro k hx
    have hk : k ≠ i.productHash := by
      rintro rfl
      exact hx h i hi (touched_append.mpr (Or.inr (touched_single.mpr rfl))) rfl
    rw [reg_mapPrd, regPrd_find, if_neg hk]
    exact hb.prdKept k fun h' i' hi' hy => hx h' i' hi' (touched_append.mpr (Or.inl hy))
  · rw [reg_modAcc, unfilled_append, unfilled_single, hb.unfilled]
    simp

/-- Equal instruments and counts make equal accounts: the gaps are the same. -/
theorem same_of_instr {a' : AccBase} (hb : Booked info a0 l a) (hb' : Booked info a0 l' a')
    (ht : ∀ h i, info.find h = some i → (Touched h l ↔ Touched h l'))
    (hu : Posting.unfilled l = Posting.unfilled l')
    (hinstr : ∀ h, a.mapInstr.find h = a'.mapInstr.find h) : Same a a' := by
  have hsum : ∀ {M : Type} [AddCommGroup M] (g : Hash → ModInstr → M), a.sum g = a'.sum g :=
    fun g => UMap.total_eq_of_lookup g hinstr
  refine ⟨hinstr, ?_, ?_⟩
  · intro k
    by_cases hx : ∀ h i, info.find h = some i → Touched h l → i.productHash ≠ k
    · rw [hb.prdKept k hx, hb'.prdKept k fun h i hf hy => hx h i hf ((ht h i hf).mpr hy)]
    · push Not at hx
      obtain ⟨h, i, hf, hy, rfl⟩ := hx
      obtain ⟨q, hq⟩ := Option.isSome_iff_exists.mp (hb.prdSome h i hf hy)
      obtain ⟨q', hq'⟩ := Option.isSome_iff_exists.mp (hb'.prdSome h i hf ((ht h i hf).mp hy))
      have hgap := (hb.gap i.productHash).trans (hb'.gap i.productHash).symm
      have hbuy := (hb.prdBuy i.productHash).trans (hb'.prdBuy i.productHash).symm
      have hsell := (hb.prdSell i.productHash).trans (hb'.prdSell i.productHash).symm
      obtain ⟨h1, i1, hf1, hk1, hn1⟩ := hb.linked.prd _ _ hq
      obtain ⟨h2, i2, hf2, hk2, hn2⟩ := hb'.linked.prd _ _ hq'
      have hname := info.product_inj h1 h2 i1 i2 hf1 hf2 (hk1.trans hk2.symm)
      unfold AccBase.gap at hgap
      rw [hsum, hb.addr, hb'.addr, sub_left_inj] at hgap
      simp only [prdAt, hq, hq', Option.getD_some] at hgap hbuy hsell
      obtain ⟨hvol, hamt, hpnl⟩ := Prod.mk.inj hgap |>.imp id Prod.mk.inj
      rw [hq, hq', Option.some.injEq]
      ext1
      · rw [hn1, hn2, hname]
      · exact hvol
      · exact UnitAmt.eq_of_shared hamt hbuy hsell
      · exact hpnl
  · have hgap := hb.accGap.trans hb'.accGap.symm
    unfold AccBase.accGap at hgap
    rw [hsum, sub_left_inj] at hgap
    obtain ⟨hamt, hpnl⟩ := Prod.mk.inj hgap
    ext1
    · rw [hb.unfilled, hb'.unfilled, hu]
    · exact UnitAmt.eq_of_shared hamt (hb.accBuy.trans hb'.accBuy.symm)
        (hb.accSell.trans hb'.accSell.symm)
    · exact hpnl

/-- The sums of the postings and the last prices determine the account. -/
theorem same {a' : AccBase} (hb : Booked info a0 l a) (hb' : Booked info a0 l a')
    (hpx : ∀ h i, info.find h = some i → Touched h l →
      (a.booksAt h i).instr.unitPx.lastPx = (a'.booksAt h i).instr.unitPx.lastPx) :
    Same a a' := by
  refine hb.same_of_instr hb' (fun _ _ _ => Iff.rfl) rfl ?_
  intro h
  by_cases hx : ∀ i, info.find h = some i → ¬ Touched h l
  · rw [hb.instrKept h hx, hb'.instrKept h hx]
  · push Not at hx
    obtain ⟨i, hf, ht⟩ := hx
    obtain ⟨m, hm⟩ := Option.isSome_iff_exists.mp (hb.instrSome h i hf ht)
    obtain ⟨m', hm'⟩ := Option.isSome_iff_exists.mp (hb'.instrSome h i hf ht)
    have heq := (hb.instr h i hf).ext (hb'.instr h i hf) (hpx h i hf ht)
    simp only [booksAt, hm, hm', Option.getD_some] at heq
    rw [hm, hm', heq]

/-- The postings determine what a check reads, if the instruments with a position
have the same last price. -/
theorem sameRead {a' : AccBase} (hb : Booked info a0 l a) (hb' : Booked info a0 l a')
    (hpx : ∀ h i, info.find h = some i → Touched h l →
      (a.booksAt h i).instr.unitPx.lastPx = (a'.booksAt h i).instr.unitPx.lastPx ∨
        (a.booksAt h i).instr.unitVol.posLong = 0 ∧ (a.booksAt h i).instr.unitVol.posShort = 0) :
    SameRead a a' := by
  have hinstr : ∀ h, (a.mapInstr.find h).map ModInstr.read =
      (a'.mapInstr.find h).map ModInstr.read := by
    intro h
    by_cases hx : ∀ i, info.find h = some i → ¬ Touched h l
    · rw [hb.instrKept h hx, hb'.instrKept h hx]
    · push Not at hx
      obtain ⟨i, hf, ht⟩ := hx
      obtain ⟨m, hm⟩ := Option.isSome_iff_exists.mp (hb.instrSome h i hf ht)
      obtain ⟨m', hm'⟩ := Option.isSome_iff_exists.mp (hb'.instrSome h i hf ht)
      have hmv := hb.instr h i hf
      have hmv' := hb'.instr h i hf
      have hamt := hmv.unitAmt_eq hmv' (hpx h i hf ht)
      simp only [booksAt, hm, hm', Option.getD_some] at hmv hmv' hamt
      rw [hm, hm', Option.map_some, Option.map_some, Option.some.injEq]
      unfold ModInstr.read
      ext1
      · exact hmv.unitVol.trans hmv'.unitVol.symm
      · exact hamt
      · rfl
      · rfl
      · exact hmv.pPrd.trans hmv'.pPrd.symm
      · exact hmv.pAcc.trans hmv'.pAcc.symm
      · exact hmv.instrName.trans hmv'.instrName.symm
      · exact hmv.volMultiple.trans hmv'.volMultiple.symm
  refine ⟨hinstr, ?_, ?_, ?_⟩
  · intro k
    by_cases hx : ∀ h i, info.find h = some i → Touched h l → i.productHash ≠ k
    · rw [hb.prdKept k hx, hb'.prdKept k hx]
    · push Not at hx
      obtain ⟨h, i, hf, ht, rfl⟩ := hx
      obtain ⟨q, hq⟩ := Option.isSome_iff_exists.mp (hb.prdSome h i hf ht)
      obtain ⟨q', hq'⟩ := Option.isSome_iff_exists.mp (hb'.prdSome h i hf ht)
      have hsum : ∀ p, (a.sum fun h m => (pointing ModInstr.contrib p h m).1) = a'.sum fun h m => (pointing ModInstr.contrib p h m).1 := by
        intro p
        refine UMap.total_eq_of_part ModInstr.read (fun h m => ?_) hinstr
        unfold pointing ModInstr.read
        split <;> rfl
      have hfst : ∀ b : AccBase, ∀ p, (b.sum (pointing ModInstr.contrib p)).1 = b.sum fun h m => (pointing ModInstr.contrib p h m).1 :=
        fun b p => UMap.map_total (AddMonoidHom.fst UnitVol (UnitAmt × UnitPnl)) (pointing ModInstr.contrib p) _
      have hgap := congrArg Prod.fst ((hb.gap i.productHash).trans (hb'.gap i.productHash).symm)
      unfold AccBase.gap at hgap
      rw [Prod.fst_sub, Prod.fst_sub, hfst, hfst, hsum, hb.addr, hb'.addr, sub_left_inj] at hgap
      simp only [prdAt, hq, hq', Option.getD_some] at hgap
      rw [hq, hq', Option.map_some, Option.map_some, Option.some.injEq]
      exact hgap
  · rw [hb.unfilled, hb'.unfilled]
  · have hsum : (a.sum fun _ m => m.contrib.2.1) = a'.sum fun _ m => m.contrib.2.1 :=
      UMap.total_eq_of_part ModInstr.read (fun _ _ => rfl) hinstr
    have hfst : ∀ b : AccBase, ((b.sum fun _ m => m.contrib).2).1 = b.sum fun _ m => m.contrib.2.1 :=
      fun b => UMap.map_total ((AddMonoidHom.fst UnitAmt UnitPnl).comp
        (AddMonoidHom.snd UnitVol (UnitAmt × UnitPnl))) (fun _ (m : ModInstr) => m.contrib) _
    have hgap := congrArg Prod.fst (hb.accGap.trans hb'.accGap.symm)
    unfold AccBase.accGap at hgap
    rw [Prod.fst_sub, Prod.fst_sub, hfst, hfst, hsum, sub_left_inj] at hgap
    exact UnitAmt.eq_of_shared hgap (hb.accBuy.trans hb'.accBuy.symm)
      (hb.accSell.trans hb'.accSell.symm)

/-- When two histories give the same account, once every instrument is registered. -/
theorem same_iff {a' : AccBase} (hb : Booked info a0 l a) (hb' : Booked info a0 l' a')
    (ht : ∀ h i, info.find h = some i → Touched h l ∧ Touched h l') :
    Same a a' ↔ Posting.unfilled l = Posting.unfilled l' ∧ ∀ h i, info.find h = some i →
      (sumAt h l).Alike (a0.booksAt h i).instr (sumAt h l') ∧
        (a.booksAt h i).instr.unitPx.lastPx = (a'.booksAt h i).instr.unitPx.lastPx := by
  have hat : ∀ h i, info.find h = some i → (a.mapInstr.find h = a'.mapInstr.find h ↔
      (a.booksAt h i).instr = (a'.booksAt h i).instr) := by
    intro h i hi
    obtain ⟨m, hm⟩ := Option.isSome_iff_exists.mp (hb.instrSome h i hi (ht h i hi).1)
    obtain ⟨m', hm'⟩ := Option.isSome_iff_exists.mp (hb'.instrSome h i hi (ht h i hi).2)
    simp only [booksAt, hm, hm', Option.getD_some, Option.some.injEq]
  constructor
  · intro hsame
    have hu := congrArg ModAcc.unfilledOrderCnt hsame.acc
    rw [hb.unfilled, hb'.unfilled, add_right_inj] at hu
    refine ⟨hu, fun h i hi => ?_⟩
    exact ((hb.instr h i hi).eq_iff (hb'.instr h i hi)).mp ((hat h i hi).mp (hsame.instr h))
  · rintro ⟨hu, hall⟩
    refine hb.same_of_instr hb' (fun h i hi => iff_of_true (ht h i hi).1 (ht h i hi).2) hu ?_
    intro h
    cases hi : info.find h with
    | none =>
      have hn : ∀ i, info.find h = some i → False := fun i hi' => by rw [hi] at hi'; cases hi'
      rw [hb.instrKept h fun i hi' _ => hn i hi', hb'.instrKept h fun i hi' _ => hn i hi']
    | some i =>
      exact (hat h i hi).mpr (((hb.instr h i hi).eq_iff (hb'.instr h i hi)).mpr (hall h i hi))

end Booked

end Events

end NatFramework.Account
