import NatFramework.Account.AccBase
import NatFramework.Account.MarkToMarket

/-!
# What an order event leaves behind

The revaluations inside `onTickPx` and `onTrd` depend on the prices seen so far,
so two histories of the same orders pass through different amounts and pnl.
`Effect` is the part of an event that does not: the volumes, the pending and
turnover amounts, the unfilled count, and whether something was bought or sold.
Effects add up, in any order.

* `Does vm f e`: on an instrument of multiple `vm` the event `f` has effect `e`.
* `Moved.ext`: an instrument moved by an effect is determined by the effect and
  the last price, since the defects of mark to market are conserved.
* `Booked`: the account after any events, as the start account moved by the sum
  of their effects. `Booked.same`: this determines every field of the account.
-/
namespace NatFramework.Account

open Lib

/-! ## Effects -/

/-- All amounts but those of the positions. -/
def UnitAmt.flow : UnitAmt →+ UnitAmt where
  toFun u := { u with amtLong := 0, amtShort := 0 }
  map_zero' := rfl
  map_add' a b := by ext <;> simp

@[simp] theorem UnitAmt.flow_tickAmt (m : ModInstr) (px : ℚ) : (tickAmt m px).flow = 0 := by
  ext <;> rfl

@[simp] theorem UnitAmt.flow_amtPosOf (dir : Dir) (off : Off) (x : ℚ) :
    (amtPosOf dir off x).flow = 0 := by
  unfold amtPosOf
  rcases Leg.of dir off with _ | l
  · rfl
  · cases l <;> rfl

@[simp] theorem UnitAmt.flow_amtIngOf (dir : Dir) (off : Off) (x : ℚ) :
    (amtIngOf dir off x).flow = amtIngOf dir off x := by
  unfold amtIngOf
  rcases Leg.of dir off with _ | l
  · rfl
  · cases l <;> rfl

@[simp] theorem UnitAmt.flow_amtTrd (dir : Dir) (x : ℚ) : (amtTrd dir x).flow = amtTrd dir x := by
  cases dir <;> rfl

@[ext] structure Effect where
  vol : UnitVol := 0
  amt : UnitAmt := 0
  stray : ℚ := 0
  unfilled : Int := 0
  buys : Bool := false
  sells : Bool := false
  deriving DecidableEq, Repr

namespace Effect

@[simps] instance : Zero Effect where zero := {}

@[simps] instance : Add Effect where
  add a b :=
    ⟨a.vol + b.vol, a.amt + b.amt, a.stray + b.stray, a.unfilled + b.unfilled, a.buys || b.buys,
     a.sells || b.sells⟩

instance : AddCommMonoid Effect where
  add_assoc a b c := by ext1 <;> simp [add_assoc, Bool.or_assoc]
  zero_add a := by ext1 <;> simp
  add_zero a := by ext1 <;> simp
  add_comm a b := by ext1 <;> simp [add_comm, Bool.or_comm]
  nsmul := nsmulRec

section Events

variable (vm : Int) (dir : Dir) (off : Off)

/-- An order of `vol` at `px`. -/
def new (px : ℚ) (vol : Int) : Effect :=
  { vol := ingOf dir off vol, amt := amtIngOf dir off (px * vol * vm), unfilled := 1 }

/-- The closing return of `vol`. -/
def cxl (px : ℚ) (vol : Int) : Effect :=
  { vol := ingOf dir off (-vol), amt := amtIngOf dir off (-(px * vol * vm)), unfilled := -1 }

/-- Fills of `vol` for `amt`; `done` when they complete the order. -/
def trd (px : ℚ) (done : Bool) (vol : Int) (amt : ℚ) : Effect where
  vol := trdOf dir off vol
  amt := amtIngOf dir off (-(px * vol * vm)) + amtTrd dir (amt * vm)
  stray := Books.stray dir off (amt * vm)
  unfilled := if done then -1 else 0
  buys := dir = .buy
  sells := dir = .sell

end Events

variable {vm : Int} {dir : Dir} {off : Off}

/-- Fills add up, whatever their prices. -/
theorem trd_add (px : ℚ) (done : Bool) (v w : Int) (x y : ℚ) :
    trd vm dir off px done (v + w) (x + y) =
      trd vm dir off px false v x + trd vm dir off px done w y := by
  have hing : -(px * ((v + w : Int) : ℚ) * vm) = -(px * v * vm) + -(px * w * vm) := by
    push_cast
    ring
  have hamt : (x + y) * (vm : ℚ) = x * vm + y * vm := by ring
  have hstray : Books.stray dir off (x * vm + y * vm) =
      Books.stray dir off (x * vm) + Books.stray dir off (y * vm) := by
    unfold Books.stray
    rcases Leg.of dir off with _ | l
    · simp only [Option.elim_none, map_add, UnitAmt.add_amtBuy, UnitAmt.add_amtSell]
      ring
    · simp
  ext1
  · simp [trd]
  · simp only [trd, hing, hamt, map_add, add_amt]
    abel
  · simp only [trd, hamt, hstray, add_stray]
  · simp [trd]
  · simp [trd]
  · simp [trd]

end Effect

/-! ## Moving an instrument -/

/-- `m'` is `m` after events of effect `e`. -/
structure Moved (e : Effect) (m m' : ModInstr) : Prop where
  unitVol : m'.unitVol = m.unitVol + e.vol
  unitAmt : m'.unitAmt.flow = m.unitAmt.flow + e.amt
  defect : m'.defect = { m.defect with trdPnl := m.defect.trdPnl + e.stray }
  stlPxYd : m'.unitPx.stlPxYd = m.unitPx.stlPxYd
  avgPxBuy : m'.unitPx.avgPxBuy =
    if e.buys then UnitPx.calcAvgPx m'.unitAmt.amtBuy m'.unitVol.posBuy m'.volMultiple
    else m.unitPx.avgPxBuy
  avgPxSell : m'.unitPx.avgPxSell =
    if e.sells then UnitPx.calcAvgPx m'.unitAmt.amtSell m'.unitVol.posSell m'.volMultiple
    else m.unitPx.avgPxSell
  notBuys : e.buys = false → e.vol.posBuy = 0 ∧ e.amt.amtBuy = 0
  notSells : e.sells = false → e.vol.posSell = 0 ∧ e.amt.amtSell = 0
  pPrd : m'.pPrd = m.pPrd
  pAcc : m'.pAcc = m.pAcc
  instrName : m'.instrName = m.instrName
  volMultiple : m'.volMultiple = m.volMultiple

namespace Moved

variable {e e' : Effect} {m m' m'' : ModInstr}

theorem refl (m : ModInstr) : Moved 0 m m where
  unitVol := (add_zero _).symm
  unitAmt := (add_zero _).symm
  defect := by rw [Effect.zero_stray, add_zero]
  stlPxYd := rfl
  avgPxBuy := rfl
  avgPxSell := rfl
  notBuys _ := ⟨rfl, rfl⟩
  notSells _ := ⟨rfl, rfl⟩
  pPrd := rfl
  pAcc := rfl
  instrName := rfl
  volMultiple := rfl

/-- An event that trades nothing. -/
theorem of_pending {b b' : Books} {v : UnitVol} {x : UnitAmt} {d : Int} (hb : Balanced b b')
    (hdef : b'.instr.defect = b.instr.defect) (hvol : b'.instr.unitVol = b.instr.unitVol + v)
    (hamt : b'.instr.unitAmt.flow = b.instr.unitAmt.flow + x)
    (hpx : b'.instr.unitPx = { b.instr.unitPx with lastPx := b'.instr.unitPx.lastPx })
    (hv : v.posBuy = 0 ∧ v.posSell = 0) (hx : x.amtBuy = 0 ∧ x.amtSell = 0) :
    Moved { vol := v, amt := x, unfilled := d } b.instr b'.instr where
  unitVol := hvol
  unitAmt := hamt
  defect := by rw [hdef, add_zero]
  stlPxYd := by rw [hpx]
  avgPxBuy := by rw [hpx]; rfl
  avgPxSell := by rw [hpx]; rfl
  notBuys _ := ⟨hv.1, hx.1⟩
  notSells _ := ⟨hv.2, hx.2⟩
  pPrd := hb.pPrd
  pAcc := hb.pAcc
  instrName := hb.instrName
  volMultiple := hb.volMultiple

theorem amtBuy (h : Moved e m m') : m'.unitAmt.amtBuy = m.unitAmt.amtBuy + e.amt.amtBuy :=
  congrArg UnitAmt.amtBuy h.unitAmt

theorem amtSell (h : Moved e m m') : m'.unitAmt.amtSell = m.unitAmt.amtSell + e.amt.amtSell :=
  congrArg UnitAmt.amtSell h.unitAmt

theorem trans (h : Moved e m m') (h' : Moved e' m' m'') : Moved (e + e') m m'' where
  unitVol := by rw [h'.unitVol, h.unitVol, Effect.add_vol, add_assoc]
  unitAmt := by rw [h'.unitAmt, h.unitAmt, Effect.add_amt, add_assoc]
  defect := by rw [h'.defect, h.defect, Effect.add_stray, add_assoc]
  stlPxYd := h'.stlPxYd.trans h.stlPxYd
  avgPxBuy := by
    rw [h'.avgPxBuy, Effect.add_buys]
    cases hb : e'.buys with
    | true => simp
    | false =>
      -- the average taken at the last purchase still is the average
      obtain ⟨h1, h2⟩ := h'.notBuys hb
      rw [h'.amtBuy, h'.unitVol, h'.volMultiple, h.avgPxBuy, UnitVol.add_posBuy, h1, h2]
      simp
  avgPxSell := by
    rw [h'.avgPxSell, Effect.add_sells]
    cases hb : e'.sells with
    | true => simp
    | false =>
      obtain ⟨h1, h2⟩ := h'.notSells hb
      rw [h'.amtSell, h'.unitVol, h'.volMultiple, h.avgPxSell, UnitVol.add_posSell, h1, h2]
      simp
  notBuys := by
    intro hb
    rw [Effect.add_buys, Bool.or_eq_false_iff] at hb
    obtain ⟨h1, h2⟩ := h.notBuys hb.1
    obtain ⟨h3, h4⟩ := h'.notBuys hb.2
    simp [h1, h2, h3, h4]
  notSells := by
    intro hb
    rw [Effect.add_sells, Bool.or_eq_false_iff] at hb
    obtain ⟨h1, h2⟩ := h.notSells hb.1
    obtain ⟨h3, h4⟩ := h'.notSells hb.2
    simp [h1, h2, h3, h4]
  pPrd := h'.pPrd.trans h.pPrd
  pAcc := h'.pAcc.trans h.pAcc
  instrName := h'.instrName.trans h.instrName
  volMultiple := h'.volMultiple.trans h.volMultiple

/-- The effect determines the amounts, the position amounts up to what the
position is worth at the last price. -/
theorem unitAmt_eq (h : Moved e m m') (h' : Moved e m m'')
    (hpx : m'.unitPx.lastPx = m''.unitPx.lastPx ∨
      m'.unitVol.posLong = 0 ∧ m'.unitVol.posShort = 0) : m'.unitAmt = m''.unitAmt := by
  have hvol : m'.unitVol = m''.unitVol := h.unitVol.trans h'.unitVol.symm
  have hflow : m'.unitAmt.flow = m''.unitAmt.flow := h.unitAmt.trans h'.unitAmt.symm
  have hvm : m'.volMultiple = m''.volMultiple := h.volMultiple.trans h'.volMultiple.symm
  have hdef : m'.defect = m''.defect := h.defect.trans h'.defect.symm
  have hlong := congrArg Defect.amtLong hdef
  have hshort := congrArg Defect.amtShort hdef
  have hworth : ∀ p : Int, p = 0 ∨ m'.unitPx.lastPx = m''.unitPx.lastPx →
      m'.unitPx.lastPx * p * m''.volMultiple = m''.unitPx.lastPx * p * m''.volMultiple := by
    rintro p (rfl | hp)
    · simp
    · rw [hp]
  have hl := hworth m'.unitVol.posLong (hpx.symm.imp And.left id)
  have hs := hworth m'.unitVol.posShort (hpx.symm.imp And.right id)
  simp only [ModInstr.defect_amtLong, ModInstr.defect_amtShort, hvm, ← hvol, hl, hs,
    sub_left_inj] at hlong hshort
  have hf := UnitAmt.ext_iff.mp hflow
  ext
  · exact hf.1
  · exact hf.2.1
  · exact hf.2.2.1
  · exact hlong
  · exact hf.2.2.2.2.1
  · exact hf.2.2.2.2.2.1
  · exact hf.2.2.2.2.2.2.1
  · exact hshort
  · exact h.amtBuy.trans h'.amtBuy.symm
  · exact h.amtSell.trans h'.amtSell.symm

/-- The effect and the last price determine the instrument: the position amounts
and the pnl are what the conserved defects leave of their closed forms. -/
theorem ext (h : Moved e m m') (h' : Moved e m m'') (hpx : m'.unitPx.lastPx = m''.unitPx.lastPx) :
    m' = m'' := by
  have hvol : m'.unitVol = m''.unitVol := h.unitVol.trans h'.unitVol.symm
  have hbuy : m'.unitAmt.amtBuy = m''.unitAmt.amtBuy := h.amtBuy.trans h'.amtBuy.symm
  have hsell : m'.unitAmt.amtSell = m''.unitAmt.amtSell := h.amtSell.trans h'.amtSell.symm
  have hvm : m'.volMultiple = m''.volMultiple := h.volMultiple.trans h'.volMultiple.symm
  have hstl : m'.unitPx.stlPxYd = m''.unitPx.stlPxYd := h.stlPxYd.trans h'.stlPxYd.symm
  have hdef : m'.defect = m''.defect := h.defect.trans h'.defect.symm
  have hpos := congrArg Defect.posPnl hdef
  have htrd := congrArg Defect.trdPnl hdef
  simp only [ModInstr.defect_posPnl, ModInstr.defect_trdPnl, hvol, hpx, hvm, hstl, hbuy, hsell,
    sub_left_inj] at hpos htrd
  have hamt : m'.unitAmt = m''.unitAmt := h.unitAmt_eq h' (Or.inl hpx)
  ext1
  · exact hvol
  · exact hamt
  · ext1
    · exact hstl
    · exact hpx
    · rw [h.avgPxBuy, h'.avgPxBuy, hvol, hamt, hvm]
    · rw [h.avgPxSell, h'.avgPxSell, hvol, hamt, hvm]
  · ext1
    · exact hpos
    · exact htrd
  · exact h.pPrd.trans h'.pPrd.symm
  · exact h.pAcc.trans h'.pAcc.symm
  · exact h.instrName.trans h'.instrName.symm
  · exact hvm

end Moved

/-- Two effects that an instrument cannot tell apart: they differ at most in
whether an average that is right already has been taken again. -/
structure Effect.Alike (m : ModInstr) (e e' : Effect) : Prop where
  vol : e.vol = e'.vol
  amt : e.amt = e'.amt
  stray : e.stray = e'.stray
  buys : e.buys = e'.buys ∨
    m.unitPx.avgPxBuy = UnitPx.calcAvgPx m.unitAmt.amtBuy m.unitVol.posBuy m.volMultiple
  sells : e.sells = e'.sells ∨
    m.unitPx.avgPxSell = UnitPx.calcAvgPx m.unitAmt.amtSell m.unitVol.posSell m.volMultiple

namespace Moved

variable {e e' : Effect} {m m' m'' : ModInstr}

/-- An average that one history takes again and the other keeps, where the one to
take is the one to keep. -/
theorem avg_swap {b b' : Bool} {avg avg' c c' : ℚ} (h : avg' = if b' then c' else avg)
    (ha : b = b' ∨ avg = c) (hc : b = false ∨ b' = false → c' = c) :
    avg' = if b then c' else avg := by
  rcases ha with rfl | ha
  · exact h
  · cases b <;> cases b' <;> simp only [if_true, Bool.false_eq_true, if_false] at h ⊢
    · exact h
    · rw [h, ha, hc (Or.inl rfl)]
    · rw [h, ha, hc (Or.inr rfl)]
    · exact h

theorem calcAvgPx_buy (h : Moved e m m') (hz : e.vol.posBuy = 0 ∧ e.amt.amtBuy = 0) :
    UnitPx.calcAvgPx m'.unitAmt.amtBuy m'.unitVol.posBuy m'.volMultiple =
      UnitPx.calcAvgPx m.unitAmt.amtBuy m.unitVol.posBuy m.volMultiple := by
  rw [h.amtBuy, h.unitVol, UnitVol.add_posBuy, h.volMultiple, hz.1, hz.2, add_zero, add_zero]

theorem calcAvgPx_sell (h : Moved e m m') (hz : e.vol.posSell = 0 ∧ e.amt.amtSell = 0) :
    UnitPx.calcAvgPx m'.unitAmt.amtSell m'.unitVol.posSell m'.volMultiple =
      UnitPx.calcAvgPx m.unitAmt.amtSell m.unitVol.posSell m.volMultiple := by
  rw [h.amtSell, h.unitVol, UnitVol.add_posSell, h.volMultiple, hz.1, hz.2, add_zero, add_zero]

/-- An instrument moved by one effect has been moved by any effect it cannot tell
apart from it. -/
theorem of_alike (h : Moved e' m m'') (ha : e.Alike m e')
    (hnb : e.buys = false → e.vol.posBuy = 0 ∧ e.amt.amtBuy = 0)
    (hns : e.sells = false → e.vol.posSell = 0 ∧ e.amt.amtSell = 0) : Moved e m m'' where
  unitVol := ha.vol ▸ h.unitVol
  unitAmt := ha.amt ▸ h.unitAmt
  defect := ha.stray ▸ h.defect
  stlPxYd := h.stlPxYd
  avgPxBuy := avg_swap h.avgPxBuy ha.buys fun hor => h.calcAvgPx_buy <| hor.elim
    (fun hf => ha.vol ▸ ha.amt ▸ hnb hf) h.notBuys
  avgPxSell := avg_swap h.avgPxSell ha.sells fun hor => h.calcAvgPx_sell <| hor.elim
    (fun hf => ha.vol ▸ ha.amt ▸ hns hf) h.notSells
  notBuys := hnb
  notSells := hns
  pPrd := h.pPrd
  pAcc := h.pAcc
  instrName := h.instrName
  volMultiple := h.volMultiple

/-- Where one history has bought and the other has not, both give the average. -/
theorem avgPxBuy_of_eq (h : Moved e m m') (h' : Moved e' m m') (hb : e.buys = true)
    (hb' : e'.buys = false) :
    m.unitPx.avgPxBuy = UnitPx.calcAvgPx m.unitAmt.amtBuy m.unitVol.posBuy m.volMultiple := by
  have havg := h.avgPxBuy
  rw [if_pos hb, h'.avgPxBuy, hb', h'.calcAvgPx_buy (h'.notBuys hb')] at havg
  exact havg

theorem avgPxSell_of_eq (h : Moved e m m') (h' : Moved e' m m') (hb : e.sells = true)
    (hb' : e'.sells = false) :
    m.unitPx.avgPxSell = UnitPx.calcAvgPx m.unitAmt.amtSell m.unitVol.posSell m.volMultiple := by
  have havg := h.avgPxSell
  rw [if_pos hb, h'.avgPxSell, hb', h'.calcAvgPx_sell (h'.notSells hb')] at havg
  exact havg

theorem alike (h : Moved e m m') (h' : Moved e' m m') : e.Alike m e' where
  vol := add_left_cancel (h.unitVol.symm.trans h'.unitVol)
  amt := add_left_cancel (h.unitAmt.symm.trans h'.unitAmt)
  stray := by
    have hd := congrArg Defect.trdPnl (h.defect.symm.trans h'.defect)
    exact add_left_cancel hd
  buys := by
    cases hb : e.buys <;> cases hb' : e'.buys
    · exact Or.inl rfl
    · exact Or.inr (h'.avgPxBuy_of_eq h hb' hb)
    · exact Or.inr (h.avgPxBuy_of_eq h' hb hb')
    · exact Or.inl rfl
  sells := by
    cases hb : e.sells <;> cases hb' : e'.sells
    · exact Or.inl rfl
    · exact Or.inr (h'.avgPxSell_of_eq h hb' hb)
    · exact Or.inr (h.avgPxSell_of_eq h' hb hb')
    · exact Or.inl rfl

/-- When two histories end in the same instrument. -/
theorem eq_iff (h : Moved e m m') (h' : Moved e' m m'') :
    m' = m'' ↔ e.Alike m e' ∧ m'.unitPx.lastPx = m''.unitPx.lastPx := by
  constructor
  · rintro rfl
    exact ⟨h.alike h', rfl⟩
  · rintro ⟨ha, hpx⟩
    exact h.ext (h'.of_alike ha h.notBuys h.notSells) hpx

end Moved

/-! ## Events and their effects -/

/-- The turnover of the product and of the account, which no event writes. -/
structure Kept (b b' : Books) : Prop where
  prdBuy : b'.prd.unitAmt.amtBuy = b.prd.unitAmt.amtBuy
  prdSell : b'.prd.unitAmt.amtSell = b.prd.unitAmt.amtSell
  accBuy : b'.acc.unitAmt.amtBuy = b.acc.unitAmt.amtBuy
  accSell : b'.acc.unitAmt.amtSell = b.acc.unitAmt.amtSell

/-- On an instrument of multiple `vm` the event `f` has effect `e`. -/
structure Does (vm : Int) (f : Books → Books) (e : Effect) : Prop where
  moved : ∀ b, b.instr.volMultiple = vm → Moved e b.instr (f b).instr
  unfilled : ∀ b, (f b).acc.unfilledOrderCnt = b.acc.unfilledOrderCnt + e.unfilled
  kept : ∀ b, Kept b (f b)
  balanced : ∀ b, Balanced b (f b)

namespace Does

variable {vm : Int} {f g : Books → Books} {e e' : Effect}

theorem skip : Does vm (fun b => b) 0 where
  moved b _ := Moved.refl b.instr
  unfilled b := by simp
  kept _ := ⟨rfl, rfl, rfl, rfl⟩
  balanced b := Balanced.refl b

theorem comp (hf : Does vm f e) (hg : Does vm g e') : Does vm (fun b => g (f b)) (e + e') where
  moved b hb := (hf.moved b hb).trans (hg.moved _ ((hf.moved b hb).volMultiple.trans hb))
  unfilled b := by rw [hg.unfilled, hf.unfilled, Effect.add_unfilled, add_assoc]
  kept b := ⟨(hg.kept _).prdBuy.trans (hf.kept b).prdBuy, (hg.kept _).prdSell.trans (hf.kept b).prdSell,
    (hg.kept _).accBuy.trans (hf.kept b).accBuy, (hg.kept _).accSell.trans (hf.kept b).accSell⟩
  balanced b := (hf.balanced b).trans (hg.balanced _)

theorem guard (c : Prop) [Decidable c] (hf : Does vm f e) :
    Does vm (fun b => if c then f b else b) (if c then e else 0) := by
  split
  · exact hf
  · exact skip

end Does

section Events

variable (vm : Int) (dir : Dir) (off : Off)

@[simp] theorem posBuy_ingOf (v : Int) : (ingOf dir off v).posBuy = 0 := by
  unfold ingOf
  rcases Leg.of dir off with _ | l
  · rfl
  · cases l <;> rfl

@[simp] theorem posSell_ingOf (v : Int) : (ingOf dir off v).posSell = 0 := by
  unfold ingOf
  rcases Leg.of dir off with _ | l
  · rfl
  · cases l <;> rfl

@[simp] theorem amtBuy_amtIngOf (x : ℚ) : (amtIngOf dir off x).amtBuy = 0 := by
  unfold amtIngOf
  rcases Leg.of dir off with _ | l
  · rfl
  · cases l <;> rfl

@[simp] theorem amtSell_amtIngOf (x : ℚ) : (amtIngOf dir off x).amtSell = 0 := by
  unfold amtIngOf
  rcases Leg.of dir off with _ | l
  · rfl
  · cases l <;> rfl

@[simp] theorem amtBuy_amtPosOf (x : ℚ) : (amtPosOf dir off x).amtBuy = 0 := by
  unfold amtPosOf
  rcases Leg.of dir off with _ | l
  · rfl
  · cases l <;> rfl

@[simp] theorem amtSell_amtPosOf (x : ℚ) : (amtPosOf dir off x).amtSell = 0 := by
  unfold amtPosOf
  rcases Leg.of dir off with _ | l
  · rfl
  · cases l <;> rfl

theorem does_onTickPx (px : ℚ) : Does vm (fun b => b.onTickPx px) 0 where
  moved b _ :=
    .of_pending (Balanced.onTickPx b px) (Books.defect_onTickPx b px) (by simp)
      (by simp [Books.onTickPx_eq]) (by simp [Books.onTickPx_eq]) ⟨rfl, rfl⟩ ⟨rfl, rfl⟩
  unfilled b := by simp
  kept b := by
    rw [Books.onTickPx_eq]
    constructor <;> simp
  balanced b := Balanced.onTickPx b px

theorem does_onNew (px : ℚ) (vol : Int) :
    Does vm (fun b => b.onNew dir off px vol) (.new vm dir off px vol) where
  moved b hb :=
    .of_pending (Balanced.onNew b dir off px vol) (Books.defect_onNew b dir off px vol) (by simp)
      (by simp [hb]) (by simp [Books.onNew_eq]) (by simp) (by simp)
  unfilled b := by simp [Effect.new]
  kept b := by
    rw [Books.onNew_eq]
    constructor <;> simp
  balanced b := Balanced.onNew b dir off px vol

theorem does_onCxl (px : ℚ) (vol : Int) :
    Does vm (fun b => b.onCxl dir off px vol) (.cxl vm dir off px vol) where
  moved b hb :=
    .of_pending (Balanced.onCxl b dir off px vol) (Books.defect_onCxl b dir off px vol) (by simp)
      (by simp [hb]) (by simp [Books.onCxl_eq]) (by simp) (by simp)
  unfilled b := by simp [Effect.cxl, sub_eq_add_neg]
  kept b := by
    rw [Books.onCxl_eq]
    constructor <;> simp
  balanced b := Balanced.onCxl b dir off px vol

theorem posBuy_trdOf {dir : Dir} (hd : dir ≠ .buy) (v : Int) : (trdOf dir off v).posBuy = 0 := by
  unfold trdOf
  cases dir <;> cases off <;> first | rfl | exact absurd rfl hd

theorem posSell_trdOf {dir : Dir} (hd : dir ≠ .sell) (v : Int) : (trdOf dir off v).posSell = 0 := by
  unfold trdOf
  cases dir <;> cases off <;> first | rfl | exact absurd rfl hd

theorem amtBuy_amtTrd {dir : Dir} (hd : dir ≠ .buy) (x : ℚ) : (amtTrd dir x).amtBuy = 0 := by
  cases dir <;> first | rfl | exact absurd rfl hd

theorem amtSell_amtTrd {dir : Dir} (hd : dir ≠ .sell) (x : ℚ) : (amtTrd dir x).amtSell = 0 := by
  cases dir <;> first | rfl | exact absurd rfl hd

theorem does_onTrd (px : ℚ) (vol volTraded : Int) (trdPx : ℚ) (trdVol : Int) :
    Does vm (fun b => b.onTrd dir off px vol volTraded trdPx trdVol)
      (.trd vm dir off px (vol = volTraded) trdVol (trdPx * trdVol)) where
  moved b hb := by
    have hdef := Books.defect_onTrd b dir off px vol volTraded trdPx trdVol
    rw [hb] at hdef
    refine ⟨?_, ?_, hdef, ?_, ?_, ?_, ?_, ?_, ?_, ?_, ?_, ?_⟩
    · exact Books.onTrd_unitVol ..
    · simp [Effect.trd, hb, add_assoc]
    · simp [Books.onTrd_eq, Books.onTickPx_eq]
    · by_cases hd : dir = .buy
      · subst hd
        simp only [Effect.trd, decide_true, if_true]
        rw [Books.onTrd_eq]
        rfl
      · simp only [Effect.trd, hd, decide_false, Bool.false_eq_true, if_false]
        rw [Books.onTrd_eq]
        cases dir <;> first | exact absurd rfl hd | simp [Books.turnover, Books.avgPxSell, Books.onTickPx_eq]
    · by_cases hd : dir = .sell
      · subst hd
        simp only [Effect.trd, decide_true, if_true]
        rw [Books.onTrd_eq]
        rfl
      · simp only [Effect.trd, hd, decide_false, Bool.false_eq_true, if_false]
        rw [Books.onTrd_eq]
        cases dir <;> first | exact absurd rfl hd | simp [Books.turnover, Books.avgPxBuy, Books.onTickPx_eq]
    · intro hd
      have hd : dir ≠ .buy := by simpa [Effect.trd] using hd
      simp [Effect.trd, posBuy_trdOf off hd, amtBuy_amtTrd hd]
    · intro hd
      have hd : dir ≠ .sell := by simpa [Effect.trd] using hd
      simp [Effect.trd, posSell_trdOf off hd, amtSell_amtTrd hd]
    · exact (Balanced.onTrd ..).pPrd
    · exact (Balanced.onTrd ..).pAcc
    · exact (Balanced.onTrd ..).instrName
    · exact (Balanced.onTrd ..).volMultiple
  unfilled b := by simp [Effect.trd]
  kept b := by
    rw [Books.onTrd_eq]
    constructor <;> simp [Books.onTickPx_eq]
  balanced b := Balanced.onTrd b dir off px vol volTraded trdPx trdVol

end Events

end NatFramework.Account
