import NatFramework.Account.ModInstr
import NatFramework.Lib.Run

/-!
# Mark to market

`ModInstr` never recomputes an amount or a pnl: it revalues by the price
difference on every tick and adds the traded amount on every fill. `Defect`
collects by how much each running total misses its closed form (position times
last price, and so on). No order event changes it (`defect_onNew`,
`defect_onCxl`, `defect_onTrd`, `defect_onTickPx`), and the day roll clears all
of it but the two position amounts, whose closed form it does not touch
(`defect_onSwitchDay`).

* `markToMarket_of_fresh`: from a fresh instrument every total equals its
  closed form after every sequence of events.
-/
namespace NatFramework.Account

/-- By how much each running total of an instrument misses its closed form. -/
@[ext] structure Defect where
  amtLong : ℚ := 0
  amtShort : ℚ := 0
  posPnl : ℚ := 0
  trdPnl : ℚ := 0
  posLong : Int := 0
  posShort : Int := 0
  net : Int := 0
  deriving DecidableEq, Repr

/-- The closed forms of the running totals. -/
structure MarkToMarket (m : ModInstr) : Prop where
  amtLong : m.unitAmt.amtLong = m.unitPx.lastPx * m.unitVol.posLong * m.volMultiple
  amtShort : m.unitAmt.amtShort = m.unitPx.lastPx * m.unitVol.posShort * m.volMultiple
  posPnl : m.unitPnl.posPnl =
    (m.unitPx.lastPx - m.unitPx.stlPxYd) * (m.unitVol.posLongYdIni - m.unitVol.posShortYdIni) *
      m.volMultiple
  trdPnl : m.unitPnl.trdPnl =
    m.unitPx.lastPx * (m.unitVol.posBuy - m.unitVol.posSell) * m.volMultiple -
      (m.unitAmt.amtBuy - m.unitAmt.amtSell)
  posLong : m.unitVol.posLong = m.unitVol.posLongYd + m.unitVol.posLongTd
  posShort : m.unitVol.posShort = m.unitVol.posShortYd + m.unitVol.posShortTd
  net : m.unitVol.posLong - m.unitVol.posShort =
    (m.unitVol.posLongYdIni - m.unitVol.posShortYdIni) + (m.unitVol.posBuy - m.unitVol.posSell)

namespace ModInstr

@[simps] def defect (m : ModInstr) : Defect where
  amtLong := m.unitAmt.amtLong - m.unitPx.lastPx * m.unitVol.posLong * m.volMultiple
  amtShort := m.unitAmt.amtShort - m.unitPx.lastPx * m.unitVol.posShort * m.volMultiple
  posPnl := m.unitPnl.posPnl -
    (m.unitPx.lastPx - m.unitPx.stlPxYd) * (m.unitVol.posLongYdIni - m.unitVol.posShortYdIni) *
      m.volMultiple
  trdPnl := m.unitPnl.trdPnl -
    (m.unitPx.lastPx * (m.unitVol.posBuy - m.unitVol.posSell) * m.volMultiple -
      (m.unitAmt.amtBuy - m.unitAmt.amtSell))
  posLong := m.unitVol.posLong - (m.unitVol.posLongYd + m.unitVol.posLongTd)
  posShort := m.unitVol.posShort - (m.unitVol.posShortYd + m.unitVol.posShortTd)
  net := m.unitVol.posLong - m.unitVol.posShort -
    ((m.unitVol.posLongYdIni - m.unitVol.posShortYdIni) + (m.unitVol.posBuy - m.unitVol.posSell))

theorem markToMarket_iff (m : ModInstr) : MarkToMarket m ↔ m.defect = {} := by
  constructor
  · rintro ⟨h1, h2, h3, h4, h5, h6, h7⟩
    ext
    · simpa [sub_eq_zero] using h1
    · simpa [sub_eq_zero] using h2
    · simpa [sub_eq_zero] using h3
    · simpa [sub_eq_zero] using h4
    · simpa [sub_eq_zero] using h5
    · simpa [sub_eq_zero] using h6
    · simpa [sub_eq_zero] using h7
  · intro h
    simp only [Defect.ext_iff, defect, sub_eq_zero] at h
    obtain ⟨h1, h2, h3, h4, h5, h6, h7⟩ := h
    exact ⟨h1, h2, h3, h4, h5, h6, h7⟩

/-- The day roll keeps `last_px` and the positions, so that the two position
amounts keep their defect; the rest is cleared or starts anew. -/
theorem defect_onSwitchDay (m : ModInstr) :
    m.onSwitchDay.defect = { amtLong := m.defect.amtLong, amtShort := m.defect.amtShort } := by
  ext <;> simp [onSwitchDay, UnitVol.onSwitchDay, UnitAmt.onSwitchDay, UnitPx.onSwitchDay,
    UnitPnl.onSwitchDay]

end ModInstr

namespace Books

/-- The part of a traded amount that meets no change of position. -/
def stray (dir : Dir) (off : Off) (amtChg : ℚ) : ℚ :=
  (Leg.of dir off).elim ((amtTrd dir amtChg).amtBuy - (amtTrd dir amtChg).amtSell) fun _ => 0

variable (b : Books)

/-- The revaluation moves every total by the price difference times what its
closed form multiplies the price by. -/
theorem defect_onTickPx (px : ℚ) : (b.onTickPx px).instr.defect = b.instr.defect := by
  rw [onTickPx_eq]
  ext <;> simp [tickAmt, tickPnl] <;> ring

variable (dir : Dir) (off : Off)

theorem defect_onNew (px : ℚ) (vol : Int) :
    (b.onNew dir off px vol).instr.defect = b.instr.defect := by
  rw [onNew_eq, ingOf, amtIngOf]
  rcases Leg.of dir off with _ | l
  · ext <;> simp
  · cases l <;> ext <;> simp [Leg.ing, Leg.amtIng]

theorem defect_onCxl (px : ℚ) (vol : Int) :
    (b.onCxl dir off px vol).instr.defect = b.instr.defect := by
  rw [onCxl_eq, ingOf, amtIngOf]
  rcases Leg.of dir off with _ | l
  · ext <;> simp
  · cases l <;> ext <;> simp [Leg.ing, Leg.amtIng]

/-- After the tick inside a fill the last price is the fill's own, so that the
added amount is what the moved position is worth. An unknown offset moves no
position. -/
theorem defect_onTrd (px : ℚ) (vol volTraded : Int) (trdPx : ℚ) (trdVol : Int) :
    (b.onTrd dir off px vol volTraded trdPx trdVol).instr.defect =
      { b.instr.defect with
        trdPnl := b.instr.defect.trdPnl + stray dir off (trdPx * trdVol * b.instr.volMultiple) } := by
  rw [← defect_onTickPx b trdPx, onTrd_eq, trdOf, amtIngOf, amtPosOf, stray]
  have hpx : (b.onTickPx trdPx).instr.unitPx.lastPx = trdPx := by simp [onTickPx_eq]
  have hvm : (b.onTickPx trdPx).instr.volMultiple = b.instr.volMultiple := by simp [onTickPx_eq]
  generalize b.onTickPx trdPx = c at hpx hvm
  cases hl : Leg.of dir off with
  | none =>
    ext <;> simp
    abel
  | some l =>
    cases dir <;> cases off <;> cases hl <;> ext <;>
      simp [Leg.trd, Leg.amtIng, Leg.amtPos, amtTrd, hpx, hvm] <;> ring

end Books

/-! ## Runs on one instrument -/

/-- A call on a `ModInstr`. -/
inductive InstrEvent where
  | new (dir : Dir) (off : Off) (px : ℚ) (vol : Int)
  | cxl (dir : Dir) (off : Off) (px : ℚ) (cxlVol : Int)
  | trd (dir : Dir) (off : Off) (px : ℚ) (vol volTraded : Int) (trdPx : ℚ) (trdVol : Int)
  | tickPx (px : ℚ)
  | switchDay
  deriving DecidableEq, Repr

namespace InstrEvent

def apply : InstrEvent → Books → Books
  | new dir off px vol, b => b.onNew dir off px vol
  | cxl dir off px vol, b => b.onCxl dir off px vol
  | trd dir off px vol volTraded trdPx trdVol, b =>
    b.onTrd dir off px vol volTraded trdPx trdVol
  | tickPx px, b => b.onTickPx px
  | switchDay, b => { b with instr := b.instr.onSwitchDay }

/-- Direction and offset are among those the switches know. -/
def Known : InstrEvent → Prop
  | new dir off _ _ | cxl dir off _ _ | trd dir off _ _ _ _ _ => (Leg.of dir off).isSome
  | tickPx _ | switchDay => True

/-- Runs of calls on one instrument. -/
def sys : Lib.Sys Books InstrEvent where
  start b := b.instr.unitVol = 0 ∧ b.instr.unitAmt = 0 ∧ b.instr.unitPx = {} ∧ b.instr.unitPnl = 0
  ok _ e := e.Known
  next b e := e.apply b

/-- One call keeps the closed forms. -/
theorem markToMarket_step (b : Books) (e : InstrEvent) (hb : MarkToMarket b.instr) (he : e.Known) :
    MarkToMarket (e.apply b).instr := by
  rw [ModInstr.markToMarket_iff] at hb ⊢
  cases e with
  | new dir off px vol => rw [apply, Books.defect_onNew, hb]
  | cxl dir off px vol => rw [apply, Books.defect_onCxl, hb]
  | trd dir off px vol volTraded trdPx trdVol =>
    obtain ⟨l, hl⟩ := Option.isSome_iff_exists.mp he
    simp [apply, Books.defect_onTrd, hb, Books.stray, hl]
  | tickPx px => rw [apply, Books.defect_onTickPx, hb]
  | switchDay => simp only [apply, ModInstr.defect_onSwitchDay, hb]

/-- **Mark to market.** In every run of order events, ticks and day rolls from
a fresh instrument, every total equals its closed form after every call. -/
theorem markToMarket_of_fresh {b : Books} (hb : sys.Reachable b) : MarkToMarket b.instr := by
  refine sys.invariant ?_ markToMarket_step hb
  rintro b ⟨h1, h2, h3, h4⟩
  constructor <;> simp [h1, h2, h3, h4]

/-- A buy of 2 at 10 with multiple 5, a tick, the day roll and a close of 1. -/
theorem markToMarket_two_days :
    MarkToMarket (sys.exec ⟨{ volMultiple := 5 }, {}, {}⟩
      [new .buy .opn 10 2, trd .buy .opn 10 2 2 10 2, tickPx 12, switchDay,
        new .sell .closeYesterday 13 1, trd .sell .closeYesterday 13 1 1 13 1]).instr :=
  markToMarket_of_fresh ⟨_, _, ⟨rfl, rfl, rfl, rfl⟩, by simp [Lib.Sys.Admits, sys, Known, Leg.of], rfl⟩

end InstrEvent

end NatFramework.Account
