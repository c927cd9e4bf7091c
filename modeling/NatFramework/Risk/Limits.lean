import NatFramework.Account.Pending
import NatFramework.Risk.RiskInstr

/-!
# Position limits over whole runs

The checks compare one snapshot of the counters with the thresholds. An
`Exposure` is what they look at: a position with the pending orders that can
only increase it. Issuing an order adds its volume to the exposures of its side
(and the check has left room), a fill moves pending volume into the position or
lowers it, and the end of an order takes the rest away. The runs are those of
`Life` in which every order of the level has passed its check; the same runs at
the product level let all instruments of the product trade.

* `Exposure.new_le`, `Exposure.ing_neg_le`, `Exposure.trd_le`: the three moves.
* `limits_of_run`: where no sum overflows, no exposure, and no position, exceeds
  the limit or the initial exposure; `not_limits`: a sum that does.
-/
namespace NatFramework.Risk

open Lib Account

/-! ## Exposures -/

inductive Exposure where
  | long | short | netLong | netShort
  deriving DecidableEq, Repr

namespace Exposure

/-- The position with the pending volumes that can increase it. -/
def of (e : Exposure) : UnitVol →+ Int where
  toFun u := match e with
    | long => u.posLong + u.posLongTdOpnIng
    | short => u.posShort + u.posShortTdOpnIng
    | netLong => u.posLong - u.posShort +
        (u.posLongTdOpnIng + u.posShortYdClsIng + u.posShortTdClsIng)
    | netShort => u.posShort - u.posLong +
        (u.posShortTdOpnIng + u.posLongYdClsIng + u.posLongTdClsIng)
  map_zero' := by cases e <;> rfl
  map_add' u w := by cases e <;> simp <;> ring

/-- The position alone. -/
def held (e : Exposure) (u : UnitVol) : Int :=
  match e with
  | long => u.posLong
  | short => u.posShort
  | netLong => u.posLong - u.posShort
  | netShort => u.posShort - u.posLong

def limit (th : Thresholds) : Exposure → Int
  | long => th.long
  | short => th.short
  | netLong | netShort => th.net

variable (e : Exposure) {th : Thresholds} {u : UnitVol} {dir : Dir} {off : Off} {v : Int}

/-- The check has left room for the order. -/
theorem new_le (h : Admitted th u dir off v) :
    e.of (u + ingOf dir off v) ≤ max (e.limit th) (e.of u) := by
  obtain ⟨h1, h2, h3, h4⟩ := h
  cases hl : Leg.of dir off with
  | none => simp [ingOf, hl]
  | some l =>
    cases dir <;> cases off <;> cases hl <;> cases e <;>
      simp [ingOf, Leg.of, Leg.ing, of, limit] at h1 h2 h3 h4 ⊢ <;> omega

theorem ing_neg_le (dir : Dir) (off : Off) (hv : 0 ≤ v) : e.of (ingOf dir off (-v)) ≤ 0 := by
  unfold ingOf
  rcases Leg.of dir off with _ | l
  · simp
  · cases l <;> cases e <;> simp [Leg.ing, of, hv]

theorem trd_le (dir : Dir) (off : Off) (hv : 0 ≤ v) : e.of (trdOf dir off v) ≤ 0 := by
  unfold trdOf
  rcases Leg.of dir off with _ | l
  · simp
  · cases l <;> cases e <;> simp [Leg.trd, of, hv]

theorem held_le (hu : ∀ l : Leg, 0 ≤ l.pendVol u) : e.held u ≤ e.of u := by
  have h1 : 0 ≤ u.posLongTdOpnIng := hu .longOpn
  have h2 : 0 ≤ u.posShortYdClsIng := hu .shortYdCls
  have h3 : 0 ≤ u.posShortTdClsIng := hu .shortTdCls
  have h4 : 0 ≤ u.posShortTdOpnIng := hu .shortOpn
  have h5 : 0 ≤ u.posLongYdClsIng := hu .longYdCls
  have h6 : 0 ≤ u.posLongTdClsIng := hu .longTdCls
  cases e <;> simp [of, held] <;> omega

end Exposure

/-! ## Levels -/

/-- An instrument or a product of the account. -/
inductive Level where
  | instr (h : Hash)
  | prd (k : Hash)
  deriving DecidableEq, Repr

namespace Level

variable (info : TradeBaseInfo)

def unitVol (a : AccBase) : Level → UnitVol
  | instr h => (a.instrAt h).unitVol
  | prd k => (a.prdAt k).unitVol

/-- The orders of instrument `h` count at the level. -/
def covers (h : Hash) : Level → Bool
  | instr h' => h = h'
  | prd k => (info.find h).map (·.productHash) = some k

variable {info}

/-- An event moves the volumes of every level that covers its instrument alike. -/
theorem unitVol_onInstr (lv : Level) {a : AccBase} {h : Hash} {i : InstrumentInfo}
    {f : Books → Books} {d : UnitVol} (hl : AccBase.Linked info a) (hf : info.find h = some i)
    (hv : 0 ≤ i.volMultiple) (hb : ∀ b, Balanced b (f b))
    (hd : ∀ b, (f b).instr.unitVol = b.instr.unitVol + d) :
    lv.unitVol (a.onInstr info h f) = lv.unitVol a + if lv.covers info h then d else 0 := by
  cases lv with
  | instr h' =>
    simp only [unitVol, covers, hl.onInstr_instrAt hf hv, decide_eq_true_eq]
    by_cases hh : h' = h
    · subst hh
      rw [if_pos rfl, if_pos rfl, hd, AccBase.booksAt_unitVol]
    · rw [if_neg hh, if_neg (Ne.symm hh), add_zero]
  | prd k =>
    simp only [unitVol, covers, hl.onInstr_prdAt hf hv, hf, Option.map_some, Option.some.injEq,
      decide_eq_true_eq]
    by_cases hk : k = i.productHash
    · subst hk
      have hdiff := congrArg Prod.fst (hb (a.booksAt h i)).prd
      simp only [ModPrd.contrib, ModInstr.contrib, Prod.fst_sub, hd, add_sub_cancel_left,
        sub_eq_iff_eq_add] at hdiff
      rw [if_pos rfl, if_pos rfl, hdiff, AccBase.booksAt_prd_unitVol, add_comm]
    · rw [if_neg hk, if_neg (Ne.symm hk), add_zero]

end Level

/-! ## Runs with a check before every order -/

/-- The risk record of an instrument or of a product. -/
inductive Gate where
  | instr (r : RiskInstr) (h : Hash)
  | prd (r : RiskPrd) (k : Hash)

namespace Gate

def level : Gate → Level
  | instr _ h => .instr h
  | prd _ k => .prd k

def thresholds : Gate → Thresholds
  | instr r _ => r.thresholds
  | prd r _ => r.thresholds

/-- `p_unit_vol` designates the volumes of the record's level. -/
def PointsInto (a : AccBase) : Gate → Prop
  | instr r h => r.pUnitVol = some (a.mapInstr.addr h)
  | prd r k => r.pUnitVol = some (a.mapPrd.addr k)

def check (a : AccBase) (o : Order) (nano : Int) : Gate → Int
  | instr r _ => r.check a o.dir o.off o.vol nano
  | prd r _ => r.check a o.dir o.off o.vol

def onNew (nano : Int) : Gate → Gate
  | instr r h => .instr (r.onNew nano) h
  | prd r k => .prd r k

variable (r : Gate) (nano : Int)

theorem onNew_level : (r.onNew nano).level = r.level := by cases r <;> rfl

theorem onNew_thresholds : (r.onNew nano).thresholds = r.thresholds := by
  cases r with
  | instr r h => simp only [onNew, thresholds, RiskInstr.onNew]; split <;> rfl
  | prd r k => rfl

theorem onNew_pointsInto (a : AccBase) : (r.onNew nano).PointsInto a ↔ r.PointsInto a := by
  cases r with
  | instr r h => simp only [onNew, PointsInto, RiskInstr.onNew]; split <;> rfl
  | prd r k => rfl

variable {r nano}

/-- A passed check has looked at the volumes of its level. -/
theorem admitted_of_check {a : AccBase} {o : Order} (hp : r.PointsInto a)
    (hs : SumsFit (r.level.unitVol a) o.dir o.off o.vol) (hc : r.check a o nano = 0) :
    Admitted r.thresholds (r.level.unitVol a) o.dir o.off o.vol := by
  cases r with
  | instr r h =>
    have hu : r.unitVol a = (a.instrAt h).unitVol := by
      rw [RiskInstr.unitVol, hp, Option.bind_some, NodeMap.deref_addr, AccBase.instrAt]
      cases a.mapInstr.find h <;> rfl
    have := RiskInstr.admitted_of_check (hu ▸ hs) hc
    rwa [hu] at this
  | prd r k =>
    have hu : r.unitVol a = (a.prdAt k).unitVol := by
      rw [RiskPrd.unitVol, hp, Option.bind_some, NodeMap.deref_addr, AccBase.prdAt]
      cases a.mapPrd.find k <;> rfl
    have := RiskPrd.admitted_of_check (hu ▸ hs) hc
    rwa [hu] at this

end Gate

/-- What an order adds to the pending volume of leg `l` of a level. -/
def pendAt (info : TradeBaseInfo) (lv : Level) (l : Leg) (x : Live) : Int :=
  if lv.covers info x.ord.instrHash ∧ Leg.of x.ord.dir x.ord.off = some l then x.remaining else 0

/-- The account with its orders, and one risk record. -/
structure Trading where
  life : Life
  gate : Gate

inductive TradingEvent where
  /-- The check answered 0 and `onNew` followed. -/
  | submit (id : Int) (o : Order) (nano : Int)
  | rtn (t : OrderTrack) (r : RtnMsg)
  deriving DecidableEq, Repr

namespace Trading

variable (info : TradeBaseInfo)

def next (s : Trading) : TradingEvent → Trading
  | .submit id o nano =>
    { life := s.life.next info (.new id o)
      gate := if s.gate.level.covers info o.instrHash then s.gate.onNew nano else s.gate }
  | .rtn t r => { s with life := s.life.next info (.rtn t r) }

/-- Orders of the level have passed its check; fills stay within the remaining
volume, and an order ends with what remains. -/
def Ok (s : Trading) : TradingEvent → Prop
  | .submit id o nano => s.life.Ok info (.new id o) ∧
      (s.gate.level.covers info o.instrHash → s.gate.check s.life.acc o nano = 0)
  | .rtn t r => s.life.Ok info (.rtn t r)

/-- What a return adds to the volumes of its instrument. -/
def rtnVol (t : OrderTrack) (r : RtnMsg) : UnitVol :=
  (if hasAny r.msgType AccBase.cxlMask then ingOf t.dir t.off (-r.vol) else 0) +
    if r.msgType.has .execution then trdOf t.dir t.off r.vol else 0

/-- Every counter is in the range of `int`. -/
def CountersFit (u : UnitVol) : Prop :=
  ∀ n ∈ [u.posLongYdIni, u.posLongYd, u.posLongTd, u.posLong, u.posLongYdClsIng, u.posLongTdClsIng,
    u.posLongTdOpnIng, u.posShortYdIni, u.posShortYd, u.posShortTd, u.posShort, u.posShortYdClsIng,
    u.posShortTdClsIng, u.posShortTdOpnIng, u.posBuy, u.posSell], InInt n

instance (u : UnitVol) : Decidable (CountersFit u) := inferInstanceAs (Decidable (∀ n ∈ _, InInt n))

/-- No addition of the step leaves the range of `int`: the sums of the level's
check, and what the step adds to the level's counters. -/
def Fits (s : Trading) : TradingEvent → Prop
  | .submit _ o _ => s.gate.level.covers info o.instrHash →
      SumsFit (s.gate.level.unitVol s.life.acc) o.dir o.off o.vol ∧
        CountersFit (s.gate.level.unitVol s.life.acc + ingOf o.dir o.off o.vol)
  | .rtn t r => s.gate.level.covers info t.instrHash →
      CountersFit (s.gate.level.unitVol s.life.acc + rtnVol t r)

/-- What holds of the orders and pointers all along. -/
structure Inv (s : Trading) : Prop where
  linked : AccBase.Linked info s.life.acc
  points : s.gate.PointsInto s.life.acc
  known : ∀ id x, s.life.orders.lookup id = some x →
    (info.find x.ord.instrHash).isSome ∧ 0 ≤ x.remaining
  covered : ∀ l : Leg, UMap.total (fun _ x => pendAt info s.gate.level l x) s.life.orders ≤
    l.pendVol (s.gate.level.unitVol s.life.acc)

/-- Runs from any account whose pending volumes cover its live orders. -/
def sys : Lib.Sys Trading TradingEvent where
  start s := Inv info s ∧ CountersFit (s.gate.level.unitVol s.life.acc)
  ok := Ok info
  next := next info

/-- Those of them in which no sum overflows. -/
def fitSys : Lib.Sys Trading TradingEvent where
  start s := Inv info s ∧ CountersFit (s.gate.level.unitVol s.life.acc)
  ok s e := Ok info s e ∧ Fits info s e
  next := next info

variable {info}

theorem rtn_vol_nonneg {x : Live} {t : OrderTrack} {r : RtnMsg} (h : x.Accepts t r) :
    (hasAny r.msgType AccBase.cxlMask → 0 ≤ r.vol) ∧ (r.msgType.has .execution → 0 ≤ r.vol) := by
  obtain ⟨-, ht, hf, hc⟩ := h
  rw [AccBase.hasAny_cxlMask ht]
  constructor
  · intro hk
    obtain ⟨-, h1, h2⟩ := hc hk
    omega
  · intro he
    obtain ⟨-, h1, -⟩ := hf he
    omega

theorem rtnBooks_unitVol (t : OrderTrack) (r : RtnMsg) (b : Books) :
    (AccBase.rtnBooks t r b).instr.unitVol = b.instr.unitVol + rtnVol t r := by
  unfold AccBase.rtnBooks rtnVol
  by_cases hc : hasAny r.msgType AccBase.cxlMask <;> by_cases he : r.msgType.has .execution <;>
    simp [hc, he, add_assoc]

theorem exposure_rtn (e : Exposure) {x : Live} {t : OrderTrack} {r : RtnMsg} (h : x.Accepts t r) :
    e.of (rtnVol t r) ≤ 0 := by
  obtain ⟨h1, h2⟩ := rtn_vol_nonneg h
  have hc : e.of (if hasAny r.msgType AccBase.cxlMask then ingOf t.dir t.off (-r.vol) else 0) ≤ 0 := by
    split
    · rename_i hk
      exact e.ing_neg_le _ _ (h1 hk)
    · simp
  have he : e.of (if r.msgType.has .execution then trdOf t.dir t.off r.vol else 0) ≤ 0 := by
    split
    · rename_i hk
      exact e.trd_le _ _ (h2 hk)
    · simp
  rw [rtnVol, map_add]
  omega

theorem pendVol_rtnVol (l : Leg) (t : OrderTrack) (r : RtnMsg) :
    l.pendVol (rtnVol t r) = -(if Leg.of t.dir t.off = some l then taken r else 0) := by
  have h := pendVol_rtn l t r ⟨{}, {}, {}⟩
  rw [rtnBooks_unitVol, map_add, sub_eq_add_neg] at h
  exact add_left_cancel h

/-! ### One event -/

variable (hv : info.VolMultiplesOk) {s : Trading}

theorem level_next (e : TradingEvent) :
    (s.next info e).gate.level = s.gate.level ∧
      (s.next info e).gate.thresholds = s.gate.thresholds := by
  cases e with
  | submit id o nano =>
    simp only [next]
    split
    · exact ⟨Gate.onNew_level _ _, Gate.onNew_thresholds _ _⟩
    · exact ⟨rfl, rfl⟩
  | rtn t r => exact ⟨rfl, rfl⟩

include hv in
theorem unitVol_submit (hs : Inv info s) {id : Int} {o : Order} {nano : Int}
    (he : Ok info s (.submit id o nano)) :
    s.gate.level.unitVol (s.next info (.submit id o nano)).life.acc =
      s.gate.level.unitVol s.life.acc +
        if s.gate.level.covers info o.instrHash then ingOf o.dir o.off o.vol else 0 := by
  obtain ⟨i, hf⟩ := Option.isSome_iff_exists.mp he.1.2.2
  exact s.gate.level.unitVol_onInstr hs.linked hf (hv _ i hf)
    (fun b => Balanced.onNew b o.dir o.off o.price o.vol) fun b => Books.onNew_unitVol _ _ _ _ _

include hv in
theorem unitVol_rtn (hs : Inv info s) {t : OrderTrack} {r : RtnMsg}
    (he : Ok info s (.rtn t r)) :
    s.gate.level.unitVol (s.next info (.rtn t r)).life.acc =
      s.gate.level.unitVol s.life.acc +
        if s.gate.level.covers info t.instrHash then rtnVol t r else 0 := by
  obtain ⟨x, hx, hacc⟩ := he
  obtain ⟨i, hf⟩ := Option.isSome_iff_exists.mp (hs.known _ x hx).1
  rw [← hacc.tracks.instrHash] at hf
  exact s.gate.level.unitVol_onInstr hs.linked hf (hv _ i hf) (AccBase.balanced_rtn t r)
    (rtnBooks_unitVol t r)

include hv in
/-- No event takes an exposure above its limit and its value before. -/
theorem exposure_step (hs : Inv info s) (e : TradingEvent) (he : Ok info s e) (hf : Fits info s e)
    (x : Exposure) :
    x.of (s.gate.level.unitVol (s.next info e).life.acc) ≤
      max (x.limit s.gate.thresholds) (x.of (s.gate.level.unitVol s.life.acc)) := by
  cases e with
  | submit id o nano =>
    rw [unitVol_submit hv hs he]
    split
    · rename_i hcov
      exact x.new_le (Gate.admitted_of_check hs.points (hf hcov).1 (he.2 hcov))
    · rw [add_zero]
      exact le_max_right _ _
  | rtn t r =>
    rw [unitVol_rtn hv hs he]
    obtain ⟨y, -, hacc⟩ := he
    have hle := exposure_rtn x hacc
    split
    · rw [map_add]
      omega
    · rw [add_zero]
      exact le_max_right _ _

include hv in
theorem pointsInto_onInstr {g : Gate} {a : AccBase} (hl : AccBase.Linked info a)
    (h : Hash) (f : Books → Books) (hp : g.PointsInto a) : g.PointsInto (a.onInstr info h f) := by
  cases g with
  | instr r h' => exact hp.trans (congrArg some (hl.onInstr_addr hv h h' f).1.symm)
  | prd r k => exact hp.trans (congrArg some (hl.onInstr_addr hv h k f).2.symm)

include hv in
theorem inv_submit (hs : Inv info s) {id : Int} {o : Order} {nano : Int}
    (he : Ok info s (.submit id o nano)) : Inv info (s.next info (.submit id o nano)) where
  linked := hs.linked.onInstr hv fun b => Keeps.onNew b o.dir o.off o.price o.vol
  points := by
    have hp := pointsInto_onInstr hv hs.linked o.instrHash
      (fun b => b.onNew o.dir o.off o.price o.vol) hs.points
    simp only [next]
    split
    · exact (Gate.onNew_pointsInto _ _ _).mpr hp
    · exact hp
  known := by
    intro id' x hx
    simp only [next, Life.next, UMap.lookup_insert_ite] at hx
    split at hx
    · simp only [Option.some.injEq] at hx
      have hvol := he.1.2.1
      subst hx
      exact ⟨he.1.2.2, by simp only [Live.remaining, Bool.false_eq_true, if_false]; omega⟩
    · exact hs.known id' x hx
  covered := by
    intro l
    rw [(level_next _).1, unitVol_submit hv hs he, map_add]
    have hc := hs.covered l
    have hnew : pendAt info s.gate.level l { ord := o } =
        l.pendVol (if s.gate.level.covers info o.instrHash then ingOf o.dir o.off o.vol else 0) := by
      by_cases hcov : s.gate.level.covers info o.instrHash <;>
        simp [pendAt, hcov, Leg.pendVol_ingOf, Live.remaining]
    simp only [next, Life.next, UMap.total_insert_new _ he.1.1, hnew]
    omega

include hv in
theorem inv_rtn (hs : Inv info s) {t : OrderTrack} {r : RtnMsg} (he : Ok info s (.rtn t r)) :
    Inv info (s.next info (.rtn t r)) := by
  have hunit := unitVol_rtn hv hs he
  obtain ⟨x, hx, hacc⟩ := he
  have hrem := Live.remaining_returned hacc
  refine ⟨?_, ?_, ?_, ?_⟩
  · exact hs.linked.onInstr hv (AccBase.keeps_rtn t r)
  · exact pointsInto_onInstr hv hs.linked _ _ hs.points
  · intro id' y hy
    simp only [next, Life.next, hx, UMap.lookup_insert_ite] at hy
    split at hy
    · simp only [Option.some.injEq] at hy
      subst hy
      exact ⟨(hs.known _ x hx).1, hacc.remaining_nonneg (hs.known _ x hx).2⟩
    · exact hs.known id' y hy
  · intro l
    have hc := hs.covered l
    have hdiff : pendAt info s.gate.level l (x.returned r) - pendAt info s.gate.level l x =
        l.pendVol (if s.gate.level.covers info t.instrHash then rtnVol t r else 0) := by
      have ht := hacc.tracks
      simp only [pendAt, hrem]
      rw [show (x.returned r).ord = x.ord from rfl, ← ht.instrHash, ← ht.dir, ← ht.off]
      by_cases hcov : s.gate.level.covers info t.instrHash
      · rw [if_pos hcov, pendVol_rtnVol]
        by_cases hl : Leg.of t.dir t.off = some l <;> simp [hcov, hl]
      · simp [hcov]
    rw [(level_next _).1, hunit, map_add]
    simp only [next, Life.next, hx, UMap.total_insert_old _ hx, hdiff]
    omega

include hv in
theorem inv_next (s : Trading) (e : TradingEvent) (hs : Inv info s) (he : Ok info s e) :
    Inv info (s.next info e) := by
  cases e with
  | submit id o nano => exact inv_submit hv hs he
  | rtn t r => exact inv_rtn hv hs he

include hv in
/-- The exposures of a run stay within the limits or their initial values. -/
theorem exposure_run (s : Trading) (es : List TradingEvent) (hs : Inv info s)
    (ha : (fitSys info).Admits s es) :
    Inv info ((fitSys info).exec s es) ∧ ((fitSys info).exec s es).gate.level = s.gate.level ∧
      ((fitSys info).exec s es).gate.thresholds = s.gate.thresholds ∧
      ∀ x : Exposure, x.of (s.gate.level.unitVol ((fitSys info).exec s es).life.acc) ≤
        max (x.limit s.gate.thresholds) (x.of (s.gate.level.unitVol s.life.acc)) := by
  refine (fitSys info).invariant_run (I := fun t => Inv info t ∧ t.gate.level = s.gate.level ∧
    t.gate.thresholds = s.gate.thresholds ∧ ∀ x : Exposure,
      x.of (s.gate.level.unitVol t.life.acc) ≤
        max (x.limit s.gate.thresholds) (x.of (s.gate.level.unitVol s.life.acc)))
    ?_ s es ⟨hs, rfl, rfl, fun x => le_max_right _ _⟩ ha
  rintro t e ⟨h1, h2, h3, h4⟩ ⟨he, hf⟩
  refine ⟨inv_next hv t e h1 he, (level_next e).1.trans h2, (level_next e).2.trans h3, fun x => ?_⟩
  have hstep := exposure_step hv h1 e he hf x
  rw [h2, h3] at hstep
  exact hstep.trans (max_le (le_max_left _ _) (h4 x))

theorem pendAt_nonneg (hs : Inv info s) (l : Leg) :
    0 ≤ l.pendVol (s.gate.level.unitVol s.life.acc) := by
  refine le_trans ?_ (hs.covered l)
  refine UMap.total_nonneg fun id x hx => ?_
  unfold pendAt
  split
  · exact (hs.known id x hx).2
  · exact le_refl 0

include hv in
/-- **Position limits hold over whole runs** in which no sum overflows, at the
level of an instrument and of a product: no exposure exceeds its limit and its
initial value, hence no position does. -/
theorem limits_of_run (s : Trading) (es : List TradingEvent) (hs : (fitSys info).start s)
    (ha : (fitSys info).Admits s es) (x : Exposure) :
    let u0 := s.gate.level.unitVol s.life.acc
    let u := s.gate.level.unitVol ((fitSys info).exec s es).life.acc
    x.of u ≤ max (x.limit s.gate.thresholds) (x.of u0) ∧
      (x.of u0 ≤ x.limit s.gate.thresholds → x.held u ≤ x.limit s.gate.thresholds) := by
  obtain ⟨hinv, hlv, -, hx⟩ := exposure_run hv s es hs.1 ha
  refine ⟨hx x, fun h0 => ?_⟩
  have hheld := x.held_le (pendAt_nonneg hinv)
  rw [hlv] at hheld
  exact (hheld.trans (hx x)).trans (max_le (le_refl _) h0)

/-- A product limit of 5 with orders on both contracts, a partial fill and a
cancel. -/
def rbProduct : Trading where
  life := ⟨{}, ∅⟩
  gate := .prd
    { pUnitVol := some ⟨3, 0⟩, longVolumeThreshold := 5, shortVolumeThreshold := 5
      netVolumeThreshold := 5 } 3

def rbProductRun : List TradingEvent :=
  [.submit 1 ⟨1, .buy, .opn, 10, 3⟩ 0, .submit 2 ⟨2, .buy, .opn, 9, 2⟩ 0,
    .rtn
      { localId := 1, instrHash := 1, dir := .buy, off := .opn, price := 10, vol := 3
        volTraded := 1 }
      { msgType := ods .execution, price := 10, vol := 1 },
    .rtn
      { localId := 1, instrHash := 1, dir := .buy, off := .opn, price := 10, vol := 3
        volTraded := 1 }
      { msgType := ods .canceled, vol := 2 },
    .submit 3 ⟨1, .sell, .closeToday, 11, 1⟩ 0]

theorem limits_rbProduct :
    let u0 := rbProduct.gate.level.unitVol rbProduct.life.acc
    let u := rbProduct.gate.level.unitVol ((fitSys TradeBaseInfo.rb).exec rbProduct rbProductRun).life.acc
    Exposure.long.of u ≤ max (Exposure.long.limit rbProduct.gate.thresholds) (Exposure.long.of u0) ∧
      (Exposure.long.of u0 ≤ Exposure.long.limit rbProduct.gate.thresholds →
        Exposure.long.held u ≤ Exposure.long.limit rbProduct.gate.thresholds) := by
  refine limits_of_run TradeBaseInfo.rb_volMultiplesOk rbProduct rbProductRun ?_ ?_ .long
  · exact ⟨⟨AccBase.linked_empty, rfl, fun _ _ hx => (by cases hx),
      fun l => (by cases l <;> decide)⟩, by decide⟩
  · refine ⟨⟨⟨⟨rfl, by decide, by decide⟩, fun _ => ?_⟩, fun _ => ⟨⟨?_, ?_, ?_, ?_⟩, ?_⟩⟩,
      ⟨⟨⟨rfl, by decide, by decide⟩, fun _ => ?_⟩, fun _ => ⟨⟨?_, ?_, ?_, ?_⟩, ?_⟩⟩,
      ⟨⟨_, rfl, ⟨⟨rfl, rfl, rfl, rfl, rfl⟩, ⟨[.execution], rfl⟩, ?_, ?_⟩⟩, fun _ => ?_⟩,
      ⟨⟨_, rfl, ⟨⟨rfl, rfl, rfl, rfl, rfl⟩, ⟨[.canceled], rfl⟩, ?_, ?_⟩⟩, fun _ => ?_⟩,
      ⟨⟨⟨rfl, by decide, by decide⟩, fun _ => ?_⟩, fun _ => ⟨⟨?_, ?_, ?_, ?_⟩, ?_⟩⟩, trivial⟩
    all_goals decide +kernel

/-- A limit of 5 for the contract, and a size limit that the configuration can
have. -/
def rbWide : Trading where
  life := ⟨{}, ∅⟩
  gate := .instr
    { pUnitVol := some ⟨1, 0⟩, isAllowed := true, allowedOrderSizeThreshold := 2147483647
      intensityCycleOrderCountThreshold := 10, longVolumeThreshold := 5, shortVolumeThreshold := 5
      netVolumeThreshold := 5 } 1

/-- With one contract held, an order of 2147483647 more. -/
def rbWideRun : List TradingEvent :=
  [.submit 1 ⟨1, .buy, .opn, 10, 1⟩ 0,
    .rtn
      { localId := 1, instrHash := 1, dir := .buy, off := .opn, price := 10, vol := 1
        volTraded := 1 }
      { msgType := ods .execution, price := 10, vol := 1 },
    .submit 2 ⟨1, .buy, .opn, 10, 2147483647⟩ 0]

/-- The sum wraps below the limit, and the check lets the order pass. -/
theorem not_limits :
    (sys TradeBaseInfo.rb).start rbWide ∧ (sys TradeBaseInfo.rb).Admits rbWide rbWideRun ∧
      ¬ Exposure.long.of (rbWide.gate.level.unitVol
          ((sys TradeBaseInfo.rb).exec rbWide rbWideRun).life.acc) ≤
        max (Exposure.long.limit rbWide.gate.thresholds)
          (Exposure.long.of (rbWide.gate.level.unitVol rbWide.life.acc)) := by
  refine ⟨?_, ?_, ?_⟩
  · exact ⟨⟨AccBase.linked_empty, rfl, fun _ _ hx => (by cases hx),
      fun l => (by cases l <;> decide)⟩, by decide⟩
  · refine ⟨⟨⟨rfl, by decide, by decide⟩, fun _ => ?_⟩,
      ⟨_, rfl, ⟨⟨rfl, rfl, rfl, rfl, rfl⟩, ⟨[.execution], rfl⟩, ?_, ?_⟩⟩,
      ⟨⟨rfl, by decide, by decide⟩, fun _ => ?_⟩, trivial⟩
    all_goals decide +kernel
  · decide +kernel

end Trading

end NatFramework.Risk
