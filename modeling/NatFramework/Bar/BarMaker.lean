import NatFramework.Bar.Bar2

/-!
# Filling and handing out the bars of one instrument

`BarMaker::OnTick`, `OnFinish` and `GetBar`, and the loop around `GetBar` of
`CStrategy::processTick` and `barOnFinish`.

* `settles` is a history variable: the indices `settle` was called on, in order.
* A pointer into `vec_bar` is the index it points at.
* The exchange clocks (`p_exch_nano`) are left out: nothing reads them.

Everything about a tick comes down to four moves (`settleAt`, `pass`, `inCurBar`,
`inPreBar`) and one rule, `BarMaker.onTick_ind`: what the moves keep,
`OnTick` keeps. `BarMaker.onFinish_ind` is the rule of `OnFinish`.
-/
namespace NatFramework.Bar

/-- mirrors bar/BarMaker.h:18-48 -/
structure BarMaker where
  instr : String := ""
  instrHash : Hash := 0
  cycleSec : Int := 0
  vecBar : List Bar2 := []
  barIdx : Int := -1
  rtnBarIdx : Int := -1
  lastUmd : UnitedMarketData := {}
  settles : List Nat := []
  deriving DecidableEq, Repr

namespace BarMaker

variable (base : Int)

/-- `vec_bar.size()` -/
abbrev size (m : BarMaker) : Nat := m.vecBar.length

/-- `vec_bar[i]` -/
def bar (m : BarMaker) (i : Nat) : Bar2 := m.vecBar.getD i {}

/-- `bar_idx` where it is not -1. -/
abbrev cursor (m : BarMaker) : Nat := m.barIdx.toNat

def modifyBar (m : BarMaker) (i : Nat) (f : Bar2 → Bar2) : BarMaker :=
  { m with vecBar := m.vecBar.modify i f }

/-! ## The moves of OnTick -/

/-- `p_bar->settle(p_umd)` with `p_bar` at `vec_bar[i]`. -/
def settleAt (m : BarMaker) (i : Nat) (umd : UnitedMarketData) : BarMaker :=
  { m.modifyBar i (·.settle base umd) with settles := m.settles ++ [i] }

/-- `p_bar->settle(p_umd)` at the current bar, and `++bar_idx`. -/
def settleNext (m : BarMaker) (umd : UnitedMarketData) : BarMaker :=
  { m.settleAt base m.cursor umd with barIdx := m.barIdx + 1 }

/-- mirrors bar/BarMaker.cpp:191-193 -/
def start (m : BarMaker) : BarMaker := if m.barIdx = -1 then { m with barIdx := 0 } else m

/-- The updates of a bar the tick lies in, up to `settle`.
mirrors bar/BarMaker.cpp:204-216 -/
def updateCur (b : Bar2) (umd : UnitedMarketData) : Bar2 :=
  let b := if b.isNeedUpdateOpen base umd then b.updateOpen umd else b
  let b := if b.isNeedUpdatePre then b.updatePre base umd else b
  if b.isNeedUpdateOhlc base umd then b.updateBar base umd else b

/-- The branch `pos == 0`. The test `bar_idx < vec_bar.size()` before the
increment holds there.
mirrors bar/BarMaker.cpp:202-232 -/
def inCurBar (m : BarMaker) (umd : UnitedMarketData) : BarMaker :=
  let m := m.modifyBar m.cursor (updateCur base · umd)
  if (m.bar m.cursor).isNeedSettle base umd then
    let m := m.settleNext base umd
    if m.cursor < m.size then m.modifyBar m.cursor (·.updatePre base umd) else m
  else m

/-- The branch `pos == 1` with a bar after the current one.
mirrors bar/BarMaker.cpp:237-246 -/
def pass (m : BarMaker) (umd : UnitedMarketData) : BarMaker :=
  let m := m.settleNext base umd
  if m.lastUmd.instrHash ≠ 0 then m.modifyBar m.cursor (·.updatePre base m.lastUmd) else m

/-- The branch `pos == -1`.
mirrors bar/BarMaker.cpp:254-260 -/
def inPreBar (m : BarMaker) (umd : UnitedMarketData) : BarMaker :=
  m.modifyBar m.cursor (·.updatePre base umd)

/-- The loop of `OnTick`. `left` is the number of bars after the current one, so
that `bar_idx < vec_bar.size() - 1` is `left ≠ 0`.
mirrors bar/BarMaker.cpp:197-262 -/
def tickLoop (umd : UnitedMarketData) : Nat → BarMaker → BarMaker
  | left, m =>
    match (m.bar m.cursor).isInCurBar (umd.sec base) with
    | .cur => m.inCurBar base umd
    | .pre => m.inPreBar base umd
    | .next =>
      match left with
      | 0 => m.settleAt base m.cursor umd
      | left + 1 => tickLoop umd left (m.pass base umd)

/-- mirrors bar/BarMaker.cpp:182-264 -/
def onTick (m : BarMaker) (umd : UnitedMarketData) : BarMaker :=
  if umd.instrHash ≠ m.instrHash then m
  else
    let m := m.start
    if m.barIdx ≥ m.size then m
    else { tickLoop base umd (m.size - 1 - m.cursor) m with lastUmd := umd }

/-! ## OnFinish and GetBar -/

/-- The loop of `OnFinish`, with the number of bars from the current one on.
mirrors bar/BarMaker.cpp:271-275 -/
def finishLoop : Nat → BarMaker → BarMaker
  | 0, m => m
  | n + 1, m => finishLoop n (m.settleNext base m.lastUmd)

/-- mirrors bar/BarMaker.cpp:266-276 -/
def onFinish (m : BarMaker) : BarMaker :=
  let m := m.start
  finishLoop base (m.size - m.cursor) m

/-- The loop of `GetBar`, with the number of rounds left; the second argument is
`p_rtn_bar`.
mirrors bar/BarMaker.cpp:483-491 -/
def getBarLoop : Nat → Option Nat → BarMaker → BarMaker × Option Nat
  | 0, p, m => (m, p)
  | n + 1, p, m =>
    let p :=
      if m.rtnBarIdx ≠ -1 then
        if (m.bar m.rtnBarIdx.toNat).open_ = 0 then none else some m.rtnBarIdx.toNat
      else p
    getBarLoop n p { m with rtnBarIdx := m.rtnBarIdx + 1 }

/-- mirrors bar/BarMaker.cpp:452-494 -/
def getBar (m : BarMaker) : BarMaker × Option Nat :=
  getBarLoop (m.barIdx - m.rtnBarIdx).toNat none m

/-- `while (nullptr != (pbar = b.GetBar())) on_bar(pbar)`: the bars handed out, and
`fuel` calls at most.
mirrors strategy/CStrategy.cpp:306-311,441-445 -/
def deliverLoop : Nat → BarMaker → BarMaker × List Nat
  | 0, m => (m, [])
  | fuel + 1, m =>
    match m.getBar with
    | (m', none) => (m', [])
    | (m', some i) =>
      let (m'', is) := deliverLoop fuel m'
      (m'', i :: is)

/-- Every call that returns a bar moves `rtn_bar_idx`, so these calls are enough. -/
def deliver (m : BarMaker) : BarMaker × List Nat :=
  deliverLoop ((m.barIdx - m.rtnBarIdx).toNat + 1) m

/-! ## Bars and indices under the moves -/

@[simp] theorem bar_modifyBar_self {m : BarMaker} {i : Nat} (f : Bar2 → Bar2) (h : i < m.size) :
    (m.modifyBar i f).bar i = f (m.bar i) := by
  simp [bar, modifyBar, List.getD_eq_getElem?_getD, h]

@[simp] theorem bar_modifyBar_ne {m : BarMaker} {i k : Nat} (f : Bar2 → Bar2) (h : i ≠ k) :
    (m.modifyBar i f).bar k = m.bar k := by
  simp [bar, modifyBar, List.getD_eq_getElem?_getD, h]

@[simp] theorem modifyBar_barIdx (m : BarMaker) (i : Nat) (f : Bar2 → Bar2) :
    (m.modifyBar i f).barIdx = m.barIdx := rfl

@[simp] theorem modifyBar_rtnBarIdx (m : BarMaker) (i : Nat) (f : Bar2 → Bar2) :
    (m.modifyBar i f).rtnBarIdx = m.rtnBarIdx := rfl

@[simp] theorem modifyBar_lastUmd (m : BarMaker) (i : Nat) (f : Bar2 → Bar2) :
    (m.modifyBar i f).lastUmd = m.lastUmd := rfl

@[simp] theorem modifyBar_settles (m : BarMaker) (i : Nat) (f : Bar2 → Bar2) :
    (m.modifyBar i f).settles = m.settles := rfl

@[simp] theorem modifyBar_instrHash (m : BarMaker) (i : Nat) (f : Bar2 → Bar2) :
    (m.modifyBar i f).instrHash = m.instrHash := rfl

@[simp] theorem modifyBar_size (m : BarMaker) (i : Nat) (f : Bar2 → Bar2) :
    (m.modifyBar i f).size = m.size := by
  simp [modifyBar, size]

@[simp] theorem settleAt_barIdx (m : BarMaker) (i : Nat) (umd : UnitedMarketData) :
    (m.settleAt base i umd).barIdx = m.barIdx := rfl

@[simp] theorem settleAt_lastUmd (m : BarMaker) (i : Nat) (umd : UnitedMarketData) :
    (m.settleAt base i umd).lastUmd = m.lastUmd := rfl

@[simp] theorem settleAt_settles (m : BarMaker) (i : Nat) (umd : UnitedMarketData) :
    (m.settleAt base i umd).settles = m.settles ++ [i] := rfl

@[simp] theorem settleAt_size (m : BarMaker) (i : Nat) (umd : UnitedMarketData) :
    (m.settleAt base i umd).size = m.size := modifyBar_size m i _

@[simp] theorem bar_settleAt_self {m : BarMaker} {i : Nat} (umd : UnitedMarketData) (h : i < m.size) :
    (m.settleAt base i umd).bar i = (m.bar i).settle base umd := bar_modifyBar_self _ h

@[simp] theorem bar_settleAt_ne {m : BarMaker} {i k : Nat} (umd : UnitedMarketData) (h : i ≠ k) :
    (m.settleAt base i umd).bar k = m.bar k := bar_modifyBar_ne _ h

@[simp] theorem settleNext_barIdx (m : BarMaker) (umd : UnitedMarketData) :
    (m.settleNext base umd).barIdx = m.barIdx + 1 := rfl

@[simp] theorem settleNext_lastUmd (m : BarMaker) (umd : UnitedMarketData) :
    (m.settleNext base umd).lastUmd = m.lastUmd := rfl

@[simp] theorem settleNext_settles (m : BarMaker) (umd : UnitedMarketData) :
    (m.settleNext base umd).settles = m.settles ++ [m.cursor] := rfl

@[simp] theorem settleNext_size (m : BarMaker) (umd : UnitedMarketData) :
    (m.settleNext base umd).size = m.size := settleAt_size base m m.cursor umd

@[simp] theorem bar_settleNext_self {m : BarMaker} (umd : UnitedMarketData) (h : m.cursor < m.size) :
    (m.settleNext base umd).bar m.cursor = (m.bar m.cursor).settle base umd :=
  bar_settleAt_self base umd h

@[simp] theorem bar_settleNext_ne {m : BarMaker} {k : Nat} (umd : UnitedMarketData)
    (h : m.cursor ≠ k) : (m.settleNext base umd).bar k = m.bar k := bar_settleAt_ne base umd h

/-- The index of the current bar is within the vector. -/
structure AtBar (m : BarMaker) : Prop where
  nonneg : 0 ≤ m.barIdx
  lt : m.cursor < m.size

theorem AtBar.barIdx_eq {m : BarMaker} (h : m.AtBar) : m.barIdx = m.cursor := by
  have := h.nonneg
  simp [cursor]; omega

theorem AtBar.settleNext_cursor {m : BarMaker} (h : m.AtBar) (umd : UnitedMarketData) :
    (m.settleNext base umd).cursor = m.cursor + 1 := by
  have := h.nonneg
  simp only [cursor, settleNext_barIdx]; omega

theorem sameTimes_updateCur (b : Bar2) (umd : UnitedMarketData) :
    Bar2.SameTimes b (updateCur base b umd) := by
  unfold updateCur
  dsimp only
  repeat' split
  all_goals exact ⟨rfl, rfl, rfl, rfl, rfl, rfl⟩

/-- Whether the current bar is settled by a tick in it depends on its times only. -/
theorem isNeedSettle_updateCur (b : Bar2) (umd umd' : UnitedMarketData) :
    (updateCur base b umd).isNeedSettle base umd' = b.isNeedSettle base umd' := by
  have h := sameTimes_updateCur base b umd
  simp only [Bar2.isNeedSettle, h.bob, h.eob, h.settleSec, h.isAuction]

/-- Where nothing is at the index, nothing changes. -/
theorem modifyBar_of_size_le {m : BarMaker} {i : Nat} (f : Bar2 → Bar2) (h : m.size ≤ i) :
    m.modifyBar i f = m := by
  rw [modifyBar, List.modify_eq_self (by simpa using h)]

theorem bar_modifyBar_adjustEob (m : BarMaker) (i k : Nat) {f : Bar2 → Bar2}
    (hf : ∀ b, (f b).adjustEob = b.adjustEob) :
    ((m.modifyBar i f).bar k).adjustEob = (m.bar k).adjustEob := by
  by_cases hi : i < m.size
  · by_cases hk : i = k
    · subst hk
      rw [bar_modifyBar_self f hi, hf]
    · rw [bar_modifyBar_ne f hk]
  · rw [modifyBar_of_size_le f (not_lt.mp hi)]

theorem bar_settleAt_adjustEob (m : BarMaker) (i k : Nat) (umd : UnitedMarketData) :
    ((m.settleAt base i umd).bar k).adjustEob = (m.bar k).adjustEob :=
  bar_modifyBar_adjustEob m i k fun b => b.settle_adjustEob base umd

/-! ### pass -/

theorem pass_barIdx (m : BarMaker) (umd : UnitedMarketData) :
    (m.pass base umd).barIdx = m.barIdx + 1 := by
  unfold pass
  dsimp only
  split <;> rfl

theorem pass_cursor {m : BarMaker} (hat : m.AtBar) (umd : UnitedMarketData) :
    (m.pass base umd).cursor = m.cursor + 1 := by
  have := hat.nonneg
  simp only [cursor, pass_barIdx]
  omega

theorem pass_lastUmd (m : BarMaker) (umd : UnitedMarketData) :
    (m.pass base umd).lastUmd = m.lastUmd := by
  unfold pass
  dsimp only
  split <;> rfl

theorem pass_instrHash (m : BarMaker) (umd : UnitedMarketData) :
    (m.pass base umd).instrHash = m.instrHash := by
  unfold pass
  dsimp only
  split <;> rfl

theorem pass_size (m : BarMaker) (umd : UnitedMarketData) : (m.pass base umd).size = m.size := by
  unfold pass
  dsimp only
  split
  · exact (modifyBar_size _ _ _).trans (settleNext_size base m umd)
  · exact settleNext_size base m umd

/-- The bar that is passed, the next one, and the others. -/
theorem pass_bar {m : BarMaker} (hat : m.AtBar) (umd : UnitedMarketData) (k : Nat) :
    (m.pass base umd).bar k =
      if k = m.cursor then (m.bar k).settle base umd
      else if k = m.cursor + 1 ∧ k < m.size ∧ m.lastUmd.instrHash ≠ 0 then
        (m.bar k).updatePre base m.lastUmd
      else m.bar k := by
  have hcursor := hat.settleNext_cursor base umd
  have hsize := settleNext_size base m umd
  have hsettled : (m.settleNext base umd).bar k =
      if k = m.cursor then (m.bar k).settle base umd else m.bar k := by
    split
    · rename_i hk
      rw [hk, bar_settleNext_self base umd hat.lt]
    · rename_i hk
      rw [bar_settleNext_ne base umd (Ne.symm hk)]
  unfold pass
  dsimp only
  split
  · rename_i hhash
    by_cases hk : k = m.cursor + 1
    · rw [hcursor, ← hk]
      rw [if_neg (by omega)] at hsettled ⊢
      by_cases hin : k < m.size
      · rw [bar_modifyBar_self _ (by omega), hsettled, if_pos ⟨rfl, hin, hhash⟩]
        rfl
      · rw [modifyBar_of_size_le _ (by omega), hsettled, if_neg (by tauto)]
    · rw [bar_modifyBar_ne _ (by omega), hsettled, if_neg (c := k = m.cursor + 1 ∧ _) (by tauto)]
  · rename_i hhash
    rw [hsettled, if_neg (c := k = m.cursor + 1 ∧ _) (by rintro ⟨_, _, h⟩; exact hhash h)]

theorem pass_adjustEob {m : BarMaker} (hat : m.AtBar) (umd : UnitedMarketData) (k : Nat) :
    ((m.pass base umd).bar k).adjustEob = (m.bar k).adjustEob := by
  rw [pass_bar base hat]
  split
  · exact Bar2.settle_adjustEob base _ umd
  · split <;> rfl

theorem pass_sameTimes {m : BarMaker} (hat : m.AtBar) (umd : UnitedMarketData) {k : Nat}
    (hk : m.cursor < k) : Bar2.SameTimes (m.bar k) ((m.pass base umd).bar k) := by
  rw [pass_bar base hat, if_neg (by omega)]
  split
  · exact Bar2.sameTimes_updatePre base _ _
  · exact Bar2.SameTimes.refl _

/-! ### inCurBar -/

/-- The updates of the current bar, before `settle`. -/
abbrev updated (m : BarMaker) (umd : UnitedMarketData) : BarMaker :=
  m.modifyBar m.cursor (updateCur base · umd)

theorem AtBar.updated {m : BarMaker} (hat : m.AtBar) (umd : UnitedMarketData) :
    (m.updated base umd).AtBar := ⟨hat.nonneg, by rw [modifyBar_size]; exact hat.lt⟩

theorem inCurBar_eq {m : BarMaker} (hat : m.AtBar) (umd : UnitedMarketData) :
    m.inCurBar base umd =
      if (m.bar m.cursor).isNeedSettle base umd then
        let m' := (m.updated base umd).settleNext base umd
        if m.cursor + 1 < m.size then m'.modifyBar (m.cursor + 1) (·.updatePre base umd) else m'
      else m.updated base umd := by
  have hcursor : ((m.updated base umd).settleNext base umd).cursor = m.cursor + 1 :=
    (hat.updated base umd).settleNext_cursor base umd
  have hsize : ((m.updated base umd).settleNext base umd).size = m.size :=
    (settleNext_size base _ umd).trans (modifyBar_size m m.cursor _)
  have hcur : ((m.updated base umd).bar (m.updated base umd).cursor).isNeedSettle base umd =
      (m.bar m.cursor).isNeedSettle base umd := by
    change ((m.updated base umd).bar m.cursor).isNeedSettle base umd = _
    rw [bar_modifyBar_self _ hat.lt, isNeedSettle_updateCur]
  unfold inCurBar
  dsimp only
  rw [hcur, hcursor, hsize]

theorem inCurBar_cursor {m : BarMaker} (hat : m.AtBar) (umd : UnitedMarketData) :
    (m.inCurBar base umd).cursor =
      if (m.bar m.cursor).isNeedSettle base umd then m.cursor + 1 else m.cursor := by
  have hnext := (hat.updated base umd).settleNext_cursor base umd
  rw [inCurBar_eq base hat]
  split
  · dsimp only
    split <;> exact hnext
  · rfl

theorem inCurBar_nonneg {m : BarMaker} (hat : m.AtBar) (umd : UnitedMarketData) :
    0 ≤ (m.inCurBar base umd).barIdx := by
  have hnonneg := hat.nonneg
  rw [inCurBar_eq base hat]
  split
  · dsimp only
    split
    · exact Int.le_add_one hnonneg
    · exact Int.le_add_one hnonneg
  · exact hnonneg

theorem inCurBar_size {m : BarMaker} (hat : m.AtBar) (umd : UnitedMarketData) :
    (m.inCurBar base umd).size = m.size := by
  have hsize : ((m.updated base umd).settleNext base umd).size = m.size :=
    (settleNext_size base _ umd).trans (modifyBar_size m m.cursor _)
  rw [inCurBar_eq base hat]
  split
  · dsimp only
    split
    · exact (modifyBar_size _ _ _).trans hsize
    · exact hsize
  · exact modifyBar_size m m.cursor _

theorem inCurBar_instrHash {m : BarMaker} (hat : m.AtBar) (umd : UnitedMarketData) :
    (m.inCurBar base umd).instrHash = m.instrHash := by
  rw [inCurBar_eq base hat]
  split
  · dsimp only
    split <;> rfl
  · rfl

/-- The bar the tick lies in, the next one, and the others. -/
theorem inCurBar_bar {m : BarMaker} (hat : m.AtBar) (umd : UnitedMarketData) (k : Nat) :
    (m.inCurBar base umd).bar k =
      if k = m.cursor then
        if (m.bar m.cursor).isNeedSettle base umd then
          (updateCur base (m.bar k) umd).settle base umd
        else updateCur base (m.bar k) umd
      else if k = m.cursor + 1 ∧ k < m.size ∧ (m.bar m.cursor).isNeedSettle base umd = true then
        (m.bar k).updatePre base umd
      else m.bar k := by
  have hat' := hat.updated base umd
  have hsize : ((m.updated base umd).settleNext base umd).size = m.size :=
    (settleNext_size base _ umd).trans (modifyBar_size m m.cursor _)
  have hupd : (m.updated base umd).bar k =
      if k = m.cursor then updateCur base (m.bar k) umd else m.bar k := by
    split
    · rename_i hk
      rw [hk, bar_modifyBar_self _ hat.lt]
    · rename_i hk
      rw [bar_modifyBar_ne _ (Ne.symm hk)]
  have hsettled : ((m.updated base umd).settleNext base umd).bar k =
      if k = m.cursor then (updateCur base (m.bar k) umd).settle base umd else m.bar k := by
    by_cases hk : k = m.cursor
    · rw [if_pos hk] at hupd ⊢
      rw [← hupd, hk]
      exact bar_settleNext_self base umd hat'.lt
    · rw [if_neg hk] at hupd ⊢
      rw [← hupd]
      exact bar_settleNext_ne base umd (Ne.symm hk)
  rw [inCurBar_eq base hat]
  split
  · rename_i hneed
    dsimp only
    by_cases hk : k = m.cursor + 1
    · have hne : k ≠ m.cursor := by omega
      rw [if_neg hne] at hsettled ⊢
      by_cases hin : m.cursor + 1 < m.size
      · rw [if_pos hin, ← hk, bar_modifyBar_self _ (by omega), hsettled,
          if_pos ⟨rfl, by omega, hneed⟩]
      · rw [if_neg hin, hsettled, if_neg (by rintro ⟨_, hlt, _⟩; omega)]
    · rw [if_neg (c := k = m.cursor + 1 ∧ _) (by tauto), ← hsettled]
      split
      · rw [bar_modifyBar_ne _ (by omega)]
      · rfl
  · rename_i hneed
    rw [if_neg (c := k = m.cursor + 1 ∧ _) (by tauto)]
    exact hupd

theorem inCurBar_adjustEob {m : BarMaker} (hat : m.AtBar) (umd : UnitedMarketData) (k : Nat) :
    ((m.inCurBar base umd).bar k).adjustEob = (m.bar k).adjustEob := by
  have hupd := (sameTimes_updateCur base (m.bar k) umd).adjustEob
  rw [inCurBar_bar base hat]
  split
  · split
    · rw [Bar2.settle_adjustEob, hupd]
    · exact hupd
  · split <;> rfl

/-! ### start -/

theorem start_size (m : BarMaker) : m.start.size = m.size := by
  unfold start
  split <;> rfl

theorem start_cursor (m : BarMaker) : m.start.cursor = m.cursor := by
  unfold start
  split
  · simp only [cursor]
    omega
  · rfl

theorem start_bar (m : BarMaker) (k : Nat) : m.start.bar k = m.bar k := by
  unfold start
  split <;> rfl

theorem start_nonneg {m : BarMaker} (h : -1 ≤ m.barIdx) : 0 ≤ m.start.barIdx := by
  unfold start
  split
  · exact le_refl 0
  · omega

/-! ## Rules -/

/-- What `pass` keeps, the loop of `OnTick` takes to one of its three ends. The
induction is on the number of bars after the current one. -/
theorem tickLoop_ind {P Q : BarMaker → Prop} {umd : UnitedMarketData}
    (hpass : ∀ m, P m → m.AtBar → m.cursor + 1 < m.size →
      (m.bar m.cursor).isInCurBar (umd.sec base) = .next → P (m.pass base umd))
    (hover : ∀ m, P m → m.AtBar → m.cursor + 1 = m.size →
      (m.bar m.cursor).isInCurBar (umd.sec base) = .next → Q (m.settleAt base m.cursor umd))
    (hcur : ∀ m, P m → m.AtBar → (m.bar m.cursor).isInCurBar (umd.sec base) = .cur →
      Q (m.inCurBar base umd))
    (hpre : ∀ m, P m → m.AtBar → (m.bar m.cursor).isInCurBar (umd.sec base) = .pre →
      Q (m.inPreBar base umd)) :
    ∀ (left : Nat) (m : BarMaker), P m → m.AtBar → left = m.size - 1 - m.cursor →
      Q (tickLoop base umd left m)
  | left, m, hm, hat, hleft => by
    unfold tickLoop
    cases hpos : (m.bar m.cursor).isInCurBar (umd.sec base) with
    | cur => exact hcur m hm hat hpos
    | pre => exact hpre m hm hat hpos
    | next =>
      have hlt := hat.lt
      cases left with
      | zero => exact hover m hm hat (by omega) hpos
      | succ left =>
        have hnext : m.cursor + 1 < m.size := by omega
        have hidx := pass_barIdx base m umd
        have hlen := pass_size base m umd
        have hcursor : (m.pass base umd).cursor = m.cursor + 1 := by
          have := hat.nonneg
          simp only [cursor, hidx]; omega
        refine tickLoop_ind hpass hover hcur hpre left _ (hpass m hm hat hnext hpos) ⟨?_, ?_⟩ ?_
        · have := hat.nonneg
          omega
        · omega
        · omega

/-- The rule of `OnTick`: `P` holds while the loop looks for the bar of the tick,
`Q` of what the loop leaves. -/
theorem onTick_ind {P Q R : BarMaker → Prop} {umd : UnitedMarketData}
    (hpass : ∀ m, P m → m.AtBar → m.cursor + 1 < m.size →
      (m.bar m.cursor).isInCurBar (umd.sec base) = .next → P (m.pass base umd))
    (hover : ∀ m, P m → m.AtBar → m.cursor + 1 = m.size →
      (m.bar m.cursor).isInCurBar (umd.sec base) = .next → Q (m.settleAt base m.cursor umd))
    (hcur : ∀ m, P m → m.AtBar → (m.bar m.cursor).isInCurBar (umd.sec base) = .cur →
      Q (m.inCurBar base umd))
    (hpre : ∀ m, P m → m.AtBar → (m.bar m.cursor).isInCurBar (umd.sec base) = .pre →
      Q (m.inPreBar base umd))
    {m : BarMaker} (hidx : -1 ≤ m.barIdx) (hother : umd.instrHash ≠ m.instrHash → R m)
    (hdone : (m.size : Int) ≤ m.start.barIdx → R m.start)
    (hstart : m.start.AtBar → P m.start) (hlast : ∀ m, Q m → R { m with lastUmd := umd }) :
    R (m.onTick base umd) := by
  unfold onTick
  split
  · exact hother ‹_›
  · have hsize : m.start.size = m.size := by
      unfold start
      split <;> rfl
    have hnonneg : 0 ≤ m.start.barIdx := by
      unfold start
      split
      · exact le_refl 0
      · omega
    simp only
    split
    · exact hdone (by omega)
    · have hat : m.start.AtBar := ⟨hnonneg, by simp only [cursor]; omega⟩
      exact hlast _ (tickLoop_ind base hpass hover hcur hpre _ _ (hstart hat) hat rfl)

/-- The rule of `OnFinish`: what one round keeps, `OnFinish` keeps, and it ends
behind the last bar. -/
theorem onFinish_ind {P : BarMaker → Prop} (hone : ∀ m, P m → m.AtBar → P (m.settleNext base m.lastUmd))
    {m : BarMaker} (hidx : -1 ≤ m.barIdx) (hsize : m.barIdx ≤ m.size) (hm : P m.start) :
    P (m.onFinish base) ∧ (m.onFinish base).barIdx = m.size := by
  have hloop : ∀ (n : Nat) (m : BarMaker), P m → 0 ≤ m.barIdx → m.barIdx + n = m.size →
      P (finishLoop base n m) ∧ (finishLoop base n m).barIdx = m.size := by
    intro n
    induction n with
    | zero => exact fun m hm _ h => ⟨hm, by simpa [finishLoop] using h⟩
    | succ n ih =>
      intro m hm h0 h
      have hlen := settleNext_size base m m.lastUmd
      have hnext := settleNext_barIdx base m m.lastUmd
      have hat : m.AtBar := ⟨h0, by simp only [cursor]; omega⟩
      have hstep := ih _ (hone m hm hat) (by omega) (by omega)
      exact ⟨hstep.1, by rw [← hlen]; exact hstep.2⟩
  have hlen : m.start.size = m.size := by
    unfold start
    split <;> rfl
  have hstart : 0 ≤ m.start.barIdx ∧ m.start.barIdx ≤ m.size := by
    unfold start
    split
    · exact ⟨le_refl 0, by simp⟩
    · exact ⟨by omega, hsize⟩
  rw [← hlen]
  exact hloop _ _ hm hstart.1 (by simp only [cursor]; omega)

end BarMaker

end NatFramework.Bar
