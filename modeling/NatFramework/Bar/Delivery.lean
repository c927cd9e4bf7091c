import NatFramework.Bar.SettleOnce

/-!
# Handing out the bars

A strategy calls `GetBar` until it returns null after each `OnTick` and each
`OnFinish`. `GetBar` walks up to `bar_idx` in one call and keeps the last bar it
meets.

* `deliver_eq`: one round of the caller's loop hands out the last of the newly
  completed bars, or nothing where that one is empty.
* `Swept`: what an operation leaves, from the bar that was current on.
* `Delivered`: all bars below `bar_idx` with a price are handed out. An operation
  keeps it unless it completes two bars of which the first has a price (`Loses`).
* `delivered_iff`: the bars handed out are the settled ones with a price if and
  only if no operation loses one.
-/
namespace NatFramework.Bar

open Lib

namespace BarMaker

variable (base : Int)

/-! ## The caller -/

inductive Op where
  | tick (umd : UnitedMarketData)
  | finish
  deriving DecidableEq, Repr

def Op.run (m : BarMaker) : Op → BarMaker
  | .tick umd => m.onTick base umd
  | .finish => m.onFinish base

/-- A maker and the bars handed to `on_bar`. -/
abbrev Client := BarMaker × List Nat

/-- One operation and the loop around `GetBar`.
mirrors strategy/CStrategy.cpp:305-311,439-447 -/
def serve (c : Client) (op : Op) : Client :=
  let (m, is) := (op.run base c.1).deliver
  (m, c.2 ++ is)

def play (m : BarMaker) (ops : List Op) : Client := ops.foldl (serve base) (m, [])

/-! ## Where an operation leaves bar_idx -/

/-- The bar the loop of `OnTick` stops at, with the bars after `i` counted by
`left`; one further where that bar is settled at once. -/
def landing (m : BarMaker) (umd : UnitedMarketData) : Nat → Nat → Nat
  | left, i =>
    match (m.bar i).isInCurBar (umd.sec base) with
    | .cur => if (m.bar i).isNeedSettle base umd then i + 1 else i
    | .pre => i
    | .next =>
      match left with
      | 0 => i
      | left + 1 => landing m umd left (i + 1)

/-- `bar_idx` after an operation. -/
def Op.reach (m : BarMaker) : Op → Nat
  | .tick umd =>
    if umd.instrHash ≠ m.instrHash ∨ m.size ≤ m.cursor then m.cursor
    else landing base m umd (m.size - 1 - m.cursor) m.cursor
  | .finish => m.size

/-- The bar has a price, or a reference price it will take when it is settled
without a tick. -/
def HasPrice (b : Bar2) : Prop := b.open_ ≠ 0 ∨ b.preClose ≠ 0

/-- The operation completes the current bar, which has a price, and one more. -/
def Loses (m : BarMaker) (op : Op) : Prop :=
  HasPrice (m.bar m.cursor) ∧ m.cursor + 2 ≤ op.reach base m

/-! ## GetBar -/

/-- `GetBar` returns what its last round found. -/
theorem getBarLoop_succ : ∀ (n : Nat) (p : Option Nat) (m : BarMaker), 0 ≤ m.rtnBarIdx + n →
    getBarLoop (n + 1) p m = ({ m with rtnBarIdx := m.rtnBarIdx + n + 1 },
      if (m.bar (m.rtnBarIdx + n).toNat).open_ = 0 then none else some (m.rtnBarIdx + n).toNat)
  | 0, p, m, h => by
    have hne : m.rtnBarIdx ≠ -1 := by omega
    simp [getBarLoop, hne]
  | n + 1, p, m, h => by
    rw [getBarLoop]
    have ih := getBarLoop_succ n
      (if m.rtnBarIdx ≠ -1 then
        if (m.bar m.rtnBarIdx.toNat).open_ = 0 then none else some m.rtnBarIdx.toNat
      else p) { m with rtnBarIdx := m.rtnBarIdx + 1 } (by dsimp only; omega)
    dsimp only at ih ⊢
    have hadd : m.rtnBarIdx + 1 + (n : Int) = m.rtnBarIdx + ((n + 1 : Nat) : Int) := by omega
    rw [ih, hadd]
    rfl

theorem getBar_of_le {m : BarMaker} (h : m.barIdx ≤ m.rtnBarIdx) : m.getBar = (m, none) := by
  have hzero : (m.barIdx - m.rtnBarIdx).toNat = 0 := by omega
  rw [getBar, hzero]
  rfl

/-- The bar just below `bar_idx`, if it is newly completed and has a price. -/
def newest (m : BarMaker) : List Nat :=
  if m.rtnBarIdx < m.barIdx ∧ 0 < m.barIdx ∧ (m.bar (m.barIdx - 1).toNat).open_ ≠ 0 then
    [(m.barIdx - 1).toNat]
  else []

theorem getBar_of_lt {m : BarMaker} (h : m.rtnBarIdx < m.barIdx) (hlower : -1 ≤ m.rtnBarIdx) :
    m.getBar = ({ m with rtnBarIdx := m.barIdx }, m.newest.head?) := by
  obtain ⟨n, hn⟩ : ∃ n : Nat, (m.barIdx - m.rtnBarIdx).toNat = n + 1 :=
    ⟨(m.barIdx - m.rtnBarIdx).toNat - 1, by omega⟩
  rw [getBar, hn]
  by_cases hpos : 0 < m.barIdx
  · have hidx : m.rtnBarIdx + (n : Int) = m.barIdx - 1 := by omega
    rw [getBarLoop_succ n none m (by omega), hidx, newest]
    simp only [h, hpos, true_and, sub_add_cancel]
    split <;> simp_all
  · have hzero : n = 0 := by omega
    have hrtn : m.rtnBarIdx = -1 := by omega
    have hbar : m.barIdx = 0 := by omega
    subst hzero
    simp [getBarLoop, newest, hrtn, hbar]

/-- One round of the caller's loop. -/
theorem deliver_eq {m : BarMaker} (hlower : -1 ≤ m.rtnBarIdx) (hle : m.rtnBarIdx ≤ m.barIdx) :
    m.deliver = ({ m with rtnBarIdx := m.barIdx }, m.newest) := by
  unfold deliver
  by_cases hlt : m.rtnBarIdx < m.barIdx
  · obtain ⟨n, hn⟩ : ∃ n : Nat, (m.barIdx - m.rtnBarIdx).toNat = n + 1 :=
      ⟨(m.barIdx - m.rtnBarIdx).toNat - 1, by omega⟩
    rw [hn, deliverLoop, getBar_of_lt hlt hlower]
    cases hnew : m.newest with
    | nil => simp
    | cons i is =>
      have hsingle : is = [] := by
        unfold newest at hnew
        split at hnew
        · simp_all
        · cases hnew
      subst hsingle
      simp only [List.head?_cons]
      rw [deliverLoop, getBar_of_le (le_refl _)]
  · have heq : m.rtnBarIdx = m.barIdx := by omega
    have hnone : m.newest = [] := by simp [newest, hlt]
    have hself : { m with rtnBarIdx := m.barIdx } = m := by
      cases m
      simp_all
    rw [deliverLoop, getBar_of_le (by omega), hnone, hself]

/-! ## What an operation leaves -/

/-- No price to lose: `open` and `pre_close` are both 0. -/
theorem not_hasPrice {b : Bar2} : ¬HasPrice b ↔ b.open_ = 0 ∧ b.preClose = 0 := by
  simp [HasPrice]

theorem settle_open_eq_zero {b : Bar2} (umd : UnitedMarketData) :
    (b.settle base umd).open_ = 0 ↔ ¬HasPrice b := by
  rw [Bar2.settle_open, not_hasPrice]
  split <;> simp_all

/-- A tick that leaves no reference price behind. -/
def Priceless (umd : UnitedMarketData) : Prop := umd.instrHash = 0 ∨ umd.lastPx = 0

/-- Between two operations: no tick has reached a bar behind the current one, and
the current one has a price if the last tick had one. -/
structure Rest (m : BarMaker) : Prop where
  lower : -1 ≤ m.barIdx
  upper : m.barIdx ≤ m.size
  ahead : ∀ k, m.cursor < k → ¬HasPrice (m.bar k)
  seen : m.cursor + 1 < m.size → ¬HasPrice (m.bar m.cursor) → Priceless m.lastUmd

theorem Rest.start {m : BarMaker} (h : Rest m) : Rest m.start := by
  unfold BarMaker.start
  split
  · rename_i hidx
    have hcursor : m.cursor = 0 := by simp only [cursor]; omega
    have hahead := h.ahead
    have hseen := h.seen
    rw [hcursor] at hahead hseen
    exact ⟨by simp, by simp, hahead, hseen⟩
  · exact h

/-- The bars of `m1` against those of `m`, whose current bar is `i`. -/
structure Swept (m : BarMaker) (i : Nat) (m1 : BarMaker) : Prop where
  size : m1.size = m.size
  rtn : m1.rtnBarIdx = m.rtnBarIdx
  mono : m.barIdx ≤ m1.barIdx
  le : i ≤ m1.cursor
  before : ∀ k < i, m1.bar k = m.bar k
  first : i + 2 ≤ m1.cursor → ((m1.bar i).open_ = 0 ↔ ¬HasPrice (m.bar i))
  between : ¬HasPrice (m.bar i) → ∀ k, i ≤ k → k + 2 ≤ m1.cursor → (m1.bar k).open_ = 0
  settled : ∀ k, i ≤ k → k < m1.cursor → k ∈ m1.settles
  kept : ∀ k ∈ m.settles, k ∈ m1.settles

/-- The same in the middle of an operation: nothing but `settle` and reference
prices has touched the bars yet. -/
structure Mid (m : BarMaker) (i : Nat) (m1 : BarMaker) : Prop where
  size : m1.size = m.size
  rtn : m1.rtnBarIdx = m.rtnBarIdx
  last : m1.lastUmd = m.lastUmd
  nonneg : 0 ≤ m1.barIdx
  mono : m.barIdx ≤ m1.barIdx
  le : i ≤ m1.cursor
  before : ∀ k < i, m1.bar k = m.bar k
  same : m1.cursor = i → m1.bar i = m.bar i
  first : i < m1.cursor → ((m1.bar i).open_ = 0 ↔ ¬HasPrice (m.bar i))
  between : ¬HasPrice (m.bar i) → ∀ k, i ≤ k → k < m1.cursor → (m1.bar k).open_ = 0
  current : ¬HasPrice (m.bar i) → ¬HasPrice (m1.bar m1.cursor)
  ahead : ∀ k, m1.cursor < k → ¬HasPrice (m1.bar k)
  settled : ∀ k, i ≤ k → k < m1.cursor → k ∈ m1.settles
  kept : ∀ k ∈ m.settles, k ∈ m1.settles

theorem Rest.mid {m : BarMaker} (h : Rest m) (hnonneg : 0 ≤ m.barIdx) : Mid m m.cursor m where
  size := rfl
  rtn := rfl
  last := rfl
  nonneg := hnonneg
  mono := le_refl _
  le := le_refl _
  before _ _ := rfl
  same _ := rfl
  first hlt := by omega
  between _ k _ _ := by omega
  current hp := hp
  ahead := h.ahead
  settled k _ _ := by omega
  kept _ hk := hk

theorem Mid.swept {m m1 : BarMaker} {i : Nat} (h : Mid m i m1) : Swept m i m1 where
  size := h.size
  rtn := h.rtn
  mono := h.mono
  le := h.le
  before := h.before
  first hle := h.first (by omega)
  between hp k hk hlt := h.between hp k hk (by omega)
  settled := h.settled
  kept := h.kept

/-- Settling the current bar and moving to one no tick has reached. -/
theorem Mid.settleNext {m m1 : BarMaker} {i : Nat} (h : Mid m i m1) (hat : m1.AtBar)
    (umd : UnitedMarketData) : Mid m i (m1.settleNext base umd) := by
  have hcursor := hat.settleNext_cursor base umd
  have hle := h.le
  exact {
    size := (settleNext_size base m1 umd).trans h.size
    rtn := h.rtn
    last := h.last
    nonneg := by
      have := h.nonneg
      rw [settleNext_barIdx]; omega
    mono := by
      have := h.mono
      rw [settleNext_barIdx]; omega
    le := by omega
    before := fun k hk => by
      rw [bar_settleNext_ne base umd (by omega)]
      exact h.before k hk
    same := fun heq => by omega
    first := fun _ => by
      by_cases hi : m1.cursor = i
      · subst hi
        rw [bar_settleNext_self base umd hat.lt, settle_open_eq_zero, h.same rfl]
      · rw [bar_settleNext_ne base umd hi]
        exact h.first (by omega)
    between := fun hp k hk hlt => by
      by_cases hki : m1.cursor = k
      · subst hki
        rw [bar_settleNext_self base umd hat.lt, settle_open_eq_zero]
        exact h.current hp
      · rw [bar_settleNext_ne base umd hki]
        exact h.between hp k hk (by omega)
    current := fun _ => by
      rw [hcursor, bar_settleNext_ne base umd (by omega)]
      exact h.ahead _ (by omega)
    ahead := fun k hk => by
      rw [bar_settleNext_ne base umd (by omega)]
      exact h.ahead k (by omega)
    settled := fun k hk hlt => by
      rw [settleNext_settles, List.mem_append, List.mem_singleton]
      by_cases hki : k = m1.cursor
      · exact Or.inr hki
      · exact Or.inl (h.settled k hk (by omega))
    kept := fun k hk => List.mem_append_left _ (h.kept k hk) }

theorem Mid.pass {m m1 : BarMaker} {i : Nat} (h : Mid m i m1) (hat : m1.AtBar)
    (hseen : ¬HasPrice (m.bar i) → Priceless m.lastUmd) (umd : UnitedMarketData) :
    Mid m i (m1.pass base umd) := by
  have hnext := h.settleNext base hat umd
  have hcursor := hat.settleNext_cursor base umd
  have hle := h.le
  unfold BarMaker.pass
  dsimp only
  split
  swap
  · exact hnext
  rename_i hhash
  generalize m1.settleNext base umd = m2 at hnext hcursor hhash ⊢
  have hne : ∀ k, k ≠ m1.cursor + 1 →
      (m2.modifyBar m2.cursor (·.updatePre base m2.lastUmd)).bar k = m2.bar k :=
    fun k hk => bar_modifyBar_ne _ (by omega)
  exact { hnext with
    size := (modifyBar_size _ _ _).trans hnext.size
    before := fun k hk => (hne k (by omega)).trans (hnext.before k hk)
    same := fun heq => by
      change m2.cursor = i at heq
      omega
    first := fun hlt => by
      rw [hne i (by omega)]
      exact hnext.first hlt
    between := fun hp k hk hlt => by
      change k < m2.cursor at hlt
      rw [hne k (by omega)]
      exact hnext.between hp k hk hlt
    current := fun hp => by
      change ¬HasPrice ((m2.modifyBar m2.cursor (·.updatePre base m2.lastUmd)).bar m2.cursor)
      by_cases hin : m2.cursor < m2.size
      · rw [bar_modifyBar_self _ hin]
        have hcur := not_hasPrice.mp (hnext.current hp)
        refine not_hasPrice.mpr ⟨hcur.1, ?_⟩
        rw [hnext.last] at hhash ⊢
        exact (hseen hp).resolve_left hhash
      · rw [modifyBar, List.modify_eq_self (by simpa using hin)]
        exact hnext.current hp
    ahead := fun k hk => by
      change m2.cursor < k at hk
      rw [hne k (by omega)]
      exact hnext.ahead k hk }

/-- What the loop leaves of the state before it, and where it leaves the maker. -/
structure Stopped (m : BarMaker) (i : Nat) (umd : UnitedMarketData) (m1 : BarMaker) : Prop where
  swept : Swept m i m1
  nonneg : 0 ≤ m1.barIdx
  upper : m1.cursor ≤ m1.size
  ahead : ∀ k, m1.cursor < k → ¬HasPrice (m1.bar k)
  seen : m1.cursor + 1 < m1.size → ¬HasPrice (m1.bar m1.cursor) → umd.lastPx = 0

theorem Swept.lastUmd {m m1 : BarMaker} {i : Nat} (h : Swept m i m1) (umd : UnitedMarketData) :
    Swept m i { m1 with lastUmd := umd } :=
  ⟨h.size, h.rtn, h.mono, h.le, h.before, h.first, h.between, h.settled, h.kept⟩

theorem Stopped.rest {m m1 : BarMaker} {i : Nat} {umd : UnitedMarketData} (h : Stopped m i umd m1) :
    Rest { m1 with lastUmd := umd } where
  lower := by have := h.nonneg; dsimp only; omega
  upper := by
    have hupper := h.upper
    simp only [cursor] at hupper
    exact Int.toNat_le.mp hupper
  ahead := h.ahead
  seen hlt hp := Or.inr (h.seen hlt hp)

/-- Changes of the bar the loop has stopped at. -/
theorem Mid.stopAt {m m1 : BarMaker} {i : Nat} {umd : UnitedMarketData} (h : Mid m i m1)
    (hat : m1.AtBar) {f : Bar2 → Bar2}
    (hf : ¬HasPrice (f (m1.bar m1.cursor)) → umd.lastPx = 0 ∨ m1.cursor + 1 = m1.size) :
    Stopped m i umd (m1.modifyBar m1.cursor f) := by
  have hle := h.le
  have hne : ∀ k, k ≠ m1.cursor → (m1.modifyBar m1.cursor f).bar k = m1.bar k :=
    fun k hk => bar_modifyBar_ne f (Ne.symm hk)
  exact {
    swept := { h.swept with
      size := (modifyBar_size _ _ _).trans h.size
      before := fun k hk => (hne k (by omega)).trans (h.before k hk)
      first := fun hlt => by
        change i + 2 ≤ m1.cursor at hlt
        rw [hne i (by omega)]
        exact h.first (by omega)
      between := fun hp k hk hlt => by
        change k + 2 ≤ m1.cursor at hlt
        rw [hne k (by omega)]
        exact h.between hp k hk (by omega) }
    nonneg := h.nonneg
    upper := by
      rw [modifyBar_size]
      exact hat.lt.le
    ahead := fun k hk => by
      change m1.cursor < k at hk
      rw [hne k (by omega)]
      exact h.ahead k hk
    seen := fun hlt hp => by
      change ¬HasPrice ((m1.modifyBar m1.cursor f).bar m1.cursor) at hp
      change m1.cursor + 1 < (m1.modifyBar m1.cursor f).size at hlt
      rw [modifyBar_size] at hlt
      rw [bar_modifyBar_self f hat.lt] at hp
      exact (hf hp).resolve_right (by omega) }

/-- A bar that a tick lies in takes at least a reference price from it. -/
theorem updateCur_preClose (b : Bar2) (umd : UnitedMarketData) :
    (updateCur base b umd).preClose = if b.preClose = 0 then umd.lastPx else b.preClose := by
  unfold updateCur
  dsimp only
  repeat' split
  all_goals simp_all [Bar2.isNeedUpdatePre, Bar2.updateOpen, Bar2.updateBar]

theorem lastPx_of_updateCur {b : Bar2} {umd : UnitedMarketData}
    (h : ¬HasPrice (updateCur base b umd)) : umd.lastPx = 0 := by
  have hpre := (not_hasPrice.mp h).2
  rw [updateCur_preClose] at hpre
  split at hpre
  · exact hpre
  · exact absurd hpre ‹_›

/-- The branch `pos == 0` that settles the bar: the next one takes the tick for its
reference. -/
theorem Mid.settleHere {m m1 : BarMaker} {i : Nat} (h : Mid m i m1) (hat : m1.AtBar)
    (umd : UnitedMarketData) (f : Bar2 → Bar2) :
    Stopped m i umd
      (let m2 := (m1.modifyBar m1.cursor f).settleNext base umd
      if m2.cursor < m2.size then m2.modifyBar m2.cursor (·.updatePre base umd) else m2) := by
  have hat' : (m1.modifyBar m1.cursor f).AtBar :=
    ⟨hat.nonneg, by rw [modifyBar_size]; exact hat.lt⟩
  have hcursor : ((m1.modifyBar m1.cursor f).settleNext base umd).cursor = m1.cursor + 1 :=
    hat'.settleNext_cursor base umd
  have hbar : ∀ k, k ≠ m1.cursor →
      ((m1.modifyBar m1.cursor f).settleNext base umd).bar k = m1.bar k := by
    intro k hk
    rw [bar_settleNext_ne base (m := m1.modifyBar m1.cursor f) umd (Ne.symm hk),
      bar_modifyBar_ne f (Ne.symm hk)]
  have hsize : ((m1.modifyBar m1.cursor f).settleNext base umd).size = m1.size :=
    (settleNext_size base _ umd).trans (modifyBar_size _ _ _)
  have hsettles : ((m1.modifyBar m1.cursor f).settleNext base umd).settles =
      m1.settles ++ [m1.cursor] := rfl
  have hrtn : ((m1.modifyBar m1.cursor f).settleNext base umd).rtnBarIdx = m1.rtnBarIdx := rfl
  have hidx : ((m1.modifyBar m1.cursor f).settleNext base umd).barIdx = m1.barIdx + 1 := rfl
  have hmono := h.mono
  have hnonneg := hat.nonneg
  generalize (m1.modifyBar m1.cursor f).settleNext base umd = m2
    at hcursor hbar hsize hsettles hrtn hidx
  have hle := h.le
  have hlt := hat.lt
  have hswept : Swept m i m2 := {
    size := hsize.trans h.size
    rtn := hrtn.trans h.rtn
    mono := by omega
    le := by omega
    before := fun k hk => (hbar k (by omega)).trans (h.before k hk)
    first := fun hlt => by
      rw [hbar i (by omega)]
      exact h.first (by omega)
    between := fun hp k hk hlt => by
      rw [hbar k (by omega)]
      exact h.between hp k hk (by omega)
    settled := fun k hk hlt => by
      rw [hsettles, List.mem_append, List.mem_singleton]
      by_cases hki : k = m1.cursor
      · exact Or.inr hki
      · exact Or.inl (h.settled k hk (by omega))
    kept := fun k hk => hsettles ▸ List.mem_append_left _ (h.kept k hk) }
  dsimp only
  split
  · rename_i hin
    have hne : ∀ k, k ≠ m2.cursor →
        (m2.modifyBar m2.cursor (·.updatePre base umd)).bar k = m2.bar k :=
      fun k hk => bar_modifyBar_ne _ (Ne.symm hk)
    exact {
      swept := { hswept with
        size := (modifyBar_size _ _ _).trans hswept.size
        before := fun k hk => (hne k (by omega)).trans (hswept.before k hk)
        first := fun hlt => by
          change i + 2 ≤ m2.cursor at hlt
          rw [hne i (by omega)]
          exact hswept.first hlt
        between := fun hp k hk hlt => by
          change k + 2 ≤ m2.cursor at hlt
          rw [hne k (by omega)]
          exact hswept.between hp k hk hlt }
      nonneg := by
        rw [modifyBar_barIdx]
        omega
      upper := by
        rw [modifyBar_size]
        exact hin.le
      ahead := fun k hk => by
        change m2.cursor < k at hk
        rw [hne k (by omega), hbar k (by omega)]
        exact h.ahead k (by omega)
      seen := fun _ hp => by
        change ¬HasPrice ((m2.modifyBar m2.cursor (·.updatePre base umd)).bar m2.cursor) at hp
        rw [bar_modifyBar_self _ hin] at hp
        exact (not_hasPrice.mp hp).2 }
  · exact {
      swept := hswept
      nonneg := by omega
      upper := by omega
      ahead := fun k hk => by
        rw [hbar k (by omega)]
        exact h.ahead k (by omega)
      seen := fun hlt' _ => by omega }

theorem Mid.inCurBar {m m1 : BarMaker} {i : Nat} (h : Mid m i m1) (hat : m1.AtBar)
    (umd : UnitedMarketData) : Stopped m i umd (m1.inCurBar base umd) := by
  unfold BarMaker.inCurBar
  dsimp only
  split
  · exact h.settleHere base hat umd _
  · exact h.stopAt hat fun hp => Or.inl (lastPx_of_updateCur base hp)

/-- The branch `pos == 1` at the last bar: it is settled and stays the current one. -/
theorem Mid.settleLast {m m1 : BarMaker} {i : Nat} (h : Mid m i m1) (hat : m1.AtBar)
    (hlast : m1.cursor + 1 = m1.size) (umd : UnitedMarketData) :
    Stopped m i umd (m1.settleAt base m1.cursor umd) := by
  have hstop : Stopped m i umd (m1.modifyBar m1.cursor (·.settle base umd)) :=
    h.stopAt hat fun _ => Or.inr hlast
  exact {
    swept := { hstop.swept with
      settled := fun k hk hlt => List.mem_append_left _ (hstop.swept.settled k hk hlt)
      kept := fun k hk => List.mem_append_left _ (hstop.swept.kept k hk) }
    nonneg := hstop.nonneg
    upper := hstop.upper
    ahead := hstop.ahead
    seen := hstop.seen }

theorem Swept.refl {m : BarMaker} {i : Nat} (h : i = m.cursor) : Swept m i m where
  size := rfl
  rtn := rfl
  mono := le_refl _
  le := h.le
  before _ _ := rfl
  first hle := by omega
  between _ k _ hle := by omega
  settled k _ hlt := by omega
  kept _ hk := hk

/-- `start` leaves all but `bar_idx` alone. -/
theorem Swept.of_start {m m1 : BarMaker} {i : Nat} (h : Swept m.start i m1) : Swept m i m1 := by
  unfold BarMaker.start at h
  split at h
  · have := h.mono
    exact ⟨h.size, h.rtn, by dsimp only at this; omega, h.le, h.before, h.first, h.between,
      h.settled, h.kept⟩
  · exact h

/-- What a tick does. -/
theorem Rest.onTick {m : BarMaker} (h : Rest m) (umd : UnitedMarketData) :
    Swept m m.cursor (m.onTick base umd) ∧ Rest (m.onTick base umd) := by
  have hstart := h.start
  have hsize := start_size m
  rw [← start_cursor m]
  refine onTick_ind base (P := Mid m.start m.start.cursor) (Q := Stopped m.start m.start.cursor umd)
    (R := fun m1 => Swept m m.start.cursor m1 ∧ Rest m1) ?_ ?_ ?_ ?_ h.lower ?_ ?_ ?_ ?_
  · intro m1 hm hat hlt _
    have hle := hm.le
    have hm_size := hm.size
    exact hm.pass base hat (hstart.seen (by omega)) umd
  · exact fun m1 hm hat hlast _ => hm.settleLast base hat hlast umd
  · exact fun m1 hm hat _ => hm.inCurBar base hat umd
  · exact fun m1 hm hat _ => hm.stopAt hat fun hp => Or.inl (not_hasPrice.mp hp).2
  · exact fun _ => ⟨Swept.refl (start_cursor m), h⟩
  · exact fun _ => ⟨(Swept.refl rfl).of_start, hstart⟩
  · exact fun hat => hstart.mid hat.nonneg
  · exact fun m1 hm => ⟨(hm.swept.lastUmd umd).of_start, hm.rest⟩

/-- What `OnFinish` does. -/
theorem Rest.onFinish {m : BarMaker} (h : Rest m) :
    Swept m m.cursor (m.onFinish base) ∧ Rest (m.onFinish base) := by
  have hstart := h.start
  have hsize := start_size m
  rw [← start_cursor m]
  have hnonneg : 0 ≤ m.start.barIdx := by
    have := h.lower
    unfold BarMaker.start
    split
    · exact le_refl 0
    · omega
  obtain ⟨hmid, hidx⟩ := onFinish_ind base (P := Mid m.start m.start.cursor)
    (fun m1 hm hat => hm.settleNext base hat m1.lastUmd) h.lower h.upper (hstart.mid hnonneg)
  have hm_size := hmid.size
  refine ⟨hmid.swept.of_start, ?_, ?_, hmid.ahead, fun hlt => ?_⟩
  · omega
  · omega
  · simp only [cursor] at hlt
    omega

theorem Op.swept {m : BarMaker} (h : Rest m) (op : Op) :
    Swept m m.cursor (op.run base m) ∧ Rest (op.run base m) :=
  match op with
  | .tick umd => h.onTick base umd
  | .finish => h.onFinish base

/-! ## Where it leaves bar_idx -/

/-- The loop reads nothing but the times of the bars from the current one on, which
it leaves as they were. -/
theorem tickLoop_cursor {m : BarMaker} {umd : UnitedMarketData} :
    ∀ (left : Nat) (m1 : BarMaker), m1.AtBar → left = m1.size - 1 - m1.cursor →
      (∀ k, m1.cursor ≤ k → Bar2.SameTimes (m.bar k) (m1.bar k)) →
      (tickLoop base umd left m1).cursor = landing base m umd left m1.cursor
  | left, m1, hat, hleft, hsame => by
    have hcur := hsame m1.cursor (le_refl _)
    have hpos : (m1.bar m1.cursor).isInCurBar (umd.sec base) =
        (m.bar m1.cursor).isInCurBar (umd.sec base) := by
      simp only [Bar2.isInCurBar, hcur.adjustBob, hcur.adjustEob]
    have hsettle : (m1.bar m1.cursor).isNeedSettle base umd =
        (m.bar m1.cursor).isNeedSettle base umd := by
      simp only [Bar2.isNeedSettle, hcur.bob, hcur.eob, hcur.settleSec, hcur.isAuction]
    unfold tickLoop landing
    rw [hpos]
    cases (m.bar m1.cursor).isInCurBar (umd.sec base) with
    | cur =>
      dsimp only
      rw [inCurBar_cursor base hat, hsettle]
    | pre => rfl
    | next =>
      have hlt := hat.lt
      have hcursor := pass_cursor base hat umd
      have hsize := pass_size base m1 umd
      cases left with
      | zero => rfl
      | succ left =>
        dsimp only
        rw [← hcursor]
        refine tickLoop_cursor left _ ⟨?_, by omega⟩ (by omega) (fun k hk => ?_)
        · have := hat.nonneg
          rw [pass_barIdx]
          omega
        · exact (hsame k (by omega)).trans (pass_sameTimes base hat umd (by omega))

theorem Op.run_cursor {m : BarMaker} (h : Rest m) (op : Op) :
    (op.run base m).cursor = op.reach base m := by
  have hsize := start_size m
  have hcursor := start_cursor m
  cases op with
  | finish =>
    have hidx := (onFinish_ind base (P := fun _ => True) (fun _ _ _ => trivial) h.lower h.upper
      trivial).2
    change (m.onFinish base).cursor = m.size
    simp only [cursor]
    omega
  | tick umd =>
    change (m.onTick base umd).cursor = _
    unfold onTick reach
    dsimp only
    by_cases hhash : umd.instrHash = m.instrHash
    swap
    · rw [if_pos hhash, if_pos (Or.inl hhash)]
    have hnonneg : 0 ≤ m.start.barIdx := by
      have := h.lower
      unfold start
      split
      · exact le_refl 0
      · omega
    rw [if_neg (by simpa using hhash)]
    by_cases hdone : m.size ≤ m.cursor
    · rw [if_pos (by simp only [cursor] at hdone hcursor; omega), if_pos (Or.inr hdone)]
      exact hcursor
    · rw [if_neg (by simp only [cursor] at hdone hcursor; omega),
        if_neg (by simp only [not_or, not_not]; exact ⟨hhash, hdone⟩)]
      have hat : m.start.AtBar := ⟨hnonneg, by omega⟩
      have hloop : (tickLoop base umd (m.start.size - 1 - m.start.cursor) m.start).cursor =
          landing base m umd (m.start.size - 1 - m.start.cursor) m.start.cursor := by
        refine tickLoop_cursor base _ m.start hat rfl fun k _ => ?_
        unfold BarMaker.start
        split <;> exact Bar2.SameTimes.refl _
      rw [hcursor, hsize] at hloop
      rw [hcursor, hsize]
      exact hloop

/-! ## Runs -/

/-- Between two operations: `GetBar` has caught up and every bar below `bar_idx` is
settled. -/
structure CaughtUp (c : Client) : Prop where
  rest : Rest c.1
  rtn : c.1.rtnBarIdx = c.1.barIdx
  settled : ∀ k < c.1.cursor, k ∈ c.1.settles

/-- The bar an operation hands out, by the bars it completes. -/
def handedBy (i : Nat) (m : BarMaker) : List Nat :=
  if i < m.cursor ∧ (m.bar (m.cursor - 1)).open_ ≠ 0 then [m.cursor - 1] else []

theorem serve_eq {c : Client} (h : CaughtUp c) (op : Op) :
    serve base c op = ({ op.run base c.1 with rtnBarIdx := (op.run base c.1).barIdx },
      c.2 ++ handedBy c.1.cursor (op.run base c.1)) := by
  obtain ⟨hswept, _⟩ := op.swept base h.rest
  have hlower := h.rest.lower
  have hmono := hswept.mono
  have hrtn := hswept.rtn.trans h.rtn
  have hnewest : (op.run base c.1).newest = handedBy c.1.cursor (op.run base c.1) := by
    have hpred : ((op.run base c.1).barIdx - 1).toNat = (op.run base c.1).cursor - 1 := by
      simp only [cursor]
      omega
    have hlt : (op.run base c.1).rtnBarIdx < (op.run base c.1).barIdx ∧
        0 < (op.run base c.1).barIdx ↔ c.1.cursor < (op.run base c.1).cursor := by
      simp only [cursor]
      omega
    simp only [newest, handedBy, hpred, ← and_assoc, hlt]
  have hdeliver := deliver_eq (m := op.run base c.1) (by omega) (by omega)
  simp only [serve, hdeliver, hnewest]

theorem CaughtUp.serve {c : Client} (h : CaughtUp c) (op : Op) : CaughtUp (serve base c op) := by
  obtain ⟨hswept, hrest⟩ := op.swept base h.rest
  rw [serve_eq base h op]
  refine ⟨⟨hrest.lower, hrest.upper, hrest.ahead, hrest.seen⟩, rfl, fun k hk => ?_⟩
  by_cases hle : c.1.cursor ≤ k
  · exact hswept.settled k hle hk
  · exact hswept.kept k (h.settled k (by omega))

/-- All bars with a price below `bar_idx` have been handed out, in order. -/
def Complete (c : Client) : Prop :=
  c.2 = (List.range c.1.cursor).filter fun k => (c.1.bar k).open_ ≠ 0

/-- A bar with a price below `bar_idx` has been left out. -/
def Missed (c : Client) : Prop := ∃ k < c.1.cursor, (c.1.bar k).open_ ≠ 0 ∧ k ∉ c.2

theorem filter_range_of_not {p : Nat → Bool} {i j : Nat} (hij : i ≤ j)
    (hp : ∀ k, i ≤ k → k < j → p k = false) : (List.range j).filter p = (List.range i).filter p := by
  induction j, hij using Nat.le_induction with
  | base => rfl
  | succ j hij ih =>
    have hj := hp j hij (by omega)
    rw [List.range_succ, List.filter_append, ih fun k hk hlt => hp k hk (by omega)]
    simp [hj]

theorem Complete.serve {c : Client} (h : CaughtUp c) (hc : Complete c) {op : Op}
    (hno : ¬Loses base c.1 op) : Complete (serve base c op) := by
  obtain ⟨hswept, _⟩ := op.swept base h.rest
  have hreach := op.run_cursor base h.rest
  have hle := hswept.le
  rw [serve_eq base h op]
  unfold Complete at hc ⊢
  change c.2 ++ _ = (List.range (op.run base c.1).cursor).filter
    fun k => ((op.run base c.1).bar k).open_ ≠ 0
  have hold : c.2 = (List.range c.1.cursor).filter fun k => ((op.run base c.1).bar k).open_ ≠ 0 := by
    rw [hc]
    refine List.filter_congr fun k hk => ?_
    rw [hswept.before k (List.mem_range.mp hk)]
  -- of the bars completed, all but the newest are empty
  have hempty : ∀ k, c.1.cursor ≤ k → k + 2 ≤ (op.run base c.1).cursor →
      ((op.run base c.1).bar k).open_ = 0 := by
    intro k hk hlt
    rcases not_and_or.mp hno with hprice | hshort
    · exact hswept.between hprice k hk hlt
    · omega
  rw [hold]
  unfold handedBy
  generalize op.run base c.1 = m1 at hle hempty ⊢
  rcases Nat.eq_or_lt_of_le hle with heq | hlt
  · rw [if_neg (by omega), List.append_nil, heq]
  · obtain ⟨j, hj⟩ : ∃ j, m1.cursor = j + 1 := ⟨m1.cursor - 1, by omega⟩
    rw [hj, List.range_succ, List.filter_append, filter_range_of_not (by omega : c.1.cursor ≤ j)
      fun k hk hkj => by simpa using hempty k hk (by omega)]
    by_cases hopen : (m1.bar j).open_ = 0
    · simp [hopen]
    · simp [hopen, show c.1.cursor < j + 1 by omega]

theorem missed_of_loses {c : Client} (h : CaughtUp c) (hc : Complete c) {op : Op}
    (hloses : Loses base c.1 op) : Missed (serve base c op) := by
  obtain ⟨hswept, _⟩ := op.swept base h.rest
  have hreach := op.run_cursor base h.rest
  have hlt := hloses.2
  rw [serve_eq base h op]
  refine ⟨c.1.cursor, show c.1.cursor < (op.run base c.1).cursor by omega, ?_, ?_⟩
  · exact fun hzero => (hswept.first (by omega)).mp hzero hloses.1
  · rw [hc]
    simp only [handedBy]
    split
    · simp
      omega
    · simp

theorem Missed.serve {c : Client} (h : CaughtUp c) (hm : Missed c) (op : Op) :
    Missed (serve base c op) := by
  obtain ⟨hswept, _⟩ := op.swept base h.rest
  obtain ⟨k, hk, hopen, hnot⟩ := hm
  have hle := hswept.le
  rw [serve_eq base h op]
  refine ⟨k, show k < (op.run base c.1).cursor by omega, ?_, ?_⟩
  · change ((op.run base c.1).bar k).open_ ≠ 0
    rw [hswept.before k hk]
    exact hopen
  · simp only [handedBy]
    split
    · simp [hnot]
      omega
    · simpa using hnot

theorem caughtUp_new (info : InstrumentInfo) (exch : Exch) (cycleSec : Int) :
    CaughtUp (BarMaker.new base info exch cycleSec, []) where
  rest := {
    lower := le_refl (-1)
    upper := by simp [BarMaker.new]
    ahead := fun k _ => not_hasPrice.mpr
      ⟨(unfilled_bar_new base info exch cycleSec k).open_,
        (unfilled_bar_new base info exch cycleSec k).preClose⟩
    seen := fun _ _ => Or.inl rfl }
  rtn := rfl
  settled k hk := absurd hk (Nat.not_lt_zero k)

theorem play_concat (m : BarMaker) (ops : List Op) (op : Op) :
    play base m (ops ++ [op]) = serve base (play base m ops) op := by
  simp [play]

theorem caughtUp_play {m : BarMaker} (h : CaughtUp (m, [])) (ops : List Op) :
    CaughtUp (play base m ops) :=
  List.foldlRecOn ops (serve base) h fun _ hc op _ => hc.serve base op

/-- A run is complete as long as no operation loses a bar, and never again after. -/
theorem complete_or_missed {m : BarMaker} (h : CaughtUp (m, [])) (h0 : m.cursor = 0) (ops : List Op) :
    (AtEach (fun pre op => ¬Loses base (play base m pre).1 op) ops → Complete (play base m ops)) ∧
    (¬AtEach (fun pre op => ¬Loses base (play base m pre).1 op) ops → Missed (play base m ops)) := by
  induction ops using List.reverseRecOn with
  | nil => exact ⟨fun _ => by simp [Complete, play, h0], fun hne => absurd (atEach_nil _) hne⟩
  | append_singleton ops op ih =>
    have hup := caughtUp_play base h ops
    rw [atEach_concat, play_concat]
    refine ⟨fun hno => (ih.1 hno.1).serve base hup hno.2, fun hlost => ?_⟩
    by_cases hno : AtEach (fun pre op => ¬Loses base (play base m pre).1 op) ops
    · have hloses := (not_and_or.mp hlost).resolve_left (not_not_intro hno)
      exact missed_of_loses base hup (ih.1 hno) (not_not.mp hloses)
    · exact (ih.2 hno).serve base hup op

/-- The bars handed out are the settled ones with a price, each once and in order. -/
def AllDelivered (c : Client) : Prop :=
  c.2 = (List.range c.1.size).filter fun k => k ∈ c.1.settles ∧ (c.1.bar k).open_ ≠ 0

instance (c : Client) : Decidable (AllDelivered c) := inferInstanceAs (Decidable (_ = _))

theorem delivered_iff (info : InstrumentInfo) (exch : Exch) (cycleSec : Int) (ops : List Op) :
    AllDelivered (play base (BarMaker.new base info exch cycleSec) (ops ++ [.finish])) ↔
    AtEach (fun pre op => ¬Loses base (play base (BarMaker.new base info exch cycleSec) pre).1 op)
      (ops ++ [.finish]) := by
  have h0 := caughtUp_new base info exch cycleSec
  have hcursor : (BarMaker.new base info exch cycleSec).cursor = 0 := rfl
  generalize BarMaker.new base info exch cycleSec = m at h0 hcursor ⊢
  obtain ⟨hcomplete, hmissed⟩ := complete_or_missed base h0 hcursor (ops ++ [.finish])
  have hup := caughtUp_play base h0 (ops ++ [.finish])
  have hend : (play base m (ops ++ [.finish])).1.cursor = (play base m (ops ++ [.finish])).1.size := by
    have hup' := caughtUp_play base h0 ops
    have hreach := Op.finish.run_cursor base hup'.rest
    rw [play_concat, serve_eq base hup' .finish]
    exact hreach.trans (Op.finish.swept base hup'.rest).1.size.symm
  have hsettled : ∀ k ∈ List.range (play base m (ops ++ [.finish])).1.size,
      k ∈ (play base m (ops ++ [.finish])).1.settles := by
    intro k hk
    rw [← hend] at hk
    exact hup.settled k (List.mem_range.mp hk)
  generalize play base m (ops ++ [.finish]) = c at hcomplete hmissed hup hend hsettled ⊢
  have hfilter : ((List.range c.1.size).filter fun k => k ∈ c.1.settles ∧ (c.1.bar k).open_ ≠ 0) =
      (List.range c.1.cursor).filter fun k => (c.1.bar k).open_ ≠ 0 := by
    rw [hend]
    refine List.filter_congr fun k hk => ?_
    simp [hsettled k hk]
  rw [AllDelivered, hfilter]
  constructor
  · intro hall
    by_contra hlost
    obtain ⟨k, hk, hopen, hnot⟩ := hmissed hlost
    refine hnot ?_
    rw [hall, List.mem_filter]
    exact ⟨List.mem_range.mpr hk, by simpa using hopen⟩
  · exact fun hno => hcomplete hno

/-- One bar with a tick, the next one passed over by the same tick that ends it:
the first is never handed out. -/
theorem passed_bar_not_delivered :
    ¬AllDelivered (play intraDayBaseSec
      (BarMaker.new intraDayBaseSec (contract "IF1803" "IF") .cffex 3600)
      ([.tick (tickAt 10 0 0 4000 10), .tick (tickAt 13 30 0 4002 12)] ++ [.finish])) := by
  decide +kernel

end BarMaker

end NatFramework.Bar
