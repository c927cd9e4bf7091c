import NatFramework.Lib.Run
import NatFramework.Bar.Generate

/-!
# Every bar settled once

`settle` rescales the times of a bar in place, so that a second call spoils them.
`OnTick` calls it from two places and `OnFinish` from a third.

* `Progress`: up to `bar_idx` each bar has been settled once, from there on none.
  Each move keeps it but one: a tick behind the last bar (`Overruns`) settles that
  bar and leaves `bar_idx` where it is.
* `Overdue`: after such a tick the last bar has one call more than it should.
* `settled_once_iff`: each bar is settled once if and only if no tick overruns.
-/
namespace NatFramework.Bar

open Lib

namespace BarMaker

variable (base : Int)

/-- A maker as its constructor leaves it, with any bars. -/
def ofBars (info : InstrumentInfo) (cycleSec : Int) (vecBar : List Bar2) : BarMaker where
  instr := info.instr
  instrHash := info.instrHash
  cycleSec := cycleSec
  vecBar := vecBar

def ticks (m : BarMaker) (umds : List UnitedMarketData) : BarMaker := umds.foldl (onTick base) m

/-- The ticks of a day and `OnFinish`. -/
def day (m : BarMaker) (umds : List UnitedMarketData) : BarMaker := (m.ticks base umds).onFinish base

/-- The tick lies at or behind `adjust_eob` of the current bar and of every bar
after it. -/
def Overruns (m : BarMaker) (umd : UnitedMarketData) : Prop :=
  umd.instrHash = m.instrHash ∧ m.start.cursor < m.size ∧
    ∀ k, m.start.cursor ≤ k → k < m.size → (m.bar k).adjustEob ≤ umd.sec base

/-! ## Without an overrun -/

/-- What is settled of the bars of `m0`. -/
structure Progress (m0 m : BarMaker) : Prop where
  size : m.size = m0.size
  hash : m.instrHash = m0.instrHash
  lower : -1 ≤ m.barIdx
  upper : m.barIdx ≤ m.size
  adjustEob : ∀ k, (m.bar k).adjustEob = (m0.bar k).adjustEob
  done : ∀ i : Nat, i < m.size → (i : Int) < m.barIdx →
    m.settles.count i = 1 ∧ Bar2.Settled (m0.bar i) (m.bar i)
  ahead : ∀ i : Nat, i < m.size → m.barIdx ≤ i →
    m.settles.count i = 0 ∧ Bar2.SameTimes (m0.bar i) (m.bar i)

theorem progress_ofBars (info : InstrumentInfo) (cycleSec : Int) (vecBar : List Bar2) :
    Progress (ofBars info cycleSec vecBar) (ofBars info cycleSec vecBar) where
  size := rfl
  hash := rfl
  lower := le_refl (-1)
  upper := by simp [ofBars]
  adjustEob _ := rfl
  done i _ h := by simp [ofBars] at h; omega
  ahead i _ _ := ⟨rfl, Bar2.SameTimes.refl _⟩

theorem Progress.start {m0 m : BarMaker} (h : Progress m0 m) : Progress m0 m.start := by
  unfold BarMaker.start
  split
  · rename_i hidx
    exact { h with
      lower := by simp
      upper := by simp
      done := fun i _ hlt => by simp at hlt; omega
      ahead := fun i hi _ => h.ahead i hi (by omega) }
  · exact h

/-- A bar that is not settled yet may change in all but its times. -/
theorem Progress.modifyBar {m0 m : BarMaker} (h : Progress m0 m) {i : Nat} (hi : m.barIdx ≤ i)
    {f : Bar2 → Bar2} (hf : ∀ b, Bar2.SameTimes b (f b)) : Progress m0 (m.modifyBar i f) where
  size := (modifyBar_size m i f).trans h.size
  hash := h.hash
  lower := h.lower
  upper := by simpa using h.upper
  adjustEob k := by
    by_cases hk : i = k ∧ i < m.size
    · rw [← hk.1, bar_modifyBar_self f hk.2, (hf _).adjustEob, h.adjustEob]
    · rw [← h.adjustEob k]
      rcases not_and_or.mp hk with hne | hge
      · rw [bar_modifyBar_ne f hne]
      · rw [BarMaker.modifyBar, List.modify_eq_self (by simpa using hge)]
  done k hk hlt := by
    rw [modifyBar_size] at hk
    rw [modifyBar_barIdx] at hlt
    rw [bar_modifyBar_ne f (by omega)]
    exact h.done k hk hlt
  ahead k hk hle := by
    rw [modifyBar_size] at hk
    have hat := h.ahead k hk hle
    by_cases hik : i = k
    · subst hik
      rw [bar_modifyBar_self f hk]
      exact ⟨hat.1, hat.2.trans (hf _)⟩
    · rw [bar_modifyBar_ne f hik]
      exact hat

/-- Settling the current bar and moving on. -/
theorem Progress.settleNext {m0 m : BarMaker} (h : Progress m0 m) (hat : m.AtBar)
    (umd : UnitedMarketData) : Progress m0 (m.settleNext base umd) where
  size := (settleNext_size base m umd).trans h.size
  hash := h.hash
  lower := by
    have := h.lower
    rw [settleNext_barIdx]; omega
  upper := by
    have hidx := hat.barIdx_eq
    have hlt := hat.lt
    rw [settleNext_barIdx, settleNext_size]; omega
  adjustEob k := by
    rw [← h.adjustEob k]
    by_cases hk : m.cursor = k
    · rw [← hk, bar_settleNext_self base umd hat.lt, Bar2.settle_adjustEob]
    · rw [bar_settleNext_ne base umd hk]
  done i hi hlt := by
    rw [settleNext_size] at hi
    rw [settleNext_barIdx] at hlt
    rw [settleNext_settles, List.count_append]
    have hidx := hat.barIdx_eq
    by_cases hik : m.cursor = i
    · subst hik
      have hcur := h.ahead m.cursor hi (by omega)
      rw [bar_settleNext_self base umd hi, hcur.1]
      exact ⟨by simp, hcur.2.settled base umd⟩
    · rw [bar_settleNext_ne base umd hik, List.count_singleton, if_neg (by simpa using hik)]
      exact h.done i hi (by omega)
  ahead i hi hle := by
    rw [settleNext_size] at hi
    rw [settleNext_barIdx] at hle
    have hidx := hat.barIdx_eq
    have hik : m.cursor ≠ i := by omega
    rw [settleNext_settles, List.count_append, bar_settleNext_ne base umd hik,
      List.count_singleton, if_neg (by simpa using hik)]
    exact h.ahead i hi (by omega)

theorem Progress.pass {m0 m : BarMaker} (h : Progress m0 m) (hat : m.AtBar)
    (umd : UnitedMarketData) : Progress m0 (m.pass base umd) := by
  have hnext := h.settleNext base hat umd
  have hidx := hat.barIdx_eq
  unfold BarMaker.pass
  dsimp only
  split
  · exact hnext.modifyBar (by rw [hat.settleNext_cursor, settleNext_barIdx]; omega)
      (fun b => b.sameTimes_updatePre base _)
  · exact hnext

theorem Progress.inCurBar {m0 m : BarMaker} (h : Progress m0 m) (hat : m.AtBar)
    (umd : UnitedMarketData) : Progress m0 (m.inCurBar base umd) := by
  have hidx := hat.barIdx_eq
  unfold BarMaker.inCurBar
  have hupd : Progress m0 (m.modifyBar m.cursor (updateCur base · umd)) :=
    h.modifyBar (by omega) (fun b => sameTimes_updateCur base b umd)
  have hat' : (m.modifyBar m.cursor (updateCur base · umd)).AtBar :=
    ⟨hat.nonneg, by rw [modifyBar_size]; exact hat.lt⟩
  generalize m.modifyBar m.cursor (updateCur base · umd) = m1 at hupd hat'
  have hnext := hupd.settleNext base hat' umd
  have hidx' := hat'.barIdx_eq
  dsimp only
  split
  · split
    · exact hnext.modifyBar (by rw [hat'.settleNext_cursor, settleNext_barIdx]; omega)
        (fun b => b.sameTimes_updatePre base _)
    · exact hnext
  · exact hupd

theorem Progress.inPreBar {m0 m : BarMaker} (h : Progress m0 m) (hat : m.AtBar)
    (umd : UnitedMarketData) : Progress m0 (m.inPreBar base umd) :=
  h.modifyBar (by have := hat.barIdx_eq; omega) (fun b => b.sameTimes_updatePre base umd)

theorem Progress.lastUmd {m0 m : BarMaker} (h : Progress m0 m) (umd : UnitedMarketData) :
    Progress m0 { m with lastUmd := umd } :=
  ⟨h.size, h.hash, h.lower, h.upper, h.adjustEob, h.done, h.ahead⟩

/-- A tick that does not overrun. While the loop runs, every bar it has left
behind ends at the tick or before. -/
theorem Progress.onTick {m0 m : BarMaker} (h : Progress m0 m) {umd : UnitedMarketData}
    (hno : ¬m.Overruns base umd) : Progress m0 (m.onTick base umd) := by
  by_cases hhash : umd.instrHash = m.instrHash
  swap
  · unfold BarMaker.onTick
    rw [if_pos hhash]
    exact h
  have hsize : m.start.size = m.size := h.start.size.trans h.size.symm
  refine onTick_ind base
    (P := fun m' => Progress m0 m' ∧ m.start.cursor ≤ m'.cursor ∧
      ∀ k, m.start.cursor ≤ k → k < m'.cursor → (m.bar k).adjustEob ≤ umd.sec base)
    (Q := Progress m0) (R := Progress m0) ?_ ?_ ?_ ?_ h.lower ?_ ?_ ?_ ?_
  · rintro m' ⟨hp, hle, hleft⟩ hat _ hpos
    have hidx := pass_barIdx base m' umd
    have hnonneg := hat.nonneg
    refine ⟨hp.pass base hat umd, by simp only [cursor] at hle ⊢; omega, fun k hk hlt => ?_⟩
    by_cases hcur : k = m'.cursor
    · rw [hcur, h.adjustEob, ← hp.adjustEob]
      exact Bar2.isInCurBar_eq_next.mp hpos
    · exact hleft k hk (by simp only [cursor] at hcur hlt ⊢; omega)
  · rintro m' ⟨hp, hle, hleft⟩ hat hlast hpos
    have hp_size := hp.size
    have h_size := h.size
    refine absurd ⟨hhash, by omega, fun k hk hlt => ?_⟩ hno
    by_cases hcur : k = m'.cursor
    · rw [hcur, h.adjustEob, ← hp.adjustEob]
      exact Bar2.isInCurBar_eq_next.mp hpos
    · exact hleft k hk (by omega)
  · exact fun m' hp hat _ => hp.1.inCurBar base hat umd
  · exact fun m' hp hat _ => hp.1.inPreBar base hat umd
  · exact fun hne => absurd hhash hne
  · exact fun _ => h.start
  · exact fun _ => ⟨h.start, le_refl _, fun k hk hlt => by omega⟩
  · exact fun m' hp => hp.lastUmd umd

/-- Ticks of which none overruns. The induction takes the last tick off. -/
theorem Progress.ticks {m : BarMaker} (h : Progress m m) (umds : List UnitedMarketData)
    (hno : AtEach (fun pre umd => ¬(m.ticks base pre).Overruns base umd) umds) :
    Progress m (m.ticks base umds) := by
  induction umds using List.reverseRecOn with
  | nil => exact h
  | append_singleton umds umd ih =>
    rw [atEach_concat] at hno
    rw [BarMaker.ticks, List.foldl_append]
    exact (ih hno.1).onTick base hno.2

theorem Progress.onFinish {m0 m : BarMaker} (h : Progress m0 m) :
    Progress m0 (m.onFinish base) ∧ (m.onFinish base).barIdx = m.size :=
  onFinish_ind base (fun _ hp hat => hp.settleNext base hat _) h.lower h.upper h.start

/-! ## After an overrun -/

/-- The last of `n` bars has been settled once too often for where `bar_idx`
stands. -/
structure Overdue (n : Nat) (m : BarMaker) : Prop where
  size : m.size = n
  nonneg : 0 ≤ m.barIdx
  due : m.cursor + 1 = n ∧ 1 ≤ m.settles.count (n - 1) ∨
    0 < n ∧ m.cursor = n ∧ 2 ≤ m.settles.count (n - 1)

theorem Overdue.start {n : Nat} {m : BarMaker} (h : Overdue n m) : m.start = m := by
  have := h.nonneg
  unfold BarMaker.start
  rw [if_neg (by omega)]

theorem Overdue.modifyBar {n : Nat} {m : BarMaker} (h : Overdue n m) (i : Nat) (f : Bar2 → Bar2) :
    Overdue n (m.modifyBar i f) := ⟨(modifyBar_size m i f).trans h.size, h.nonneg, h.due⟩

theorem Overdue.settleAt {n : Nat} {m : BarMaker} (h : Overdue n m) (i : Nat)
    (umd : UnitedMarketData) : Overdue n (m.settleAt base i umd) where
  size := (settleAt_size base m i umd).trans h.size
  nonneg := h.nonneg
  due := by
    have hdue := h.due
    rw [settleAt_settles, List.count_append]
    simp only [cursor, settleAt_barIdx] at hdue ⊢
    omega

theorem Overdue.settleNext {n : Nat} {m : BarMaker} (h : Overdue n m) (hat : m.AtBar)
    (umd : UnitedMarketData) : Overdue n (m.settleNext base umd) where
  size := (settleNext_size base m umd).trans h.size
  nonneg := by
    have := h.nonneg
    rw [settleNext_barIdx]; omega
  due := by
    have hlt := hat.lt
    have hsize := h.size
    rw [settleNext_settles, List.count_append, hat.settleNext_cursor]
    rcases h.due with ⟨hlast, hcount⟩ | hdone
    · have hself : [m.cursor].count (n - 1) = 1 := by
        rw [← hlast]
        simp
      omega
    · omega

theorem Overdue.onTick {n : Nat} {m : BarMaker} (h : Overdue n m) (umd : UnitedMarketData) :
    Overdue n (m.onTick base umd) := by
  have hlower := h.nonneg
  refine onTick_ind base (P := Overdue n) (Q := Overdue n) ?_ ?_ ?_ ?_ (by omega) ?_ ?_ ?_ ?_
  · intro m' hp hat hlt _
    have hdue := hp.due
    have hsize := hp.size
    omega
  · exact fun m' hp _ _ _ => hp.settleAt base _ umd
  · intro m' hp hat _
    unfold BarMaker.inCurBar
    have hupd := hp.modifyBar m'.cursor (updateCur base · umd)
    have hat' : (m'.modifyBar m'.cursor (updateCur base · umd)).AtBar :=
      ⟨hat.nonneg, by rw [modifyBar_size]; exact hat.lt⟩
    dsimp only
    split
    · split
      · exact (hupd.settleNext base hat' umd).modifyBar _ _
      · exact hupd.settleNext base hat' umd
    · exact hupd
  · exact fun m' hp _ _ => hp.modifyBar _ _
  · exact fun _ => h
  · rw [h.start]
    exact fun _ => h
  · rw [h.start]
    exact fun _ => h
  · exact fun _ hp => ⟨hp.size, hp.nonneg, hp.due⟩

theorem Overdue.onFinish {n : Nat} {m : BarMaker} (h : Overdue n m) :
    Overdue n (m.onFinish base) ∧ (m.onFinish base).barIdx = m.size := by
  have hlower := h.nonneg
  have hsize := h.size
  have hdue := h.due
  refine onFinish_ind base (fun _ hp hat => hp.settleNext base hat _) (by omega) ?_ (h.start.symm ▸ h)
  simp only [cursor] at hdue
  omega

/-- The loop of a tick that overruns ends at the last bar, which it settles. -/
theorem overdue_of_overruns {m0 m : BarMaker} (h : Progress m0 m) {umd : UnitedMarketData}
    (hover : m.Overruns base umd) : Overdue m0.size (m.onTick base umd) := by
  obtain ⟨hhash, hlt, hall⟩ := hover
  have hsize : m.start.size = m.size := h.start.size.trans h.size.symm
  refine onTick_ind base
    (P := fun m' => Progress m0 m' ∧ m.start.cursor ≤ m'.cursor) (Q := Overdue m0.size)
    (R := Overdue m0.size) ?_ ?_ ?_ ?_ h.lower ?_ ?_ ?_ ?_
  · rintro m' ⟨hp, hle⟩ hat _ _
    have hidx := pass_barIdx base m' umd
    have hnonneg := hat.nonneg
    exact ⟨hp.pass base hat umd, by simp only [cursor] at hle ⊢; omega⟩
  · rintro m' ⟨hp, hle⟩ hat hlast _
    have hp_size := hp.size
    refine ⟨(settleAt_size base m' _ umd).trans hp_size, hat.nonneg,
      Or.inl ⟨show m'.cursor + 1 = m0.size by omega, ?_⟩⟩
    rw [settleAt_settles, List.count_append, ← hp_size, ← hlast]
    simp
  · rintro m' ⟨hp, hle⟩ hat hpos
    have hend := hall m'.cursor hle (by have := hat.lt; have := hp.size; have := h.size; omega)
    rw [h.adjustEob, ← hp.adjustEob] at hend
    have := Bar2.isInCurBar_eq_cur.mp hpos
    omega
  · rintro m' ⟨hp, hle⟩ hat hpos
    have hend := hall m'.cursor hle (by have := hat.lt; have := hp.size; have := h.size; omega)
    rw [h.adjustEob, ← hp.adjustEob] at hend
    have := Bar2.isInCurBar_eq_pre.mp hpos
    omega
  · exact fun hne => absurd hhash hne
  · intro hge
    simp only [cursor] at hlt
    omega
  · exact fun _ => ⟨h.start, le_refl _⟩
  · exact fun _ hp => ⟨hp.size, hp.nonneg, hp.due⟩

/-- Once a tick has overrun, the last bar stays overdue. -/
theorem overdue_ticks {m : BarMaker} (h : Progress m m) (umds : List UnitedMarketData)
    (hover : ¬AtEach (fun pre umd => ¬(m.ticks base pre).Overruns base umd) umds) :
    Overdue m.size (m.ticks base umds) := by
  induction umds using List.reverseRecOn with
  | nil => exact absurd (atEach_nil _) hover
  | append_singleton umds umd ih =>
    rw [atEach_concat, not_and_or, not_not] at hover
    rw [BarMaker.ticks, List.foldl_append]
    by_cases hno : AtEach (fun pre umd => ¬(m.ticks base pre).Overruns base umd) umds
    · exact overdue_of_overruns base (h.ticks base umds hno) (hover.resolve_left (not_not_intro hno))
    · exact (ih hno).onTick base umd

/-! ## The whole day -/

/-- Bar `i` at the end of a day that began with `m0`: settled once, its times
rescaled once, and its differences taken between its own final and reference
values. -/
structure SettledOnce (m0 m : BarMaker) (i : Nat) : Prop where
  once : m.settles.count i = 1
  settled : Bar2.Settled (m0.bar i) (m.bar i)

theorem settled_once_iff (base : Int) (info : InstrumentInfo) (cycleSec : Int) (vecBar : List Bar2)
    (umds : List UnitedMarketData) :
    (∀ i < vecBar.length, SettledOnce (ofBars info cycleSec vecBar)
      ((ofBars info cycleSec vecBar).day base umds) i) ↔
    AtEach (fun pre umd => ¬((ofBars info cycleSec vecBar).ticks base pre).Overruns base umd) umds := by
  have h0 := progress_ofBars info cycleSec vecBar
  have hsize : (ofBars info cycleSec vecBar).size = vecBar.length := rfl
  generalize ofBars info cycleSec vecBar = m at h0 hsize ⊢
  unfold day
  constructor
  · intro honce
    by_contra hover
    obtain ⟨hdue, hidx⟩ := (overdue_ticks base h0 umds hover).onFinish base
    have hlast : 0 < vecBar.length ∧
        2 ≤ ((m.ticks base umds).onFinish base).settles.count (vecBar.length - 1) := by
      have hdue' := hdue.due
      have hsize' := hdue.size
      have hticks := (overdue_ticks base h0 umds hover).size
      rw [hsize] at hdue'
      simp only [cursor] at hdue'
      omega
    have honce' := (honce _ (Nat.sub_one_lt_of_lt hlast.1)).once
    omega
  · intro hno i hi
    have hp := h0.ticks base umds hno
    have hp_size := hp.size
    obtain ⟨hfin, hidx⟩ := hp.onFinish base
    have hdone := hfin.done i (by rw [hfin.size]; omega) (by omega)
    exact ⟨hdone.1, hdone.2⟩

/-- A tick one second after the close, with none at 15:00:00 to settle the last
bar: that bar is settled by the tick and again by `OnFinish`. -/
theorem late_tick_settles_twice :
    ¬∀ i < (new intraDayBaseSec (contract "IF1803" "IF") .cffex 7200).size,
      SettledOnce (new intraDayBaseSec (contract "IF1803" "IF") .cffex 7200)
        ((new intraDayBaseSec (contract "IF1803" "IF") .cffex 7200).day intraDayBaseSec
          [tickAt 14 0 0 4000 10, tickAt 15 0 1 4002 12]) i := by
  intro h
  have honce := (h 2 (by decide +kernel)).once
  revert honce
  decide +kernel

end BarMaker

end NatFramework.Bar
