import Mathlib.Data.List.Chain
import Mathlib.Data.List.Induction
import Mathlib.Data.List.Nodup
import Mathlib.Data.String.Basic
import NatFramework.Lib.Run

/-!
# The roll of the trading day

`pre_on_switch_day` and `release` of the two strategy runtimes, `CStrategy` with
one strategy and `CStrategyProcess` with a list of them. Both keep the current
day and the day to save under; a call is what a strategy sees of the runtime:
its account saved or rolled, or its callback.

* `rollsOnce_stg_iff`: `CStrategy` rolls the account once for a new day exactly
  when no day is repeated.
* `rollsOnce_proc`, `callsBack_proc_iff`: `CStrategyProcess` always does, and
  calls back with every day but the first.
* `sameAccount_iff`: the two agree exactly when no day is repeated.
-/
namespace NatFramework.Strategy

open Lib

/-- `trading_day_` and `acc_save_day_`, empty before the first day.
mirrors strategy/CStrategy.h:178-179, strategy/CStrategyProcess.h:145-146 -/
structure DayVars where
  tradingDay : String := ""
  accSaveDay : String := ""
  deriving DecidableEq, Repr

/-- The calls a strategy sees when the day rolls. -/
inductive StgCall where
  /-- `RiskStg::save(day, force)` -/
  | save (day : String) (force : Bool)
  /-- `RiskStg::onSwitchDay()` -/
  | onSwitchDay
  /-- the strategy's `on_switch_day(day)` -/
  | callback (day : String)
  deriving DecidableEq, Repr

def StgCall.isAccount : StgCall → Bool
  | .callback _ => false
  | .save .. | .onSwitchDay => true

/-- A trading day is not the empty string. -/
abbrev Day := { day : String // day ≠ "" }

/-! ## The two runtimes -/

namespace CStrategy

/-- `init` has set `p_risk_stg_`.
mirrors strategy/CStrategy.cpp:415-437 -/
def preOnSwitchDay (s : DayVars) (day : String) : DayVars × List StgCall :=
  let accSaveDay := if s.accSaveDay = "" then day else s.accSaveDay
  let saved := if accSaveDay < day then [.save accSaveDay false] else []
  let rolled := if s.tradingDay ≠ "" then [.onSwitchDay] else []
  ({ tradingDay := day, accSaveDay := if accSaveDay < day then day else accSaveDay },
    saved ++ rolled ++ [.callback day])

/-- mirrors strategy/CStrategy.cpp:396-410 -/
def release (s : DayVars) : List StgCall :=
  if s.tradingDay ≠ "" ∧ s.accSaveDay ≤ s.tradingDay then [.save s.accSaveDay true] else []

end CStrategy

namespace CStrategyProcess

/-- One entry for each strategy of `strategy_list_`, in its order. -/
def forEach (n : Nat) (calls : List StgCall) : List (Nat × StgCall) :=
  (List.range n).flatMap fun i => calls.map fun c => (i, c)

/-- `n` strategies in `strategy_list_`.
mirrors strategy/CStrategyProcess.cpp:386-407 -/
def preOnSwitchDay (n : Nat) (s : DayVars) (day : String) : DayVars × List (Nat × StgCall) :=
  let accSaveDay := if s.accSaveDay = "" then day else s.accSaveDay
  let rolled := if s.tradingDay ≠ "" then [.onSwitchDay] else []
  ({ tradingDay := day, accSaveDay := if accSaveDay < day then day else accSaveDay },
    if accSaveDay < day then forEach n (.save accSaveDay false :: rolled ++ [.callback day]) else [])

/-- mirrors strategy/CStrategyProcess.cpp:359-381 -/
def release (n : Nat) (s : DayVars) : List (Nat × StgCall) :=
  if s.tradingDay ≠ "" ∧ s.accSaveDay ≤ s.tradingDay then forEach n [.save s.accSaveDay true] else []

/-- What strategy `i` sees. -/
def callsOf (i : Nat) (calls : List (Nat × StgCall)) : List StgCall :=
  calls.filterMap fun c => if c.1 = i then some c.2 else none

theorem callsOf_map_same (i : Nat) (calls : List StgCall) :
    callsOf i (calls.map fun c => (i, c)) = calls := by
  simp [callsOf, List.filterMap_map]

theorem callsOf_map_of_ne {i j : Nat} (h : j ≠ i) (calls : List StgCall) :
    callsOf i (calls.map fun c => (j, c)) = [] := by
  simp [callsOf, h]

/-- Each strategy sees the calls of the loop once. -/
theorem callsOf_forEach (i n : Nat) (calls : List StgCall) :
    callsOf i (forEach n calls) = if i < n then calls else [] := by
  induction n with
  | zero => rfl
  | succ n ih =>
    have happ : callsOf i (forEach (n + 1) calls) =
        callsOf i (forEach n calls) ++ callsOf i (calls.map fun c => (n, c)) := by
      simp [forEach, callsOf, List.range_succ, List.filterMap_append]
    rw [happ, ih]
    by_cases hlt : i < n
    · rw [callsOf_map_of_ne (by omega), if_pos hlt, if_pos (by omega), List.append_nil]
    · by_cases heq : n = i
      · subst heq
        rw [callsOf_map_same, if_neg hlt, if_pos (by omega), List.nil_append]
      · rw [callsOf_map_of_ne heq, if_neg hlt, if_neg (by omega), List.append_nil]

end CStrategyProcess

/-- A runtime as one of its strategies sees it. -/
structure StgRuntime where
  preOnSwitchDay : DayVars → String → DayVars × List StgCall
  release : DayVars → List StgCall

def stg : StgRuntime := ⟨CStrategy.preOnSwitchDay, CStrategy.release⟩

/-- Strategy `i` of a process with `n` strategies. -/
def proc (n i : Nat) : StgRuntime where
  preOnSwitchDay s day :=
    let r := CStrategyProcess.preOnSwitchDay n s day
    (r.1, CStrategyProcess.callsOf i r.2)
  release s := CStrategyProcess.callsOf i (CStrategyProcess.release n s)

namespace StgRuntime

/-- A sequence of days: the variables, and all calls so far. -/
def run (r : StgRuntime) (days : List Day) : DayVars × List StgCall :=
  days.foldl (fun x (day : Day) =>
    ((r.preOnSwitchDay x.1 day).1, x.2 ++ (r.preOnSwitchDay x.1 day).2)) ({}, [])

/-- The two variables after a sequence of days. -/
def vars (r : StgRuntime) (days : List Day) : DayVars := (r.run days).1

/-- All calls of a sequence of days. -/
def trace (r : StgRuntime) (days : List Day) : List StgCall := (r.run days).2

/-- The calls of `pre_on_switch_day(day)` after the days before it. -/
def calls (r : StgRuntime) (days : List Day) (day : Day) : List StgCall :=
  (r.preOnSwitchDay (r.vars days) day).2

/-- The day after `prev` owes a save under it and a roll, in this order. -/
def owed (prev : Option Day) (day : Day) : List StgCall :=
  match prev with
  | some d => if d < day then [.save d false, .onSwitchDay] else []
  | none => []

/-- Each call does to the account what its day owes. -/
def RollsOnce (r : StgRuntime) (days : List Day) : Prop :=
  AtEach (fun pre day => (r.calls pre day).filter StgCall.isAccount = owed pre.getLast? day) days

/-- The strategy is called back with day `d`. -/
def CallsBack (r : StgRuntime) (days : List Day) (d : Day) : Prop :=
  AtSome (fun pre day => day = d ∧ .callback d.1 ∈ r.calls pre day) days

/-- The days an account is saved under. -/
def saves (calls : List StgCall) : List String :=
  calls.filterMap fun
    | .save day _ => some day
    | .onSwitchDay | .callback _ => none

/-- Each day is saved once, the last one when the runtime is released. -/
def SavesOnce (r : StgRuntime) (days : List Day) : Prop :=
  ∀ d ∈ days, (saves (r.trace days ++ r.release (r.vars days))).count d.1 = 1

/-- Two runtimes do the same to the account. -/
def SameAccount (r r' : StgRuntime) (days : List Day) : Prop :=
  (r.trace days).filter StgCall.isAccount = (r'.trace days).filter StgCall.isAccount

end StgRuntime

/-- The day is rolled once, in both runtimes and for each strategy. -/
structure RolledOnce (n : Nat) (days : List Day) : Prop where
  rolls : stg.RollsOnce days ∧ ∀ i < n, (proc n i).RollsOnce days
  saves : stg.SavesOnce days ∧ ∀ i < n, (proc n i).SavesOnce days
  callsBack : ∀ d ∈ days, stg.CallsBack days d ∧ ∀ i < n, (proc n i).CallsBack days d
  same : ∀ i < n, stg.SameAccount (proc n i) days

/-! ## One call -/

namespace StgRuntime

variable {r : StgRuntime} {days : List Day} {day : Day}

theorem run_concat : r.run (days ++ [day]) =
    ((r.preOnSwitchDay (r.vars days) day).1, r.trace days ++ r.calls days day) := by
  rw [run, List.foldl_append]
  rfl

theorem vars_concat : r.vars (days ++ [day]) = (r.preOnSwitchDay (r.vars days) day).1 := by
  rw [vars, run_concat]

theorem trace_concat : r.trace (days ++ [day]) = r.trace days ++ r.calls days day := by
  rw [trace, run_concat]

/-- The last day, empty before the first. -/
def lastDay (days : List Day) : String := (days.getLast?.map Subtype.val).getD ""

/-- Both runtimes move their variables alike: to the new day. -/
structure Keeps (r : StgRuntime) : Prop where
  vars : ∀ s day, (r.preOnSwitchDay s day).1 = (CStrategy.preOnSwitchDay s day).1
  release : ∀ s, r.release s = CStrategy.release s

theorem keeps_stg : Keeps stg := ⟨fun _ _ => rfl, fun _ => rfl⟩

theorem keeps_proc {n i : Nat} (h : i < n) : Keeps (proc n i) := by
  refine ⟨fun _ _ => rfl, fun s => ?_⟩
  simp only [proc, CStrategyProcess.release, CStrategy.release]
  split
  · rw [CStrategyProcess.callsOf_forEach, if_pos h]
  · rfl

theorem getLast?_le (h : (days ++ [day]).IsChain (· ≤ ·)) {d : Day} (hd : days.getLast? = some d) :
    d ≤ day := by
  rw [List.isChain_append] at h
  exact h.2.2 d hd day rfl

/-- After days that never go back, both variables are the last day. -/
theorem Keeps.vars_eq (hr : Keeps r) (h : days.IsChain (· ≤ ·)) :
    r.vars days = ⟨lastDay days, lastDay days⟩ := by
  induction days using List.reverseRecOn with
  | nil => rfl
  | append_singleton days day ih =>
    rw [vars_concat, hr.vars, ih (List.isChain_append.mp h).1]
    have hlast : lastDay (days ++ [day]) = day := by simp [lastDay]
    rw [hlast]
    simp only [CStrategy.preOnSwitchDay, DayVars.mk.injEq, true_and]
    cases hd : days.getLast? with
    | none => simp [lastDay, hd]
    | some d =>
      have hle : d.1 ≤ day.1 := getLast?_le h hd
      simp only [lastDay, hd, Option.map_some, Option.getD_some, d.2, if_false]
      split
      · rfl
      · rename_i hlt
        exact le_antisymm hle (not_lt.mp hlt)

/-- `CStrategy` rolls on every call but the first. -/
theorem calls_stg (h : (days ++ [day]).IsChain (· ≤ ·)) :
    stg.calls days day = match days.getLast? with
      | none => [.callback day]
      | some d => (if d < day then [.save d false] else []) ++ [.onSwitchDay, .callback day] := by
  unfold calls
  rw [keeps_stg.vars_eq (List.isChain_append.mp h).1]
  simp only [stg, CStrategy.preOnSwitchDay, lastDay]
  cases hd : days.getLast? with
  | none => simp
  | some d => simp [d.2, ← Subtype.coe_lt_coe]

/-- `CStrategyProcess` does nothing unless the day is new, nor on the first. -/
theorem calls_proc {n i : Nat} (hi : i < n) (h : (days ++ [day]).IsChain (· ≤ ·)) :
    (proc n i).calls days day = match days.getLast? with
      | none => []
      | some d => if d < day then [.save d false, .onSwitchDay, .callback day] else [] := by
  unfold calls
  rw [(keeps_proc hi).vars_eq (List.isChain_append.mp h).1]
  simp only [proc, CStrategyProcess.preOnSwitchDay, lastDay]
  cases hd : days.getLast? with
  | none => simp [CStrategyProcess.callsOf]
  | some d =>
    simp only [Option.map_some, Option.getD_some, d.2, if_false, ne_eq, not_false_eq_true, if_true,
      List.cons_append, List.nil_append, ← Subtype.coe_lt_coe]
    split
    · rw [CStrategyProcess.callsOf_forEach, if_pos hi]
    · rfl

/-! ## Sequences of days -/

theorem isChain_lt_concat :
    (days ++ [day]).IsChain (· < ·) ↔ days.IsChain (· < ·) ∧ ∀ d, days.getLast? = some d → d < day := by
  rw [List.isChain_append]
  simp

/-- `CStrategy` rolls the account a second time exactly when a day is repeated. -/
theorem rollsOnce_stg_iff (h : days.IsChain (· ≤ ·)) : stg.RollsOnce days ↔ days.IsChain (· < ·) := by
  induction days using List.reverseRecOn with
  | nil => exact ⟨fun _ => List.isChain_nil, fun _ => atEach_nil _⟩
  | append_singleton days day ih =>
    unfold RollsOnce at ih ⊢
    rw [atEach_concat, ih (List.isChain_append.mp h).1, isChain_lt_concat]
    refine and_congr_right fun _ => ?_
    rw [calls_stg h]
    cases hd : days.getLast? with
    | none => simp [owed, StgCall.isAccount]
    | some d =>
      by_cases hlt : d < day
      · simp only [owed, hlt, if_true, Option.some.injEq, forall_eq', iff_true]
        rfl
      · simp [owed, hlt, StgCall.isAccount]

theorem rollsOnce_proc {n i : Nat} (hi : i < n) (h : days.IsChain (· ≤ ·)) :
    (proc n i).RollsOnce days := by
  induction days using List.reverseRecOn with
  | nil => exact atEach_nil _
  | append_singleton days day ih =>
    unfold RollsOnce at ih ⊢
    rw [atEach_concat]
    refine ⟨ih (List.isChain_append.mp h).1, ?_⟩
    rw [calls_proc hi h]
    cases hd : days.getLast? with
    | none => simp [owed]
    | some d =>
      by_cases hlt : d < day
      · simp only [owed, hlt, if_true]
        rfl
      · simp [owed, hlt]

theorem callsBack_stg (h : days.IsChain (· ≤ ·)) {d : Day} (hd : d ∈ days) : stg.CallsBack days d := by
  induction days using List.reverseRecOn with
  | nil => cases hd
  | append_singleton days day ih =>
    unfold CallsBack at ih ⊢
    rw [atSome_concat]
    rcases List.mem_append.mp hd with hd | hd
    · exact Or.inl (ih (List.isChain_append.mp h).1 hd)
    · obtain rfl := List.mem_singleton.mp hd
      refine Or.inr ⟨rfl, ?_⟩
      rw [calls_stg h]
      cases days.getLast? <;> simp

theorem le_getLast? (h : days.IsChain (· ≤ ·)) {d l : Day} (hd : d ∈ days)
    (hl : days.getLast? = some l) : d ≤ l := by
  obtain ⟨pre, rfl⟩ := List.getLast?_eq_some_iff.mp hl
  rw [List.isChain_iff_pairwise, List.pairwise_append] at h
  rcases List.mem_append.mp hd with hd | hd
  · exact h.2.2 d hd l (List.mem_singleton_self l)
  · exact (List.mem_singleton.mp hd).le

/-- A process calls back with every day but the first. -/
theorem callsBack_proc_iff {n i : Nat} (hi : i < n) (h : days.IsChain (· ≤ ·)) {d : Day}
    (hd : d ∈ days) : (proc n i).CallsBack days d ↔ days.head? ≠ some d := by
  induction days using List.reverseRecOn with
  | nil => cases hd
  | append_singleton days day ih =>
    have hsub := (List.isChain_append.mp h).1
    unfold CallsBack at ih ⊢
    rw [atSome_concat, calls_proc hi h]
    cases hl : days.getLast? with
    | none =>
      obtain rfl := List.getLast?_eq_none_iff.mp hl
      obtain rfl := List.mem_singleton.mp hd
      simp [atSome_nil]
    | some l =>
      have hmem : l ∈ days := List.mem_of_getLast? hl
      have hle : l ≤ day := getLast?_le h hl
      have hhead : (days ++ [day]).head? = days.head? :=
        List.head?_append_of_ne_nil _ (List.ne_nil_of_mem hmem)
      rw [hhead]
      by_cases hlt : l < day
      · -- a new day, which is none of those before it
        have hnew : day ∉ days := fun hday => absurd (le_getLast? hsub hday hl) (not_le.mpr hlt)
        by_cases heq : day = d
        · subst heq
          simp only [hlt, if_true, List.mem_cons, reduceCtorEq, List.not_mem_nil, or_false, and_self,
            or_true, true_iff, ne_eq]
          exact fun hd' => hnew (List.mem_of_head? hd')
        · have hd' : d ∈ days := by
            rcases List.mem_append.mp hd with hd | hd
            · exact hd
            · exact absurd (List.mem_singleton.mp hd).symm heq
          rw [ih hsub hd']
          simp [heq]
      · have heq : day = l := le_antisymm (not_lt.mp hlt) hle
        have hd' : d ∈ days := by
          rcases List.mem_append.mp hd with hd | hd
          · exact hd
          · rw [List.mem_singleton.mp hd, heq]
            exact hmem
        rw [ih hsub hd']
        simp [hlt]

/-! ## Saves -/

theorem saves_append (xs ys : List StgCall) : saves (xs ++ ys) = saves xs ++ saves ys :=
  List.filterMap_append

/-- A call saves under the day that its day ends. -/
def Saves (r : StgRuntime) : Prop :=
  ∀ {days : List Day} {day : Day}, (days ++ [day]).IsChain (· ≤ ·) →
    saves (r.calls days day) = match days.getLast? with
      | none => []
      | some d => if d < day then [d.1] else []

theorem saves_stg : Saves stg := by
  intro days day h
  rw [calls_stg h]
  cases days.getLast? with
  | none => rfl
  | some d => by_cases hlt : d < day <;> simp [hlt, saves]

theorem saves_proc {n i : Nat} (hi : i < n) : Saves (proc n i) := by
  intro days day h
  rw [calls_proc hi h]
  cases days.getLast? with
  | none => rfl
  | some d => by_cases hlt : d < day <;> simp [hlt, saves]

/-- The days saved and the current one are the days there were, each once. -/
theorem saves_trace (hr : Saves r) (h : days.IsChain (· ≤ ·)) {l : Day}
    (hl : days.getLast? = some l) :
    (saves (r.trace days) ++ [l.1]).Pairwise (· < ·) ∧
      ∀ d : Day, d.1 ∈ saves (r.trace days) ++ [l.1] ↔ d ∈ days := by
  induction days using List.reverseRecOn generalizing l with
  | nil => cases hl
  | append_singleton days day ih =>
    obtain rfl : day = l := by simpa using hl
    have hsub := (List.isChain_append.mp h).1
    rw [trace_concat, saves_append, hr h]
    cases hp : days.getLast? with
    | none =>
      obtain rfl := List.getLast?_eq_none_iff.mp hp
      simp [trace, run, saves, Subtype.ext_iff]
    | some p =>
      obtain ⟨hpair, hmem⟩ := ih hsub hp
      have hle : p ≤ day := getLast?_le h hp
      by_cases hlt : p < day
      · simp only [hlt, if_true]
        refine ⟨?_, fun d => ?_⟩
        · rw [List.pairwise_append]
          refine ⟨hpair, List.pairwise_singleton _ _, fun x hx y hy => ?_⟩
          obtain rfl := List.mem_singleton.mp hy
          have hxp : x ≤ p.1 := by
            rcases List.mem_append.mp hx with hx' | hx'
            · exact ((List.pairwise_append.mp hpair).2.2 x hx' p.1 (List.mem_singleton_self _)).le
            · exact (List.mem_singleton.mp hx').le
          exact hxp.trans_lt hlt
        · rw [List.mem_append, hmem]
          simp [Subtype.ext_iff]
      · have heq : day = p := le_antisymm (not_lt.mp hlt) hle
        subst heq
        simp only [lt_irrefl, if_false, List.append_nil]
        refine ⟨hpair, fun d => ?_⟩
        rw [hmem]
        have hday : day ∈ days := List.mem_of_getLast? hp
        simp only [List.mem_append, List.mem_singleton]
        exact ⟨Or.inl, fun hd => hd.elim id fun hd => hd ▸ hday⟩

/-- Whatever the days, each is saved once by the end. -/
theorem savesOnce (hk : Keeps r) (hr : Saves r) (h : days.IsChain (· ≤ ·)) : r.SavesOnce days := by
  intro d hd
  obtain ⟨l, hl⟩ : ∃ l, days.getLast? = some l :=
    ⟨_, List.getLast?_eq_some_getLast (List.ne_nil_of_mem hd)⟩
  obtain ⟨hpair, hmem⟩ := saves_trace hr h hl
  have hrel : saves (r.release (r.vars days)) = [l.1] := by
    rw [hk.vars_eq h, hk.release]
    simp [CStrategy.release, lastDay, hl, l.2, saves]
  rw [saves_append, hrel]
  have hnodup : (saves (r.trace days) ++ [l.1]).Nodup := hpair.imp ne_of_lt
  exact List.count_eq_one_of_mem hnodup ((hmem d).mpr hd)

/-! ## The same in both -/

/-- The rolls of a trace. -/
def rolls (calls : List StgCall) : Nat := (calls.filter StgCall.isAccount).count .onSwitchDay

theorem rolls_append (xs ys : List StgCall) : rolls (xs ++ ys) = rolls xs + rolls ys := by
  unfold rolls
  rw [List.filter_append, List.count_append]

theorem rolls_stg (h : days.IsChain (· ≤ ·)) : rolls (stg.trace days) = days.length - 1 := by
  induction days using List.reverseRecOn with
  | nil => rfl
  | append_singleton days day ih =>
    rw [trace_concat, rolls_append, ih (List.isChain_append.mp h).1, calls_stg h,
      List.length_append, List.length_singleton]
    cases hl : days.getLast? with
    | none =>
      obtain rfl := List.getLast?_eq_none_iff.mp hl
      rfl
    | some d =>
      have hpos : 0 < days.length := List.length_pos_of_mem (List.mem_of_getLast? hl)
      have hone : rolls ((if d < day then [.save d.1 false] else []) ++
          [.onSwitchDay, .callback day.1]) = 1 := by
        split <;> rfl
      simp only
      rw [hone]
      omega

/-- A process rolls less often where a day is repeated. -/
theorem rolls_proc {n i : Nat} (hi : i < n) (h : days.IsChain (· ≤ ·)) :
    rolls ((proc n i).trace days) ≤ days.length - 1 ∧
      (rolls ((proc n i).trace days) = days.length - 1 → days.IsChain (· < ·)) := by
  induction days using List.reverseRecOn with
  | nil => exact ⟨Nat.le_refl _, fun _ => List.isChain_nil⟩
  | append_singleton days day ih =>
    obtain ⟨hle, hchain⟩ := ih (List.isChain_append.mp h).1
    rw [trace_concat, rolls_append, calls_proc hi h, List.length_append, List.length_singleton,
      isChain_lt_concat]
    cases hl : days.getLast? with
    | none =>
      obtain rfl := List.getLast?_eq_none_iff.mp hl
      exact ⟨Nat.le_refl _, fun _ => ⟨List.isChain_nil, fun _ hd => by cases hd⟩⟩
    | some d =>
      have hpos : 0 < days.length := List.length_pos_of_mem (List.mem_of_getLast? hl)
      by_cases hlt : d < day
      · have hone : rolls [.save d.1 false, .onSwitchDay, .callback day.1] = 1 := rfl
        simp only [hlt, if_true, hone]
        refine ⟨by omega, fun heq => ⟨hchain (by omega), fun d' hd' => ?_⟩⟩
        cases hd'
        exact hlt
      · have hzero : rolls [] = 0 := rfl
        simp only [hlt, if_false, hzero]
        exact ⟨by omega, fun heq => by omega⟩

theorem sameAccount_of_rollsOnce {r r' : StgRuntime} (h : r.RollsOnce days) (h' : r'.RollsOnce days) :
    r.SameAccount r' days := by
  unfold SameAccount
  induction days using List.reverseRecOn with
  | nil => rfl
  | append_singleton days day ih =>
    obtain ⟨hpre, hday⟩ := atEach_concat.mp h
    obtain ⟨hpre', hday'⟩ := atEach_concat.mp h'
    rw [trace_concat, trace_concat, List.filter_append, List.filter_append, ih hpre hpre', hday, hday']

theorem sameAccount_iff {n i : Nat} (hi : i < n) (h : days.IsChain (· ≤ ·)) :
    stg.SameAccount (proc n i) days ↔ days.IsChain (· < ·) := by
  constructor
  · intro hsame
    have hrolls : rolls (stg.trace days) = rolls ((proc n i).trace days) :=
      congrArg (List.count StgCall.onSwitchDay) hsame
    rw [rolls_stg h] at hrolls
    exact (rolls_proc hi h).2 hrolls.symm
  · intro hlt
    exact sameAccount_of_rollsOnce ((rollsOnce_stg_iff h).mpr hlt) (rollsOnce_proc hi h)

end StgRuntime

open StgRuntime

/-- **The roll of the day.** `CStrategy` rolls its account once for a new day
exactly when no day is repeated, and a process calls back with every day but
the first; the other parts hold always. -/
theorem rolledOnce_iff (n : Nat) {days : List Day} (h : days.IsChain (· ≤ ·)) :
    (stg.RollsOnce days ↔ days.IsChain (· < ·)) ∧ stg.SavesOnce days ∧
    (∀ d ∈ days, stg.CallsBack days d) ∧
    (∀ i < n, (proc n i).RollsOnce days ∧ (proc n i).SavesOnce days ∧
      (∀ d ∈ days, (proc n i).CallsBack days d ↔ days.head? ≠ some d) ∧
      (stg.SameAccount (proc n i) days ↔ days.IsChain (· < ·))) ∧
    (RolledOnce n days ↔ days.IsChain (· < ·) ∧ (0 < n → days = [])) := by
  have hback : ∀ i < n, ∀ d ∈ days, (proc n i).CallsBack days d ↔ days.head? ≠ some d :=
    fun i hi d hd => callsBack_proc_iff hi h hd
  refine ⟨rollsOnce_stg_iff h, savesOnce keeps_stg saves_stg h, fun d hd => callsBack_stg h hd,
    fun i hi => ⟨rollsOnce_proc hi h, savesOnce (keeps_proc hi) (saves_proc hi) h, hback i hi,
      sameAccount_iff hi h⟩, ?_, ?_⟩
  · intro hall
    refine ⟨(rollsOnce_stg_iff h).mp hall.rolls.1, fun hn => ?_⟩
    cases days with
    | nil => rfl
    | cons d days =>
      have hd : d ∈ d :: days := List.mem_cons_self
      exact absurd rfl ((hback 0 hn d hd).mp ((hall.callsBack d hd).2 0 hn))
  · rintro ⟨hlt, hn⟩
    refine ⟨⟨(rollsOnce_stg_iff h).mpr hlt, fun i hi => rollsOnce_proc hi h⟩,
      ⟨savesOnce keeps_stg saves_stg h, fun i hi => savesOnce (keeps_proc hi) (saves_proc hi) h⟩,
      fun d hd => ?_, fun i hi => (sameAccount_iff hi h).mpr hlt⟩
    refine ⟨callsBack_stg h hd, fun i hi => ?_⟩
    rw [hn (by omega)] at hd
    cases hd

/-- Three days, one of them repeated. -/
def threeDays : List Day :=
  [⟨"20180814", by decide⟩, ⟨"20180815", by decide⟩, ⟨"20180815", by decide⟩, ⟨"20180816", by decide⟩]

theorem rolledOnce_iff_threeDays :
    (stg.RollsOnce threeDays ↔ threeDays.IsChain (· < ·)) ∧ stg.SavesOnce threeDays ∧
    (∀ d ∈ threeDays, stg.CallsBack threeDays d) ∧
    (∀ i < 2, (proc 2 i).RollsOnce threeDays ∧ (proc 2 i).SavesOnce threeDays ∧
      (∀ d ∈ threeDays, (proc 2 i).CallsBack threeDays d ↔ threeDays.head? ≠ some d) ∧
      (stg.SameAccount (proc 2 i) threeDays ↔ threeDays.IsChain (· < ·))) ∧
    (RolledOnce 2 threeDays ↔ threeDays.IsChain (· < ·) ∧ (0 < 2 → threeDays = [])) :=
  rolledOnce_iff 2 (by decide +kernel)

/-- The repeated day rolls the account of `CStrategy` a second time, and the
strategies of a process do not hear of the first day. -/
theorem not_rolledOnce_threeDays : ¬RolledOnce 2 threeDays := by
  intro h
  have hsorted : threeDays.IsChain (· ≤ ·) := by decide +kernel
  exact absurd ((rollsOnce_stg_iff hsorted).mp h.rolls.1) (by decide +kernel)

end NatFramework.Strategy
