import Mathlib.Data.List.GetD
import NatFramework.Bar.BarMaker

/-!
# The bars of a day

`BarMaker::generateVecBar` and the table of trading periods it reads.

* `GenState` holds the local variables of `generateVecBar`: the bar being
  composed, the seconds it still lacks (`leave`) and the bars pushed so far.
* The inner loop is given the number of rounds it may take; a cycle of at least
  one second ends it before that (`pushFull_ind`).
* `adjust` is the last pass over the vector, it leaves `bob` and `eob` alone.
-/
namespace NatFramework.Bar

/-- mirrors bar/BarMaker.h:12-16 -/
structure TimeSpan where
  bgnSec : Int := 0
  endSec : Int := 0
  isAuction : Bool := false
  deriving DecidableEq, Repr

/-- mirrors include/ATConstants.h:363-370 -/
inductive Exch where
  | sse | sze | cffex | shfe | dce | czce | ine | sge
  | unknown (code : Int)
  deriving DecidableEq, Repr

/-- mirrors include/ATConstants.h:376 -/
def dailyCycle : Int := -10

/-- mirrors include/ATConstants.h:377 -/
def sessionCycle : Int := -20

/-! ## Trading periods -/

/-- A period given in Beijing time, hours and minutes. -/
def period (base : Int) (bgnHour bgnMin endHour endMin : Int) (isAuction : Bool) : TimeSpan where
  bgnSec := getBaseIntervalFromBjtSec base (bgnHour * 3600 + bgnMin * 60)
  endSec := getBaseIntervalFromBjtSec base (endHour * 3600 + endMin * 60)
  isAuction := isAuction

/-- mirrors bar/BarMaker.cpp:287-449 -/
def getTradingTimespan (base : Int) (prd : String) : List TimeSpan :=
  if prd ∈ ["IC", "IF", "IH"] then
    [period base 9 29 9 30 true,
     period base 9 30 11 30 false,
     period base 13 0 15 0 false]
  else if prd ∈ ["T", "TF", "TS"] then
    [period base 9 14 9 15 true,
     period base 9 15 11 30 false,
     period base 13 0 15 15 false]
  else if prd ∈ ["AP", "JR", "LR", "PM", "RI", "RS", "SF", "SM", "WH", "bb", "c", "cs", "fb", "jd",
      "l", "pp", "v", "fu", "wr"] then
    [period base 8 59 9 0 true,
     period base 9 0 10 15 false,
     period base 10 30 11 30 false,
     period base 13 30 15 0 false]
  else if prd ∈ ["CF", "CY", "FG", "MA", "OI", "RM", "SR", "TA", "ZC", "a", "b", "i", "j", "jm", "m",
      "p", "y"] then
    [period base 20 59 21 0 true,
     period base 21 0 23 30 false,
     period base 8 59 9 0 true,
     period base 9 0 10 15 false,
     period base 10 30 11 30 false,
     period base 13 30 15 0 false]
  else if prd ∈ ["bu", "hc", "rb", "ru"] then
    [period base 20 59 21 0 true,
     period base 21 0 23 0 false,
     period base 8 59 9 0 true,
     period base 9 0 10 15 false,
     period base 10 30 11 30 false,
     period base 13 30 15 0 false]
  else if prd ∈ ["al", "cu", "ni", "pb", "sn", "zn"] then
    [period base 20 59 21 0 true,
     period base 21 0 1 0 false,
     period base 8 59 9 0 true,
     period base 9 0 10 15 false,
     period base 10 30 11 30 false,
     period base 13 30 15 0 false]
  else if prd ∈ ["ag", "au", "sc"] then
    [period base 20 59 21 0 true,
     period base 21 0 2 30 false,
     period base 8 59 9 0 true,
     period base 9 0 10 15 false,
     period base 10 30 11 30 false,
     period base 13 30 15 0 false]
  else [{ bgnSec := 0, endSec := 24 * 3600 - 1, isAuction := false }]

/-! ## One bar a day, one bar a period -/

/-- One round of the loop over the periods.
mirrors bar/BarMaker.cpp:56-68 -/
def dailyRound (exch : Exch) (bar : Bar2) (it : TimeSpan × Nat) : Bar2 :=
  let bar := if it.2 = 0 then { bar with bob := it.1.bgnSec, adjustBob := 0 } else bar
  { bar with
    eob := it.1.endSec
    adjustEob := it.1.endSec + 1
    settleSec := if exch = .czce then it.1.endSec - 1 else it.1.endSec }

/-- mirrors bar/BarMaker.cpp:54-72 -/
def dailyBar (exch : Exch) (vecCtts : List TimeSpan) (bar : Bar2) : Bar2 :=
  { vecCtts.zipIdx.foldl (dailyRound exch) bar with isAuction := false }

/-- Every field the loop sets it sets anew in each round.
mirrors bar/BarMaker.cpp:73-95 -/
def sessionBars (exch : Exch) (vecCtts : List TimeSpan) (bar : Bar2) : List Bar2 :=
  vecCtts.zipIdx.map fun it =>
    { bar with
      bob := it.1.bgnSec
      adjustBob := if it.2 = 0 then 0 else it.1.bgnSec
      eob := it.1.endSec
      adjustEob := if it.1.isAuction then it.1.endSec else it.1.endSec + 1
      settleSec := if exch = .czce then it.1.endSec - 1 else it.1.endSec
      isAuction := it.1.isAuction }

/-! ## Bars of a given length -/

structure GenState where
  bar : Bar2
  bar2 : Bar2
  leave : Int := 0
  vecBar : List Bar2 := []
  deriving DecidableEq, Repr

/-- One round of the inner loop.
mirrors bar/BarMaker.cpp:115-118 -/
def GenState.push (cycleSec : Int) (g : GenState) : GenState :=
  let bar := { g.bar with isAuction := false }
  { g with
    vecBar := g.vecBar ++ [bar]
    bar := { bar with bob := g.bar.eob, eob := g.bar.eob + cycleSec } }

/-- mirrors bar/BarMaker.cpp:114-119 -/
def GenState.pushFull (cycleSec endSec : Int) : Nat → GenState → GenState
  | 0, g => g
  | n + 1, g =>
    if g.bar.bob < endSec ∧ g.bar.eob ≤ endSec then pushFull cycleSec endSec n (g.push cycleSec)
    else g

/-- Where the bar of a continuous period begins and ends.
mirrors bar/BarMaker.cpp:104-112 -/
def GenState.enter (cycleSec : Int) (g : GenState) (it : TimeSpan) : GenState :=
  if g.leave = 0 then { g with bar := { g.bar with bob := it.bgnSec, eob := it.bgnSec + cycleSec } }
  else { g with bar := { g.bar with eob := it.bgnSec + g.leave } }

/-- mirrors bar/BarMaker.cpp:98-124 -/
def GenState.span (cycleSec : Int) (g : GenState) (it : TimeSpan) : GenState :=
  if it.isAuction then
    let bar2 := { g.bar2 with bob := it.bgnSec, eob := it.endSec, isAuction := true }
    { g with bar2 := bar2, vecBar := g.vecBar ++ [bar2] }
  else
    let g := g.enter cycleSec it
    let g := g.pushFull cycleSec it.endSec ((it.endSec - g.bar.eob).toNat + 1)
    if g.bar.bob ≠ it.endSec then { g with leave := g.bar.eob - it.endSec } else g

/-- mirrors bar/BarMaker.cpp:127-131 -/
def GenState.finish (g : GenState) : List Bar2 :=
  if g.leave > 0 then g.vecBar ++ [{ g.bar with eob := g.bar.eob - g.leave, isAuction := false }]
  else g.vecBar

/-- mirrors bar/BarMaker.cpp:278-285 -/
def isEobOverlap (endSec : Int) (vecCtts : List TimeSpan) : Bool :=
  vecCtts.any (·.endSec = endSec)

/-- mirrors bar/BarMaker.cpp:134-162 -/
def adjust (vecCtts : List TimeSpan) (bar : Bar2) (idx : Nat) : Bar2 :=
  if bar.isAuction then
    { bar with
      adjustBob := if idx = 0 then 0 else bar.bob - 2 * 3600
      adjustEob := bar.eob
      settleSec := bar.eob }
  else
    let bar := { bar with adjustBob := bar.bob }
    if isEobOverlap bar.eob vecCtts then { bar with adjustEob := bar.eob + 1, settleSec := bar.eob }
    else { bar with adjustEob := bar.eob }

/-- `generateVecBar` with the trading periods it has read.
mirrors bar/BarMaker.cpp:40-163 -/
def barsOf (info : InstrumentInfo) (exch : Exch) (cycleSec : Int) (vecCtts : List TimeSpan) :
    List Bar2 :=
  let bar : Bar2 := { cycleSec := cycleSec, instrHash := info.instrHash, instr := info.instr }
  if cycleSec = dailyCycle then [dailyBar exch vecCtts bar]
  else if cycleSec = sessionCycle then sessionBars exch vecCtts bar
  else
    let g := vecCtts.foldl (GenState.span cycleSec) { bar := bar, bar2 := bar }
    g.finish.mapIdx fun idx b => adjust vecCtts b idx

/-- mirrors bar/BarMaker.cpp:52 -/
def generateVecBar (base : Int) (info : InstrumentInfo) (exch : Exch) (cycleSec : Int) : List Bar2 :=
  barsOf info exch cycleSec (getTradingTimespan base info.product)

/-- The constructor.
mirrors bar/BarMaker.cpp:11-38 -/
def BarMaker.new (base : Int) (info : InstrumentInfo) (exch : Exch) (cycleSec : Int) : BarMaker where
  instr := info.instr
  instrHash := info.instrHash
  cycleSec := cycleSec
  vecBar := generateVecBar base info exch cycleSec

/-! ## Bars without a tick -/

/-- No tick has reached the bar. -/
structure Unfilled (b : Bar2) : Prop where
  open_ : b.open_ = 0
  high : b.high = 0
  low : b.low = 0
  preClose : b.preClose = 0

theorem unfilled_dailyBar (exch : Exch) (vecCtts : List TimeSpan) {bar : Bar2} (h : Unfilled bar) :
    Unfilled (dailyBar exch vecCtts bar) := by
  have hfold : Unfilled (vecCtts.zipIdx.foldl (dailyRound exch) bar) := by
    refine List.foldlRecOn vecCtts.zipIdx (dailyRound exch) h (fun b hb it _ => ?_)
    unfold dailyRound
    dsimp only
    split <;> exact ⟨hb.open_, hb.high, hb.low, hb.preClose⟩
  exact ⟨hfold.open_, hfold.high, hfold.low, hfold.preClose⟩

theorem unfilled_sessionBars (exch : Exch) (vecCtts : List TimeSpan) {bar : Bar2}
    (h : Unfilled bar) : ∀ b ∈ sessionBars exch vecCtts bar, Unfilled b := by
  intro b hb
  obtain ⟨it, _, rfl⟩ := List.mem_map.mp hb
  exact ⟨h.open_, h.high, h.low, h.preClose⟩

/-- A property that the times of a bar have no part in. -/
def TimeFree (P : Bar2 → Prop) : Prop :=
  ∀ b bob eob isAuction, P b → P { b with bob := bob, eob := eob, isAuction := isAuction }

theorem timeFree_unfilled : TimeFree Unfilled := fun _ _ _ _ h => ⟨h.open_, h.high, h.low, h.preClose⟩

theorem timeFree_settleSec : TimeFree (·.settleSec = 0) := fun _ _ _ _ h => h

namespace GenState

/-- `P` of the bars of the state, those pushed and those being composed. -/
structure All (P : Bar2 → Prop) (g : GenState) : Prop where
  bar : P g.bar
  bar2 : P g.bar2
  vecBar : ∀ b ∈ g.vecBar, P b

variable {P : Bar2 → Prop} (hP : TimeFree P)
include hP

theorem All.push {g : GenState} (h : g.All P) (cycleSec : Int) : (g.push cycleSec).All P where
  bar := hP g.bar g.bar.eob (g.bar.eob + cycleSec) false h.bar
  bar2 := h.bar2
  vecBar b hb := by
    rcases List.mem_append.mp hb with hb | hb
    · exact h.vecBar b hb
    · rw [List.mem_singleton.mp hb]
      exact hP _ _ _ _ h.bar

theorem All.pushFull (cycleSec endSec : Int) : ∀ (n : Nat) {g : GenState},
    g.All P → (g.pushFull cycleSec endSec n).All P
  | 0, _, h => h
  | n + 1, g, h => by
    unfold GenState.pushFull
    split
    · exact pushFull cycleSec endSec n (h.push hP cycleSec)
    · exact h

theorem All.enter {g : GenState} (h : g.All P) (cycleSec : Int) (it : TimeSpan) :
    (g.enter cycleSec it).All P := by
  unfold GenState.enter
  split <;> exact ⟨hP _ _ _ _ h.bar, h.bar2, h.vecBar⟩

theorem All.span {g : GenState} (h : g.All P) (cycleSec : Int) (it : TimeSpan) :
    (g.span cycleSec it).All P := by
  unfold GenState.span
  dsimp only
  split
  · have hbar2 : P { g.bar2 with bob := it.bgnSec, eob := it.endSec, isAuction := true } :=
      hP _ _ _ _ h.bar2
    refine ⟨h.bar, hbar2, fun b hb => ?_⟩
    rcases List.mem_append.mp hb with hb | hb
    · exact h.vecBar b hb
    · rw [List.mem_singleton.mp hb]
      exact hbar2
  · have hfull := All.pushFull hP cycleSec it.endSec
      ((it.endSec - (g.enter cycleSec it).bar.eob).toNat + 1) (h.enter hP cycleSec it)
    split
    · exact ⟨hfull.bar, hfull.bar2, hfull.vecBar⟩
    · exact hfull

theorem All.finish {g : GenState} (h : g.All P) : ∀ b ∈ g.finish, P b := by
  unfold GenState.finish
  split
  · intro b hb
    rcases List.mem_append.mp hb with hb | hb
    · exact h.vecBar b hb
    · rw [List.mem_singleton.mp hb]
      exact hP _ _ _ _ h.bar
  · exact h.vecBar

/-- What holds of an empty bar holds of every bar before the last pass. -/
theorem all_finish (bar : Bar2) (hbar : P bar) (cycleSec : Int) (vecCtts : List TimeSpan) :
    ∀ b ∈ (vecCtts.foldl (GenState.span cycleSec) { bar := bar, bar2 := bar }).finish, P b :=
  All.finish hP <| List.foldlRecOn vecCtts (GenState.span cycleSec) ⟨hbar, hbar, by simp⟩
    fun _ hg it _ => hg.span hP cycleSec it

end GenState

theorem Unfilled.adjust {bar : Bar2} (h : Unfilled bar) (vecCtts : List TimeSpan) (idx : Nat) :
    Unfilled (adjust vecCtts bar idx) := by
  unfold Bar.adjust
  dsimp only
  split
  · exact ⟨h.open_, h.high, h.low, h.preClose⟩
  · split <;> exact ⟨h.open_, h.high, h.low, h.preClose⟩

/-- No bar of a new vector holds a price. -/
theorem unfilled_barsOf (info : InstrumentInfo) (exch : Exch) (cycleSec : Int)
    (vecCtts : List TimeSpan) : ∀ b ∈ barsOf info exch cycleSec vecCtts, Unfilled b := by
  unfold barsOf
  dsimp only
  split
  · intro b hb
    rw [List.mem_singleton.mp hb]
    exact unfilled_dailyBar exch vecCtts ⟨rfl, rfl, rfl, rfl⟩
  · split
    · exact unfilled_sessionBars exch vecCtts ⟨rfl, rfl, rfl, rfl⟩
    · intro b hb
      obtain ⟨i, hi, rfl⟩ := List.mem_mapIdx.mp hb
      exact (GenState.all_finish timeFree_unfilled _ ⟨rfl, rfl, rfl, rfl⟩ cycleSec vecCtts _
        (List.getElem_mem hi)).adjust vecCtts i

/-- A continuous bar that no period ends with keeps its own times for the adjusted
ones. Bars of a day or of a period all end with one. -/
theorem inside_barsOf {info : InstrumentInfo} {exch : Exch} {cycleSec : Int}
    {vecCtts : List TimeSpan} (hdaily : cycleSec ≠ dailyCycle) {b : Bar2}
    (hb : b ∈ barsOf info exch cycleSec vecCtts) (hcont : b.isAuction = false)
    (hinside : isEobOverlap b.eob vecCtts = false) :
    b.adjustBob = b.bob ∧ b.adjustEob = b.eob ∧ b.settleSec = 0 := by
  unfold barsOf at hb
  dsimp only at hb
  rw [if_neg hdaily] at hb
  split at hb
  · obtain ⟨it, hit, rfl⟩ := List.mem_map.mp hb
    refine absurd hinside ?_
    have hmem := List.fst_mem_of_mem_zipIdx hit
    simpa [isEobOverlap] using ⟨it.1, hmem, rfl⟩
  · obtain ⟨i, hi, rfl⟩ := List.mem_mapIdx.mp hb
    have hsettle := GenState.all_finish timeFree_settleSec _ rfl cycleSec vecCtts _
      (List.getElem_mem hi)
    unfold adjust at hcont hinside ⊢
    dsimp only at hcont hinside ⊢
    split
    · simp_all
    · split
      · simp_all
      · exact ⟨rfl, rfl, hsettle⟩

theorem BarMaker.unfilled_bar_new (base : Int) (info : InstrumentInfo) (exch : Exch) (cycleSec : Int)
    (i : Nat) : Unfilled ((BarMaker.new base info exch cycleSec).bar i) := by
  change Unfilled ((generateVecBar base info exch cycleSec).getD i {})
  by_cases hi : i < (generateVecBar base info exch cycleSec).length
  · rw [List.getD_eq_getElem _ _ hi]
    exact unfilled_barsOf info exch cycleSec _ _ (List.getElem_mem hi)
  · rw [List.getD_eq_default _ _ (not_lt.mp hi)]
    exact ⟨rfl, rfl, rfl, rfl⟩

/-- A contract of the given product. -/
def contract (instr product : String) : InstrumentInfo :=
  { instrHash := 1, instr := instr, product := product, productHash := 2, volMultiple := 10 }

/-- The tick at a Beijing time of day, of the trading day that began on 5 March
2018 at 18:00. -/
def tickAt (hour minute second : Int) (px : ℚ) (cumVol : Int) : UnitedMarketData :=
  { instrHash := 1
    lastPx := px
    cumVol := cumVol
    exchTime := (1520244000 + getBaseIntervalFromBjtSec intraDayBaseSec
      (hour * 3600 + minute * 60 + second)) * 1000000000 }

example : (generateVecBar intraDayBaseSec (contract "IF1803" "IF") .cffex 7200).map
    (fun b => (b.bob, b.eob, b.adjustEob)) =
      [(55740, 55800, 55800), (55800, 63000, 63001), (68400, 75600, 75601)] := by decide +kernel

end NatFramework.Bar
