import Mathlib.Algebra.Order.Group.Unbundled.Int
import Mathlib.Data.List.Basic

/-!
# The exchange time of a tick

A tick of the CTP front carries a clock string and milliseconds but no date.
The engine takes the date from the start of the day it was started on
(`CTimer`, never updated) and shifts it by a day on the first character of the
clock string, the day or night mode being fixed at the start as well.
`CMDEngineEES` and `CMDEngineEESOnload` hold the same three lines.

* `exchTime_of_clock`: the exchange time as a function of the second of the day.
* `exchTime_day`, `exchTime_evening`, `exchTime_restarted`: the instant of the
  tick cut to its millisecond, or that a day late when the engine was started
  between midnight and 6:00.
-/
namespace NatFramework.Md

/-! ## Clocks -/

/-- The character `0 + d` of a decimal digit. -/
def digit (d : Nat) : Nat := 48 + d

/-- The characters of "09:12:36" for a second of the day. -/
def clockStr (s : Nat) : List Nat :=
  let h := s / 3600
  let m := s % 3600 / 60
  [digit (h / 10), digit (h % 10), 58, digit (m / 10), digit (m % 10), 58,
    digit (s % 60 / 10), digit (s % 60 % 10), 0]

/-- mirrors utility/utils.h:99-100 -/
def getSecondsFromClockStr (clock : List Nat) : Int :=
  let c : Nat → Int := fun i => clock.getD i 0
  c 0 * 36000 + c 1 * 3600 + c 3 * 600 + c 4 * 60 + c 6 * 10 + c 7 - 1933008

theorem getSeconds_clockStr (s : Nat) : getSecondsFromClockStr (clockStr s) = s := by
  simp only [getSecondsFromClockStr, clockStr, digit, List.getD_cons_zero, List.getD_cons_succ]
  omega

theorem head_clockStr (s : Nat) : (clockStr s).getD 0 0 = 48 + s / 36000 := by
  simp only [clockStr, digit, List.getD_cons_zero]
  omega

/-- The exchange and the machine keep the same local time, `tz` seconds before
UTC and without daylight saving; seconds and nanoseconds count from the epoch. -/
def secondOfDay (tz now : Int) : Int := (now + tz) % 86400

/-- mirrors utility/CTimer.cpp:54-65 (`mktime` of the date of `localtime_r`) -/
def getDayBeginTimestamp (tz now : Int) : Int := now - secondOfDay tz now

/-! ## The engine -/

/-- mirrors md/IMDEngine.h:72 -/
inductive DayNightMode where
  | MODE_DAY
  | MODE_NIGHT
  deriving DecidableEq, Repr

/-- What the start of the process fixes. -/
structure EngineClock where
  dayBeginTime : Int
  dayNightMode : DayNightMode
  deriving DecidableEq, Repr

/-- The static `CTimer` and the constructor of the engine, both at the start.
mirrors utility/CTimer.cpp:67-71, md/IMDEngine.cpp:21-29 -/
def EngineClock.start (tz now : Int) : EngineClock :=
  let begin_ := getDayBeginTimestamp tz now
  { dayBeginTime := begin_
    dayNightMode :=
      if begin_ + 6 * 3600 ≤ now ∧ now ≤ begin_ + 18 * 3600 then .MODE_DAY else .MODE_NIGHT }

/-- mirrors md/CMDEngineCtp.cpp:192-194 -/
def exchTime (e : EngineClock) (updateTime : List Nat) (updateMillisec : Int) : Int :=
  let t := (getSecondsFromClockStr updateTime + e.dayBeginTime) * 1000000000
    + updateMillisec * 1000000
  match e.dayNightMode with
  | .MODE_NIGHT => if updateTime.getD 0 0 = 48 then t + 86400 * 1000000000 else t
  | .MODE_DAY => if updateTime.getD 0 0 = 50 then t - 86400 * 1000000000 else t

/-- The clock string and the milliseconds the front gives a tick of instant `t`,
in nanoseconds. -/
def exchTimeOf (e : EngineClock) (tz t : Int) : Int :=
  exchTime e (clockStr (secondOfDay tz (t / 1000000000)).toNat) (t % 1000000000 / 1000000)

/-- The sessions of the two modes: the day session from 6:00 to 18:00, the night
session from then to 6:00. `Session tz now t` says that `t` lies in the one that
runs at `now`. -/
def Session (tz now t : Int) : Prop :=
  let begin_ := getDayBeginTimestamp tz now
  let sec := t / 1000000000
  if secondOfDay tz now < 6 * 3600 then begin_ - 6 * 3600 < sec ∧ sec < begin_ + 6 * 3600
  else if secondOfDay tz now ≤ 18 * 3600 then
    begin_ + 6 * 3600 ≤ sec ∧ sec ≤ begin_ + 18 * 3600
  else begin_ + 18 * 3600 < sec ∧ sec < begin_ + 30 * 3600

instance (tz now t : Int) : Decidable (Session tz now t) := by
  delta Session
  infer_instance

/-! ## What the engine makes of a tick -/

/-- An instant cut to its millisecond. -/
def toMillis (t : Int) : Int := t / 1000000 * 1000000

theorem toMillis_mono {t u : Int} (h : t ≤ u) : toMillis t ≤ toMillis u := by
  unfold toMillis
  omega

theorem secondOfDay_lt (tz now : Int) : 0 ≤ secondOfDay tz now ∧ secondOfDay tz now < 86400 := by
  unfold secondOfDay
  omega

theorem start_dayBegin (tz now : Int) :
    (EngineClock.start tz now).dayBeginTime = now - secondOfDay tz now := rfl

theorem start_mode (tz now : Int) : (EngineClock.start tz now).dayNightMode =
    if 6 * 3600 ≤ secondOfDay tz now ∧ secondOfDay tz now ≤ 18 * 3600 then .MODE_DAY
    else .MODE_NIGHT := by
  simp only [EngineClock.start, getDayBeginTimestamp]
  congr 1
  exact propext (by omega)

/-- The exchange time of a tick whose second of the day is `s`. -/
theorem exchTime_of_clock (e : EngineClock) (tz t : Int) (s : Nat)
    (hs : secondOfDay tz (t / 1000000000) = s) :
    exchTimeOf e tz t = (e.dayBeginTime + s) * 1000000000 + t % 1000000000 / 1000000 * 1000000 +
      (match e.dayNightMode with
      | .MODE_NIGHT => if s < 36000 then 86400 * 1000000000 else 0
      | .MODE_DAY => if s / 36000 = 2 then -(86400 * 1000000000) else 0) := by
  rw [exchTimeOf, hs, Int.toNat_natCast, exchTime, getSeconds_clockStr, head_clockStr]
  cases e.dayNightMode with
  | MODE_NIGHT => simp only; split <;> split <;> omega
  | MODE_DAY => simp only; split <;> split <;> omega

/-- The second of the day of an instant whose distance from the start of a day is
known: `k` days and `s` seconds. -/
theorem secondOfDay_of_distance (tz now sec k : Int) (s : Nat) (hs : s < 86400)
    (h : sec = getDayBeginTimestamp tz now + k * 86400 + s) : secondOfDay tz sec = s := by
  unfold getDayBeginTimestamp secondOfDay at h
  unfold secondOfDay
  omega

/-- An instant in seconds and milliseconds. -/
theorem toMillis_eq (t : Int) :
    toMillis t = t / 1000000000 * 1000000000 + t % 1000000000 / 1000000 * 1000000 := by
  unfold toMillis
  omega

variable {tz now t : Int}

theorem exchTime_day (h6 : 6 * 3600 ≤ secondOfDay tz now) (h18 : secondOfDay tz now ≤ 18 * 3600)
    (ht : Session tz now t) : exchTimeOf (.start tz now) tz t = toMillis t := by
  simp only [Session, if_neg (Int.not_lt.mpr h6), if_pos h18] at ht
  obtain ⟨s, hs⟩ := Int.eq_ofNat_of_zero_le
    (show 0 ≤ t / 1000000000 - getDayBeginTimestamp tz now by omega)
  rw [exchTime_of_clock _ _ _ s (secondOfDay_of_distance tz now _ 0 s (by omega) (by omega)),
    start_mode, if_pos ⟨h6, h18⟩, start_dayBegin, toMillis_eq]
  simp only [getDayBeginTimestamp] at hs ht ⊢
  rw [if_neg (by omega)]
  omega

/-- A tick of the night session, `s` seconds into day `k` of it: the evening is day
0 and the morning day 1, counted from the evening the session began. The engine was
started `late` days after that evening. -/
theorem exchTime_night (late k : Int) (s : Nat) (hs : s < 86400)
    (hn : ¬ (6 * 3600 ≤ secondOfDay tz now ∧ secondOfDay tz now ≤ 18 * 3600))
    (hk : k = 0 ∧ 36000 ≤ s ∨ k = 1 ∧ s < 36000)
    (ht : t / 1000000000 = getDayBeginTimestamp tz now + (k - late) * 86400 + s) :
    exchTimeOf (.start tz now) tz t = toMillis t + late * (86400 * 1000000000) := by
  rw [exchTime_of_clock _ _ _ s (secondOfDay_of_distance tz now _ (k - late) s hs ht),
    start_mode, if_neg hn, start_dayBegin, toMillis_eq, ht]
  simp only [getDayBeginTimestamp]
  rcases hk with ⟨rfl, h⟩ | ⟨rfl, h⟩
  · rw [if_neg (by omega)]
    omega
  · rw [if_pos h]
    omega

theorem exchTime_evening (h18 : 18 * 3600 < secondOfDay tz now) (ht : Session tz now t) :
    exchTimeOf (.start tz now) tz t = toMillis t := by
  simp only [Session, if_neg (show ¬ secondOfDay tz now < 6 * 3600 by omega),
    if_neg (Int.not_le.mpr h18)] at ht
  have hn : ¬ (6 * 3600 ≤ secondOfDay tz now ∧ secondOfDay tz now ≤ 18 * 3600) := by omega
  by_cases hday : t / 1000000000 < getDayBeginTimestamp tz now + 86400
  · obtain ⟨s, hs⟩ := Int.eq_ofNat_of_zero_le
      (show 0 ≤ t / 1000000000 - getDayBeginTimestamp tz now by omega)
    rw [exchTime_night 0 0 s (by omega) hn (.inl ⟨rfl, by omega⟩) (by omega)]
    omega
  · obtain ⟨s, hs⟩ := Int.eq_ofNat_of_zero_le
      (show 0 ≤ t / 1000000000 - getDayBeginTimestamp tz now - 86400 by omega)
    rw [exchTime_night 0 1 s (by omega) hn (.inr ⟨rfl, by omega⟩) (by omega)]
    omega

/-- After a restart between midnight and 6:00 the start of the day is already that
of the morning, and the whole session is dated a day late. -/
theorem exchTime_restarted (h6 : secondOfDay tz now < 6 * 3600) (ht : Session tz now t) :
    exchTimeOf (.start tz now) tz t = toMillis t + 86400 * 1000000000 := by
  simp only [Session, if_pos h6] at ht
  have hn : ¬ (6 * 3600 ≤ secondOfDay tz now ∧ secondOfDay tz now ≤ 18 * 3600) := by omega
  by_cases hday : t / 1000000000 < getDayBeginTimestamp tz now
  · obtain ⟨s, hs⟩ := Int.eq_ofNat_of_zero_le
      (show 0 ≤ t / 1000000000 - getDayBeginTimestamp tz now + 86400 by omega)
    rw [exchTime_night 1 0 s (by omega) hn (.inl ⟨rfl, by omega⟩) (by omega)]
    omega
  · obtain ⟨s, hs⟩ := Int.eq_ofNat_of_zero_le
      (show 0 ≤ t / 1000000000 - getDayBeginTimestamp tz now by omega)
    rw [exchTime_night 1 1 s (by omega) hn (.inr ⟨rfl, by omega⟩) (by omega)]
    omega

/-- The exchange time of every session is the instant to the millisecond, up to a
number of days that the start fixes. -/
theorem exchTime_session (tz now : Int) : ∃ late : Int, ∀ t, Session tz now t →
    exchTimeOf (.start tz now) tz t = toMillis t + late * (86400 * 1000000000) := by
  by_cases h6 : secondOfDay tz now < 6 * 3600
  · refine ⟨1, fun t ht => ?_⟩
    rw [exchTime_restarted h6 ht]
    omega
  · refine ⟨0, fun t ht => ?_⟩
    by_cases h18 : secondOfDay tz now ≤ 18 * 3600
    · rw [exchTime_day (by omega) h18 ht]
      omega
    · rw [exchTime_evening (by omega) ht]
      omega

/-! ## The day of a tick -/

/-- The exchange time of every tick of the running session is less than 12 hours
from its instant. -/
def RightDay (tz now : Int) : Prop := ∀ t, Session tz now t →
  |exchTimeOf (.start tz now) tz t - t| < 12 * 3600 * 1000000000

/-- Along the running session the exchange time does not decrease. -/
def NonDecreasing (tz now : Int) : Prop := ∀ t u, Session tz now t → Session tz now u → t ≤ u →
  exchTimeOf (.start tz now) tz t ≤ exchTimeOf (.start tz now) tz u

theorem nonDecreasing (tz now : Int) : NonDecreasing tz now := by
  obtain ⟨late, hlate⟩ := exchTime_session tz now
  intro t u ht hu hle
  rw [hlate t ht, hlate u hu]
  have := toMillis_mono hle
  omega

/-- The second the engine is started in belongs to the session that runs. -/
theorem session_now (tz now : Int) : Session tz now (now * 1000000000) := by
  have hbound := secondOfDay_lt tz now
  simp only [Session, getDayBeginTimestamp,
    show now * 1000000000 / 1000000000 = now by omega]
  split_ifs with h6 h18
  · omega
  · omega
  · omega

/-- The ticks of the running session fall on their day exactly when the engine was
not started between midnight and 6:00. -/
theorem exchTime_rightDay_iff (tz now : Int) :
    (RightDay tz now ∧ NonDecreasing tz now) ↔ 6 * 3600 ≤ secondOfDay tz now := by
  constructor
  · intro h
    by_contra hlate
    have hnow := h.1 _ (session_now tz now)
    rw [exchTime_restarted (by omega) (session_now tz now), toMillis, abs_lt] at hnow
    omega
  · intro h6
    refine ⟨fun t ht => ?_, nonDecreasing tz now⟩
    have hexact : exchTimeOf (.start tz now) tz t = toMillis t := by
      by_cases h18 : secondOfDay tz now ≤ 18 * 3600
      · exact exchTime_day h6 h18 ht
      · exact exchTime_evening (by omega) ht
    rw [hexact, toMillis, abs_lt]
    omega

/-- Beijing time, 2 May 2018: restarted at 0:30, a tick of 1:00 is dated 3 May. -/
theorem exchTime_restarted_at_night : ¬ RightDay 28800 1525192200 := by
  intro h
  have htick := h 1525194000000000000 (by decide)
  revert htick
  decide

end NatFramework.Md
