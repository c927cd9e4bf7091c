import NatFramework.Common.Replay
import NatFramework.Md.CMDEngineCtp

/-!
# The exchange time of a warehouse tick

A record holds the local time it was dumped at and the exchange's clock, without a
date. `CWareHouseFileCursor::next` puts the clock on the Beijing day of the local time
and shifts the result by a day when it is more than two hours ahead of the local
time or more than twenty behind.

* `exchTime_iff`: this is the instant of the tick, cut to its millisecond, exactly
  when the tick is `Datable`.
* `exchTimes_dated`: what is read of a file of such ticks is in the order of their
  instants.
-/
namespace NatFramework.Common

open Lib Md

/-! ## Instants and clocks -/

/-- Beijing is eight hours ahead of UTC. -/
def beijingZone : Int := 8 * 3600

def beijingDay (t : Int) : Int := (t + 8 * nanoHour) / nanoDay

/-- The nanoseconds of the Beijing day of `t`, cut to the millisecond. -/
def beijingClock (t : Int) : Int :=
  secondOfDay beijingZone (t / 1000000000) * 1000000000 + t % 1000000000 / 1000000 * 1000000

/-- The clock and the milliseconds in the record are those of the instant `t`. -/
structure DepthMarketData.Carries (d : DepthMarketData) (t : Int) : Prop where
  updateTime : d.updateTime =
    (clockStr (secondOfDay beijingZone (t / 1000000000)).toNat).map Int.ofNat
  updateMillisec : d.updateMillisec = t % 1000000000 / 1000000

/-- A tick of the instant `t`, dumped at `localTime`: it is at most twenty hours old,
and its clock at most two hours ahead. -/
structure Delayed (localTime t : Int) : Prop where
  day_le : nanoDay ≤ localTime
  le_max : localTime ≤ longMax
  late : localTime - 20 * nanoHour ≤ t
  early : t ≤ localTime + 2 * nanoHour

/-- The clock of `t` put on the Beijing day of `localTime`. -/
def stamp (localTime t : Int) : Int :=
  beijingDay localTime * nanoDay + beijingClock t - 8 * nanoHour

/-- The instant can be told from the clock: the sums are in the range of `long`, and
on the day of `localTime` the cut does not take `t` out of the twenty hours. -/
structure Datable (localTime t : Int) : Prop where
  zone_le : localTime + 8 * nanoHour ≤ longMax
  stamp_le : stamp localTime t ≤ longMax
  cut : beijingDay t = beijingDay localTime → localTime - 20 * nanoHour ≤ toMillis t

theorem toLong_of_mem {n : Int} (h₀ : -(longMax + 1) ≤ n) (h₁ : n ≤ longMax) : toLong n = n := by
  unfold longMax at h₀ h₁
  unfold toLong
  rw [Int.bmod_def]
  omega

theorem toLong_of_gt {n : Int} (h₀ : longMax < n) (h₁ : n ≤ 3 * longMax) :
    toLong n = n - 2 * (longMax + 1) := by
  unfold longMax at h₀ h₁ ⊢
  unfold toLong
  rw [Int.bmod_def]
  omega

theorem toLong_of_lt {n : Int} (h₀ : -(3 * longMax) ≤ n) (h₁ : n < -(longMax + 1)) :
    toLong n = n + 2 * (longMax + 1) := by
  unfold longMax at h₀ h₁ ⊢
  unfold toLong
  rw [Int.bmod_def]
  omega

theorem getSeconds_cast (clock : List Nat) :
    getSecondsFromClockStr (clock.map Int.ofNat) = Md.getSecondsFromClockStr clock := by
  have hget : ∀ i, (clock.map Int.ofNat).getD i 0 = (clock.getD i 0 : Nat) := by
    intro i
    simp only [List.getD_eq_getElem?_getD, List.getElem?_map]
    cases clock[i]? <;> rfl
  simp only [getSecondsFromClockStr, Md.getSecondsFromClockStr, hget]

theorem beijingClock_lt (t : Int) : 0 ≤ beijingClock t ∧ beijingClock t < nanoDay := by
  have hsec := secondOfDay_lt beijingZone (t / 1000000000)
  unfold beijingClock nanoDay
  omega

/-- An instant cut to its millisecond is its clock on its own day. -/
theorem toMillis_stamp (t : Int) : toMillis t = stamp t t := by
  rw [toMillis_eq]
  unfold stamp beijingDay beijingClock secondOfDay beijingZone nanoDay nanoHour
  omega

/-- The first sum of `next`. -/
theorem exchTime_of_carries {d : DepthMarketData} {t : Int} (h : d.Carries t) (localTime : Int) :
    exchTime localTime d =
      let s := toLong ((toLong (localTime + 8 * nanoHour)).tdiv nanoDay * nanoDay +
        beijingClock t - 8 * nanoHour)
      if toLong (localTime + 2 * nanoHour) < s then toLong (s - nanoDay)
      else if s < toLong (localTime - 20 * nanoHour) then toLong (s + nanoDay)
      else s := by
  have hsec := (secondOfDay_lt beijingZone (t / 1000000000)).1
  unfold exchTime
  rw [h.updateTime, h.updateMillisec, getSeconds_cast, getSeconds_clockStr, Int.toNat_of_nonneg hsec]
  rw [add_assoc (_ * nanoDay), ← beijingClock]

/-! ## Telling the day -/

section

variable {localTime t : Int}

/-- The day of a local time that overflows with its zone is the first of the range. -/
theorem overflown_day (h₀ : localTime ≤ longMax) (h₁ : longMax < localTime + 8 * nanoHour) :
    (toLong (localTime + 8 * nanoHour)).tdiv nanoDay = -106751 := by
  have hneg : toLong (localTime + 8 * nanoHour) = -(2 * (longMax + 1) - (localTime + 8 * nanoHour)) := by
    rw [toLong_of_gt h₁ (by unfold longMax nanoHour at *; omega)]
    omega
  rw [hneg, Int.neg_tdiv, Int.tdiv_eq_ediv_of_nonneg (by unfold longMax nanoHour at *; omega)]
  unfold longMax nanoHour nanoDay at *
  omega

theorem local_day (h₀ : nanoDay ≤ localTime) (h₁ : localTime + 8 * nanoHour ≤ longMax) :
    (toLong (localTime + 8 * nanoHour)).tdiv nanoDay = beijingDay localTime := by
  rw [toLong_of_mem (by unfold longMax nanoHour nanoDay at *; omega) h₁,
    Int.tdiv_eq_ediv_of_nonneg (by unfold nanoHour nanoDay at *; omega), beijingDay]

/-- Within the delays the instant is on the day of the local time or on one beside it,
and the two thresholds tell these apart. -/
theorem shift_stamp (h : Delayed localTime t) :
    (if localTime + 2 * nanoHour < stamp localTime t then stamp localTime t - nanoDay
      else if stamp localTime t < localTime - 20 * nanoHour then stamp localTime t + nanoDay
      else stamp localTime t) = toMillis t ↔
      (beijingDay t = beijingDay localTime → localTime - 20 * nanoHour ≤ toMillis t) := by
  obtain ⟨hday, -, hlate, hearly⟩ := h
  have hclock := beijingClock_lt t
  have hcut : toMillis t ≤ t ∧ t < toMillis t + 1000000 := by
    unfold toMillis
    omega
  have hown := toMillis_stamp t
  unfold stamp at *
  have hdays : beijingDay localTime - 1 ≤ beijingDay t ∧ beijingDay t ≤ beijingDay localTime + 1 := by
    unfold beijingDay nanoDay nanoHour at *
    omega
  have hlocal : beijingDay localTime * nanoDay ≤ localTime + 8 * nanoHour ∧
      localTime + 8 * nanoHour < beijingDay localTime * nanoDay + nanoDay := by
    unfold beijingDay nanoDay
    omega
  generalize beijingDay t = d at *
  generalize beijingDay localTime = e at *
  generalize beijingClock t = c at *
  unfold nanoDay nanoHour at *
  split
  · omega
  · split <;> omega

theorem stamp_bounds (h : nanoDay ≤ localTime) :
    0 ≤ stamp localTime t ∧ stamp localTime t < localTime + nanoDay := by
  have hclock := beijingClock_lt t
  unfold stamp beijingDay nanoDay nanoHour at *
  omega

/-- Where the zone overflows, the clock is put on the first day of the range, and no
shift of a day makes up for it: a day does not divide `2 ^ 64`. -/
theorem exchTime_of_overflown (h : Delayed localTime t) (hzone : longMax < localTime + 8 * nanoHour)
    {d : DepthMarketData} (hd : d.Carries t) : exchTime localTime d ≠ toMillis t := by
  obtain ⟨-, hmax, hlate, -⟩ := h
  have hclock := beijingClock_lt t
  have hcut : t < toMillis t + 1000000 := by
    unfold toMillis
    omega
  have hown : toMillis t = beijingDay t * nanoDay + beijingClock t - 8 * nanoHour := toMillis_stamp t
  rw [exchTime_of_carries hd, overflown_day hmax hzone]
  obtain ⟨s, hs⟩ : ∃ s, s = -106751 * nanoDay + beijingClock t - 8 * nanoHour := ⟨_, rfl⟩
  have hlong : toLong s = s :=
    toLong_of_mem (by unfold longMax nanoDay nanoHour at *; omega)
      (by unfold longMax nanoDay nanoHour at *; omega)
  have hlow : toLong (localTime - 20 * nanoHour) = localTime - 20 * nanoHour :=
    toLong_of_mem (by unfold longMax nanoHour at *; omega) (by unfold longMax nanoHour at *; omega)
  have hbelow : s < localTime - 20 * nanoHour := by
    unfold longMax nanoDay nanoHour at *
    omega
  have hup : toLong (s + nanoDay) = s + nanoDay :=
    toLong_of_mem (by unfold longMax nanoDay nanoHour at *; omega)
      (by unfold longMax nanoDay nanoHour at *; omega)
  rw [← hs]
  dsimp only
  rw [hlong, hlow, if_pos hbelow, hup]
  clear hlong hlow hup
  generalize beijingDay t = e at *
  generalize beijingClock t = c at *
  generalize toMillis t = u at *
  split
  · by_cases hunder : -(longMax + 1) ≤ s - nanoDay
    · rw [toLong_of_mem hunder (by unfold longMax nanoDay nanoHour at *; omega)]
      unfold longMax nanoDay nanoHour at *
      omega
    · rw [toLong_of_lt (by unfold longMax nanoDay nanoHour at *; omega) (by omega)]
      unfold longMax nanoDay nanoHour at *
      omega
  · unfold longMax nanoDay nanoHour at *
    omega

theorem exchTime_iff (h : Delayed localTime t) {d : DepthMarketData} (hd : d.Carries t) :
    exchTime localTime d = toMillis t ↔ Datable localTime t := by
  by_cases hzone : localTime + 8 * nanoHour ≤ longMax
  · obtain ⟨hpos, hlt⟩ := stamp_bounds (t := t) h.day_le
    have hday := h.day_le
    have hmillis : localTime - 20 * nanoHour - 1000000 < toMillis t := by
      have hlate := h.late
      unfold toMillis
      omega
    rw [exchTime_of_carries hd, local_day h.day_le hzone, ← stamp,
      toLong_of_mem (n := localTime + 2 * nanoHour) (by unfold longMax nanoDay nanoHour at *; omega)
        (by unfold nanoHour at *; omega),
      toLong_of_mem (n := localTime - 20 * nanoHour) (by unfold longMax nanoDay nanoHour at *; omega)
        (by unfold nanoHour at *; omega)]
    by_cases hstamp : stamp localTime t ≤ longMax
    · have hshift := shift_stamp h
      rw [toLong_of_mem (by unfold longMax at *; omega) hstamp]
      dsimp only
      rw [toLong_of_mem (n := stamp localTime t - nanoDay) (by unfold longMax nanoDay at *; omega)
        (by unfold nanoDay at *; omega)]
      by_cases hlow : stamp localTime t < localTime - 20 * nanoHour
      · rw [toLong_of_mem (n := stamp localTime t + nanoDay) (by unfold longMax nanoDay at *; omega)
          (by unfold nanoDay nanoHour at *; omega), hshift]
        exact ⟨fun hcut => ⟨hzone, hstamp, hcut⟩, fun hdat => hdat.cut⟩
      · rw [if_neg hlow] at hshift ⊢
        rw [hshift]
        exact ⟨fun hcut => ⟨hzone, hstamp, hcut⟩, fun hdat => hdat.cut⟩
    · refine iff_of_false ?_ fun hdat => hstamp hdat.stamp_le
      rw [toLong_of_gt (by omega) (by unfold longMax nanoDay nanoHour at *; omega)]
      dsimp only
      rw [if_neg (by unfold longMax nanoDay nanoHour at *; omega),
        if_pos (by unfold longMax nanoDay nanoHour at *; omega),
        toLong_of_mem (by unfold longMax nanoDay nanoHour at *; omega)
          (by unfold longMax nanoDay nanoHour at *; omega)]
      unfold longMax nanoDay nanoHour at *
      omega
  · exact iff_of_false (exchTime_of_overflown h (by omega) hd) fun hdat => hzone hdat.zone_le

end

/-! ## Reading a file of ticks -/

variable {L : Layout}

/-- The exchange times that `n` calls of `next` read. -/
def exchTimes (L : Layout) : Nat → CWareHouseFileCursor → List Int
  | 0, _ => []
  | n + 1, c => (c.next L).2.umd.exchTime :: exchTimes L n (c.next L).2

/-- A record and the instant of its tick. -/
abbrev Dated (L : Layout) := Record L × Int

structure Dumped (p : Dated L) : Prop where
  delayed : Delayed p.1.localTime p.2
  carries : (L.depth p.1.body).Carries p.2

theorem umd_exchTime (r : Record L) : r.umd.exchTime = exchTime r.localTime (L.depth r.body) := by
  rw [Record.umd, Layout.marketData]

theorem exchTimes_records {ps : List (Dated L)} {c : CWareHouseFileCursor} {bytes : List UInt8}
    (hrest : c.rest = ps.flatMap (fun p => p.1.bytes) ++ bytes) :
    exchTimes L ps.length c = ps.map fun p => exchTime p.1.localTime (L.depth p.1.body) := by
  induction ps generalizing c with
  | nil => rfl
  | cons p ps ih =>
    rw [List.flatMap_cons, List.append_assoc] at hrest
    rw [List.length_cons, exchTimes, next_cons hrest, ih rfl, List.map_cons, umd_exchTime]

/-- What is read is the instants cut to the millisecond exactly when every tick is
datable, and then their order is that of the instants. -/
theorem exchTimes_dated (ps : List (Dated L)) (c : CWareHouseFileCursor) (bytes : List UInt8)
    (hrest : c.rest = ps.flatMap (fun p => p.1.bytes) ++ bytes) (hps : ∀ p ∈ ps, Dumped p) :
    (exchTimes L ps.length c = ps.map (fun p => toMillis p.2) ↔
      ∀ p ∈ ps, Datable p.1.localTime p.2) ∧
    ((∀ p ∈ ps, Datable p.1.localTime p.2) →
      ∀ a ∈ ps.zip (exchTimes L ps.length c), ∀ b ∈ ps.zip (exchTimes L ps.length c),
        a.1.2 ≤ b.1.2 → a.2 ≤ b.2) := by
  have hiff : exchTimes L ps.length c = ps.map (fun p => toMillis p.2) ↔
      ∀ p ∈ ps, Datable p.1.localTime p.2 := by
    rw [exchTimes_records hrest, List.map_inj_left]
    exact forall₂_congr fun p hp => exchTime_iff (hps p hp).delayed (hps p hp).carries
  refine ⟨hiff, fun hdat a ha b hb hab => ?_⟩
  have hzip : ps.zip (exchTimes L ps.length c) = ps.map fun p => (p, toMillis p.2) := by
    rw [hiff.mpr hdat]
    nth_rewrite 1 [← List.map_id ps]
    exact List.zip_map'
  rw [hzip, List.mem_map] at ha hb
  obtain ⟨p, -, rfl⟩ := ha
  obtain ⟨q, -, rfl⟩ := hb
  exact toMillis_mono hab

/-- Bodies of the clock and the milliseconds alone. -/
def clockLayout : Layout :=
  { bodySize := 11, instSize := 1, bodySize_pos := by decide, hash := fun _ => 0
    depth := fun body =>
      { instrumentID := "rb", lastPrice := 0, volume := 0, turnover := 0, averagePrice := 0
        askPrice1 := 0, askVolume1 := 0, bidPrice1 := 0, bidVolume1 := 0, openInterest := 0
        updateTime := (body.take 9).map fun c => (c.toNat : Int)
        updateMillisec := ofLe (body.drop 9) } }

theorem length_clockHead (localTime : Nat) : (leBytes 8 localTime).length = headSize :=
  length_leBytes 8 localTime

def clockTick (localTime t : Nat) : Record clockLayout :=
  { head := leBytes 8 localTime
    body := (clockStr (secondOfDay beijingZone (t / 1000000000 : Nat)).toNat).map UInt8.ofNat ++
      leBytes 2 (t % 1000000000 / 1000000)
    head_length := length_clockHead localTime
    body_length := by rw [List.length_append, List.length_map, length_leBytes]; rfl }

/-- Beijing time, 1 August 2018: a tick of 23:59:58.5 read after midnight, and one of
0:00:00. -/
theorem exchTimes_dated_midnight :
    exchTimes clockLayout 2
        { file := "", tradingDate := "20180802", instCnt := 0
          rest := (clockTick 1533139200100000000 1533139198500000000).bytes ++
            (clockTick 1533139200200000000 1533139200000000000).bytes } =
      [1533139198500000000, 1533139200000000000] := by
  refine (exchTimes_dated [(clockTick 1533139200100000000 1533139198500000000, 1533139198500000000),
    (clockTick 1533139200200000000 1533139200000000000, 1533139200000000000)] _ [] ?_ ?_).1.mpr ?_
  · rw [List.append_nil]
    rfl
  · refine List.forall_mem_cons.mpr ⟨⟨?_, ?_⟩, List.forall_mem_singleton.mpr ⟨?_, ?_⟩⟩
    · exact ⟨by decide +kernel, by decide +kernel, by decide +kernel, by decide +kernel⟩
    · exact ⟨by decide +kernel, by decide +kernel⟩
    · exact ⟨by decide +kernel, by decide +kernel, by decide +kernel, by decide +kernel⟩
    · exact ⟨by decide +kernel, by decide +kernel⟩
  · refine List.forall_mem_cons.mpr ⟨?_, List.forall_mem_singleton.mpr ?_⟩
    · exact ⟨by decide +kernel, by decide +kernel, fun _ => by decide +kernel⟩
    · exact ⟨by decide +kernel, by decide +kernel, fun _ => by decide +kernel⟩

/-- Beijing time, 2 August 2018: the tick of the first nanosecond of the day, dumped
twenty hours later, is dated a day late. -/
theorem exchTime_of_cut :
    ¬∀ (L : Layout) (r : Record L) (t : Int) (c : CWareHouseFileCursor) (bytes : List UInt8),
      c.rest = r.bytes ++ bytes → Delayed r.localTime t → (L.depth r.body).Carries t →
        (c.next L).2.umd.exchTime = toMillis t := by
  intro h
  have hcut := h clockLayout (clockTick 1533211200000000001 1533139200000000001) 1533139200000000001
    { file := "", tradingDate := "20180802", instCnt := 0
      rest := (clockTick 1533211200000000001 1533139200000000001).bytes ++ [] } [] rfl
    ⟨by decide +kernel, by decide +kernel, by decide +kernel, by decide +kernel⟩
    ⟨by decide +kernel, by decide +kernel⟩
  revert hcut
  decide +kernel

end NatFramework.Common
