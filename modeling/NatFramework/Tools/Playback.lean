import NatFramework.Tools.Converted

/-!
# Playing back what was converted

A day without a tick has its base information at `LONG_MAX - 10000000000`, behind any end
time, and there `CMDHelperReplayIo` stops.

* `wanted`: the ticks of days that are subscribed.
* `played`: those of the days before the first without a tick are given, in order and once
  each.
-/
namespace NatFramework.Tools

open Lib Common Io Md CMDHelperReplayIo

/-- `cmd` is in front of what is written. -/
structure MergerParams.Commands (P : MergerParams) : Prop where
  tick : ∀ data, ofLe ((P.tick data).take 4) = ioMarketData
  info : ∀ day infos, ofLe ((P.baseInfo day infos).take 4) = ioTdRspBaseInfo

section Wanted

variable (R : ReplayParams) (P : MergerParams)

/-- Of the ticks those that are subscribed. -/
def seen (subs : UInt32 → Bool) (ts : List ReplayTick) : List (List UInt8) :=
  (ts.map fun t => P.tick t.data).filter fun bytes => subs (R.hashOf bytes)

/-- Of the days, each with what its base information makes of the subscription. -/
def wanted : (UInt32 → Bool) → List TradingDay → List (List UInt8)
  | _, [] => []
  | subs, d :: ds =>
    let subs := R.onInfo (P.baseInfo d.day d.infos) subs
    seen R P subs d.ticks ++ wanted subs ds

/-- The days before the first without a tick. -/
def beforeDull (ds : List TradingDay) : List TradingDay := ds.takeWhile fun d => !d.ticks.isEmpty

end Wanted

variable {R : ReplayParams} {P : MergerParams} {lag : Nat} {endNano : Int} {subs : UInt32 → Bool}
  {fs fs' : List Frame} {ds : List TradingDay} {d : TradingDay} {put : Put} {f : Frame}

/-- A time between the epoch and the end. -/
def InTime (lag : Nat) (endNano : Int) (t : ReplayTick) : Prop :=
  10000000000 ≤ t.localTime ∧ t.localTime + lag ≤ endNano

theorem Stamped.le_end (h : Stamped lag put f) (hpos : 0 ≤ put.nano) (hle : put.nano + lag ≤ endNano)
    (hend : endNano + 10000000000 < longMax) : ¬endNano < f.nano := by
  obtain ⟨-, e, he, htime⟩ := h
  unfold longMax at hend
  omega

theorem Stamped.end_lt (h : Stamped lag put f) (hnano : put.nano = longMax - 10000000000) (hlag : lag < 2 ^ 63)
    (hend : endNano + 10000000000 < longMax) : endNano < f.nano := by
  obtain ⟨-, e, he, htime⟩ := h
  unfold longMax at hnano hend
  omega

theorem stamped_append {puts puts' : List Put} (h : List.Forall₂ (Stamped lag) (puts ++ puts') fs) :
    ∃ fs₁ fs₂, List.Forall₂ (Stamped lag) puts fs₁ ∧ List.Forall₂ (Stamped lag) puts' fs₂ ∧ fs = fs₁ ++ fs₂ :=
  ⟨_, _, (List.forall₂_take_append _ _ _ h.flip).flip, (List.forall₂_drop_append _ _ _ h.flip).flip,
    (List.take_append_drop _ _).symm⟩

/-- The ticks of a day, and what comes behind them. -/
theorem play_ticks (hP : P.Commands) {ts : List ReplayTick}
    (h : List.Forall₂ (Stamped lag) (ts.map (TradingDay.tickPut P)) fs) (hts : ∀ t ∈ ts, InTime lag endNano t)
    (hend : endNano + 10000000000 < longMax) :
    (play R endNano subs (fs ++ fs')).map Frame.data =
      seen R P subs ts ++ (play R endNano subs fs').map Frame.data := by
  induction ts generalizing fs with
  | nil =>
    cases h
    rfl
  | cons t ts ih =>
    rw [List.map_cons] at h
    cases h with
    | @cons _ f _ fs hstamp hstamps =>
      obtain ⟨hpos, hle⟩ := hts t List.mem_cons_self
      have hin := hstamp.le_end (by unfold TradingDay.tickPut; dsimp only; omega) hle hend
      have hdata : f.data = P.tick t.data := hstamp.1
      have hcmd : cmdOf f = ioMarketData := by
        rw [cmdOf, hdata, hP.tick]
      have hrest := ih hstamps fun t' ht' => hts t' (List.mem_cons_of_mem t ht')
      unfold seen at hrest ⊢
      rw [List.cons_append, play, if_neg hin, if_pos hcmd, List.map_cons, ← hdata]
      by_cases hsub : subs (R.hashOf f.data) = true
      · rw [if_pos hsub, List.filter_cons_of_pos (p := fun bytes => subs (R.hashOf bytes)) hsub, List.map_cons, hrest]
        rfl
      · rw [if_neg hsub, List.filter_cons_of_neg (p := fun bytes => subs (R.hashOf bytes)) hsub, hrest]

/-- The base information of a day that has a tick is within the time. -/
theorem Stamped.info_inTime (h : Stamped lag (d.infoPut P) f) (hts : ∀ t ∈ d.ticks, InTime lag endNano t)
    (hne : d.ticks ≠ []) (hend : endNano + 10000000000 < longMax) : ¬endNano < f.nano := by
  obtain ⟨t, ts, hticks⟩ := List.exists_cons_of_ne_nil hne
  obtain ⟨hpos, hle⟩ := hts t (hticks ▸ List.mem_cons_self)
  have hnano : (d.infoPut P).nano = t.localTime - 10000000000 := by
    rw [TradingDay.infoPut, TradingDay.first, hticks]
    rfl
  exact h.le_end (by omega) (by omega) hend

/-- That of a day without a tick is behind the end. -/
theorem Stamped.info_dull (h : Stamped lag (d.infoPut P) f) (hnil : d.ticks = []) (hlag : lag < 2 ^ 63)
    (hend : endNano + 10000000000 < longMax) : endNano < f.nano := by
  have hnano : (d.infoPut P).nano = longMax - 10000000000 := by
    rw [TradingDay.infoPut, TradingDay.first, hnil]
    rfl
  exact h.end_lt hnano hlag hend

theorem beforeDull_nil (hnil : d.ticks = []) : beforeDull (d :: ds) = [] := by
  rw [beforeDull, List.takeWhile_cons, hnil]
  rfl

theorem beforeDull_cons (hne : d.ticks ≠ []) : beforeDull (d :: ds) = d :: beforeDull ds := by
  rw [beforeDull, List.takeWhile_cons, if_pos (by simpa using hne)]
  rfl

/-- Whole days, up to the first without a tick. -/
theorem play_days (hP : P.Commands) (h : List.Forall₂ (Stamped lag) (ds.flatMap (TradingDay.puts P)) fs)
    (hds : ∀ d ∈ ds, ∀ t ∈ d.ticks, InTime lag endNano t) (hlag : lag < 2 ^ 63)
    (hend : endNano + 10000000000 < longMax) :
    (play R endNano subs fs).map Frame.data = wanted R P subs (beforeDull ds) := by
  induction ds generalizing fs subs with
  | nil =>
    cases h
    rfl
  | cons d ds ih =>
    rw [List.flatMap_cons, TradingDay.puts, List.cons_append] at h
    have hd := hds d List.mem_cons_self
    cases h with
    | @cons _ f _ fs hstamp hstamps =>
      rw [play]
      by_cases hnil : d.ticks = []
      · rw [if_pos (hstamp.info_dull hnil hlag hend), beforeDull_nil hnil]
        rfl
      · have hin := hstamp.info_inTime hd hnil hend
        have hdata : f.data = P.baseInfo d.day d.infos := hstamp.1
        have hcmd : cmdOf f = ioTdRspBaseInfo := by
          rw [cmdOf, hdata, hP.info]
        obtain ⟨fs₁, fs₂, hticks, hrest, rfl⟩ := stamped_append hstamps
        rw [if_neg hin, if_neg (by rw [hcmd]; decide), if_pos hcmd, play_ticks hP hticks hd hend,
          ih hrest fun d' hd' => hds d' (List.mem_cons_of_mem d hd'), beforeDull_cons hnil, wanted, hdata]

/-! ## From the scan on -/

variable {g : PageGroup} {fss : List (List Frame)} {r : CRawIOReader} {out : List Frame} {fuel : Nat}

/-- Without base information before the end there is nothing to play. -/
theorem scan_none (hc : g.Carries fss) (h : r.Reads g fss out) (hfuel : out.length < fuel)
    (hnone : afterInfo endNano out = none) : ∃ r', scan g endNano fuel r = some (r', false) := by
  induction out generalizing fuel r with
  | nil =>
    obtain ⟨fuel, rfl⟩ : ∃ k, fuel = k + 1 := ⟨fuel - 1, by omega⟩
    obtain ⟨hnil, -⟩ := CRawIOReader.read_spec hc h
    rw [scan]
    cases hread : r.read g with
    | mk r₁ fo =>
      rw [hread] at hnil
      subst hnil
      exact ⟨r₁, rfl⟩
  | cons f out ih =>
    obtain ⟨fuel, rfl⟩ : ∃ k, fuel = k + 1 := ⟨fuel - 1, by omega⟩
    obtain ⟨hsome, hreads⟩ := CRawIOReader.read_spec hc h
    rw [afterInfo] at hnone
    rw [scan]
    cases hread : r.read g with
    | mk r₁ fo =>
      rw [hread] at hsome hreads
      subst hsome
      dsimp only [List.head?_cons]
      split_ifs at hnone ⊢ with hfar hinfo
      · exact ⟨r₁, rfl⟩
      · exact ih hreads (Nat.lt_of_succ_lt_succ hfuel) hnone

/-- The scan stops behind the base information of the first day, if this has a tick. -/
theorem afterInfo_days (hP : P.Commands) (h : List.Forall₂ (Stamped lag) ((d :: ds).flatMap (TradingDay.puts P)) fs)
    (hd : ∀ t ∈ d.ticks, InTime lag endNano t) (hlag : lag < 2 ^ 63) (hend : endNano + 10000000000 < longMax) :
    (d.ticks = [] → afterInfo endNano fs = none) ∧
      (d.ticks ≠ [] → ∃ rest, afterInfo endNano fs = some rest ∧
        List.Forall₂ (Stamped lag) (d.ticks.map (TradingDay.tickPut P) ++ ds.flatMap (TradingDay.puts P)) rest) := by
  rw [List.flatMap_cons, TradingDay.puts, List.cons_append] at h
  cases h with
  | @cons _ f _ fs hstamp hstamps =>
    rw [afterInfo]
    refine ⟨fun hnil => ?_, fun hne => ?_⟩
    · rw [if_pos (hstamp.info_dull hnil hlag hend)]
    · have hin := hstamp.info_inTime hd hne hend
      have hcmd : cmdOf f = ioTdRspBaseInfo := by
        rw [cmdOf, hstamp.1, TradingDay.infoPut, hP.info]
      exact ⟨fs, by rw [if_neg hin, if_pos hcmd], hstamps⟩

/-- **The converted pages are played back** up to the first day without a tick. A strategy
that asks often enough is given of each day before it the ticks that are subscribed, in the
order of `CWareHouseReader` and once each, and nothing else; if there is no such day, the
scan fails. -/
theorem played {L : Layout} {names : List String} {fs : CWareHouseReader.FileSystem} {ws : List (WareHouseFile L)}
    (P : MergerParams) (R : ReplayParams) (hP : P.Commands) (hws : names.map fs = ws.map fun w => some w.image)
    (htick : ∀ data, Fits (P.tick data)) (hinfo : ∀ day, Fits (P.baseInfo day (infosOn ws day)))
    {elapsed : Nat → Nat → Nat} {lag : Nat} (hlag : ∀ n k, elapsed n k ≤ lag) (hlong : lag < 2 ^ 63) (nano : Nat)
    {endNano : Int} (hend : endNano + 10000000000 < longMax) (hws' : ∀ w ∈ ws, ∀ t ∈ w.ticks, InTime lag endNano t) :
    ∃ w ds fss, ctpdump2mmap L P fs names elapsed nano = some w ∧ DaysOf ws ds ∧ w.group.Carries fss ∧
      w.group.first = 0 ∧ List.Forall₂ (Stamped lag) (ds.flatMap (TradingDay.puts P)) fss.flatten ∧
      ∀ (r : CRawIOReader) (fuel : Nat), r.Reads w.group fss fss.flatten → fss.flatten.length < fuel →
        (beforeDull ds = [] → ∃ r', scan w.group endNano fuel r = some (r', false)) ∧
        ∀ d ds', beforeDull ds = d :: ds' → ∀ subs waitCount es,
          let all := seen R P subs d.ticks ++ wanted R P subs ds'
          ∃ r' s' got, scan w.group endNano fuel r = some (r', true) ∧
            run R w.group fuel { reader := r', subs := subs, endNano := endNano, waitCount := waitCount } es =
              some (s', got) ∧
            got.map Frame.data <+: all ∧ (s'.hasFinish = true → got.map Frame.data = all) ∧
            (max 0 waitCount + 51 * all.length + bumps es < reads es → s'.hasFinish = true) := by
  have htimes : TimesBelow ws := by
    intro w hw x hx
    have hin := (hws' w hw _ (List.mem_map_of_mem hx)).2
    dsimp only at hin
    omega
  obtain ⟨w, ds, fss, hmap, hcarries, hfirst, hstamps, hdays⟩ := convert_spec P hws htimes htick hinfo hlag nano
  have hticks : ∀ d ∈ ds, ∀ t ∈ d.ticks, InTime lag endNano t := by
    intro d hd t ht
    have hmem : t ∈ ds.flatMap TradingDay.ticks := List.mem_flatMap.mpr ⟨d, hd, ht⟩
    rw [hdays.all] at hmem
    obtain ⟨q, hq, htq⟩ := mem_mergeAll.mp hmem
    obtain ⟨x, hx, rfl⟩ := List.mem_map.mp hq
    exact hws' x hx t htq
  refine ⟨w, ds, fss, hmap, hdays, hcarries, hfirst, hstamps, fun r fuel hreads hfuel => ?_⟩
  generalize fss.flatten = out at hstamps hreads hfuel
  cases ds with
  | nil =>
    cases hstamps
    exact ⟨fun _ => scan_none hcarries hreads hfuel rfl, fun d ds' hd => (nomatch hd)⟩
  | cons d ds =>
    obtain ⟨hdull, hplayed⟩ := afterInfo_days hP hstamps (hticks d List.mem_cons_self) hlong hend
    by_cases hnil : d.ticks = []
    · rw [beforeDull_nil hnil]
      exact ⟨fun _ => scan_none hcarries hreads hfuel (hdull hnil), fun d' ds' hd => (nomatch hd)⟩
    · rw [beforeDull_cons hnil]
      refine ⟨fun hnone => (nomatch hnone), fun d' ds' hd subs waitCount es => ?_⟩
      obtain ⟨rfl, rfl⟩ := List.cons.inj hd
      obtain ⟨rest, hrest, hstamps'⟩ := hplayed hnil
      obtain ⟨fs₁, fs₂, hnow, hlater, rfl⟩ := stamped_append hstamps'
      obtain ⟨r', hscan, hreads', hlen⟩ := scan_spec hcarries hreads hfuel hrest
      obtain ⟨s', got, hrun, hfront, hall, hmany, -⟩ :=
        run_play (P := R) hcarries hreads' (Nat.lt_trans hlen hfuel) endNano subs waitCount es
      have hplay : (play R endNano subs (fs₁ ++ fs₂)).map Frame.data =
          seen R P subs d.ticks ++ wanted R P subs (beforeDull ds) := by
        rw [play_ticks hP hnow (hticks d List.mem_cons_self) hend,
          play_days hP hlater (fun x hx => hticks x (List.mem_cons_of_mem d hx)) hlong hend]
      refine ⟨r', s', got, hscan, hrun, ?_, fun hfin => ?_, fun hreads => hmany ?_⟩
      · rw [← hplay]
        exact hfront.map Frame.data
      · rw [← hplay, hall hfin]
      · rwa [← hplay, List.length_map] at hreads

/-! ### One file of one tick -/

theorem byte_commands : byteParams.Commands where
  tick data := by
    unfold byteParams
    dsimp only
    rw [List.take_left' (length_leBytes 4 1)]
    decide
  info day infos := by
    unfold byteParams
    dsimp only
    rw [List.take_left' (length_leBytes 4 13)]
    decide

theorem played_one :
    ∃ w fuel r' s' got,
      ctpdump2mmap byteLayout byteParams (fun _ => some tickTwo.image) ["a"] (fun n _ => n % 9) 3 = some w ∧
      scan w.group 30000000000 fuel { pageNum := 0 } = some (r', true) ∧
      run ⟨fun _ => 70, fun _ subs => subs⟩ w.group fuel
        { reader := r', subs := fun h => h = 70, endNano := 30000000000 } (List.replicate 52 (.read 2)) =
          some (s', got) ∧
      got.map Frame.data = [[1, 0, 0, 0, 1, 0, 0, 0]] := by
  have hws : ∀ w ∈ [tickTwo], w = tickTwo := by simp
  obtain ⟨w, ds, fss, hmap, hdays, hcarries, hfirst, -, hplayed⟩ := played byteParams
    ⟨fun _ => 70, fun _ subs => subs⟩ byte_commands
    (show ["a"].map (fun _ => some tickTwo.image) = [tickTwo].map fun w => some w.image from rfl)
    byte_fits (tickTwo_infos hws)
    (show ∀ n k : Nat, (fun n _ => n % 9 : Nat → Nat → Nat) n k ≤ 8 from fun n _ => by dsimp only; omega)
    (by decide) 3 (show (30000000000 : Int) + 10000000000 < longMax by decide) (by
      intro w hw t ht
      rw [hws w hw] at ht
      rw [List.mem_singleton.mp ht]
      exact ⟨by decide +kernel, by decide +kernel⟩)
  -- the one day
  have hall : ds.flatMap TradingDay.ticks = tickTwo.ticks := by
    rw [hdays.all, List.map_cons, List.map_nil, mergeAll_cons, mergeAll_nil, List.merge_right]
  have hday : ∀ d ∈ ds, d.day = "20180802" := by
    intro d hd
    obtain ⟨x, hx, hxd⟩ := (hdays.mem d.day).mp (List.mem_map_of_mem hd)
    rw [← hxd, List.mem_singleton.mp hx]
    rfl
  obtain ⟨d, rfl⟩ : ∃ d, ds = [d] := by
    cases ds with
    | nil => cases hall
    | cons d ds =>
      cases ds with
      | nil => exact ⟨d, rfl⟩
      | cons d' ds =>
        have hlt := (List.pairwise_cons.mp hdays.sorted).1 d' List.mem_cons_self
        rw [hday d List.mem_cons_self, hday d' (List.mem_cons_of_mem d List.mem_cons_self)] at hlt
        exact absurd hlt (lt_irrefl _)
  rw [List.flatMap_singleton] at hall
  have hne : d.ticks ≠ [] := by
    rw [hall]
    exact List.cons_ne_nil _ _
  have hreads : CRawIOReader.Reads w.group fss { pageNum := 0 } fss.flatten := by
    refine .inr ⟨rfl, ?_⟩
    rw [CRawIOReader.framesFrom, hfirst]
    rfl
  obtain ⟨r', s', got, hscan, hrun, -, hfin, hmany⟩ := (hplayed { pageNum := 0 } (fss.flatten.length + 1) hreads
    (Nat.lt_succ_self _)).2 d [] (beforeDull_cons hne) (fun h => h = 70) 0 (List.replicate 52 (.read 2))
  rw [hall] at hfin hmany
  refine ⟨w, _, r', s', got, hmap, hscan, hrun, (hfin (hmany ?_)).trans ?_⟩
  · decide +kernel
  · decide +kernel

end NatFramework.Tools
