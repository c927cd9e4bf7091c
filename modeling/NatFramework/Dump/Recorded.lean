import NatFramework.Dump.FileMgr

/-!
# Reading back what the dumper wrote

* `fileImage_head`: the reader finds of a head what was put into it.
* `replay_keys`: the ticks of a choice of files.
* `recorded`: the files of all instruments give what was received, and so do those of
  the products together.
-/
namespace NatFramework.Dump

open Lib Common

variable {L : Layout} {warehouse : String} {d : Disk} {s : Process L} {wr : List (FileKey × Tick L)}

/-! ## A file -/

theorem textOf_append {bs : List UInt8} (h : 0 ∈ bs) (rest : List UInt8) : textOf (bs ++ rest) = textOf bs := by
  obtain ⟨a, b, rfl, ha⟩ := List.eq_append_cons_of_mem h
  have hall : ∀ x ∈ a, decide (x ≠ 0) = true := fun x hx => decide_eq_true fun hx0 => ha (hx0 ▸ hx)
  unfold textOf
  rw [List.append_assoc, List.takeWhile_append_of_pos hall, List.takeWhile_append_of_pos hall, List.cons_append,
    List.takeWhile_cons_of_neg (by simp), List.takeWhile_cons_of_neg (by simp)]

theorem fileImage_head (hs : s.HeadOk) {instrs : List (Instrument L)} (hcnt : instrs.length < 2 ^ 31)
    (rest : List UInt8) :
    fileImage (s.head instrs ++ rest) =
      some { tradingDate := s.day, instCnt := instrs.length, bytes := instrs.flatMap Instrument.bytes ++ rest } := by
  have hfront : (leBytes 4 1 ++ leBytes 4 1 ++ leBytes 4 101 ++ s.pad16).length = 28 := by
    simp [hs.pad16]
  have hlen : (leBytes 4 1 ++ leBytes 4 1 ++ leBytes 4 101 ++ s.pad16 ++ s.tradingDate ++ s.pad32 ++
      leBytes 4 instrs.length).length = fileHeadSize := by
    simp [hs.pad16, hs.pad32, hs.date, fileHeadSize]
  have hdate : (leBytes 4 1 ++ leBytes 4 1 ++ leBytes 4 101 ++ s.pad16 ++ s.tradingDate ++ s.pad32 ++
      leBytes 4 instrs.length).drop 28 = s.tradingDate ++ (s.pad32 ++ leBytes 4 instrs.length) := by
    rw [List.append_assoc, List.append_assoc, ← hfront, List.drop_left]
  have hinst : (leBytes 4 1 ++ leBytes 4 1 ++ leBytes 4 101 ++ s.pad16 ++ s.tradingDate ++ s.pad32 ++
      leBytes 4 instrs.length).drop 76 = leBytes 4 instrs.length := by
    have h76 : (leBytes 4 1 ++ leBytes 4 1 ++ leBytes 4 101 ++ s.pad16 ++ s.tradingDate ++ s.pad32).length = 76 := by
      simp [hs.pad16, hs.pad32, hs.date]
    rw [← h76, List.drop_left]
  have hint : Int.bmod (instrs.length : Int) (2 ^ 32) = instrs.length :=
    Int.bmod_eq_of_le (by omega) (by omega)
  unfold fileImage Process.head
  dsimp only
  rw [List.append_assoc _ (instrs.flatMap Instrument.bytes), ← hlen, List.take_left, List.drop_left, if_neg (by simp),
    hdate, hinst, textOf_append hs.nul, ofLe_leBytes_of_lt (by omega), hint]
  rfl

def Tick.record (t : Tick L) : Record L :=
  { head := t.head, body := t.body, head_length := length_leBytes _ _, body_length := t.body_length }

/-- What the client sees of it again. -/
def Tick.replay (day : String) (t : Tick L) : ReplayTick :=
  { tradingDay := day, localTime := t.localTime, data := L.marketData t.localTime (L.depth t.body) }

/-- A time that a clock can show. -/
def Tick.Dated (t : Tick L) : Prop := 0 ≤ t.localTime ∧ t.localTime < longMax

theorem Tick.Dated.record {t : Tick L} (h : t.Dated) : t.record.localTime = t.localTime := by
  obtain ⟨hpos, hlt⟩ := h
  unfold longMax at hlt
  have hcast : (((t.localTime % 2 ^ 64).toNat : Nat) : Int) = t.localTime := by omega
  have hrange : (t.localTime % 2 ^ 64).toNat < 256 ^ 8 := by omega
  unfold Record.localTime Tick.record Tick.head
  rw [ofLe_leBytes_of_lt hrange, hcast]
  exact Int.bmod_eq_of_le (by omega) (by omega)

theorem ticksOf_records {ts : List (Tick L)} (h : ∀ t ∈ ts, t.Dated) (day : String) :
    ticksOf day (ts.map Tick.record) = ts.map (Tick.replay day) := by
  unfold ticksOf
  rw [List.map_map]
  refine List.map_congr_left fun t ht => ?_
  unfold Tick.replay
  dsimp only [Function.comp_apply]
  rw [Record.umd, (h t ht).record]
  rfl

/-- A file that is there, for the reader. -/
theorem Formed.image {day : String} {bs : List UInt8} {ts : List (Tick L)} (h : Formed day bs ts)
    (hdated : ∀ t ∈ ts, t.Dated) (hsorted : ts.Pairwise fun a b => a.localTime ≤ b.localTime) :
    fileImage bs = none ∧ ts = [] ∨
      ∃ f : WareHouseFile L, fileImage bs = some f.image ∧ f.ticks = ts.map (Tick.replay day) ∧
        ∀ r ∈ f.records, r.localTime < longMax := by
  cases h with
  | absent => exact .inl ⟨rfl, rfl⟩
  | @file s instrs ts hday hs hcnt =>
    refine .inr ⟨
      { tradingDate := s.day, infos := instrs.map Instrument.bytes, records := ts.map Tick.record
        infos_length := ?_, sorted := ?_ }, ?_, ?_, ?_⟩
    · intro i hi
      obtain ⟨x, -, rfl⟩ := List.mem_map.mp hi
      exact x.bytes_length
    · refine List.pairwise_map.mpr (hsorted.imp_of_mem fun {a b} ha hb hle => ?_)
      rwa [(hdated a ha).record, (hdated b hb).record]
    · rw [fileImage_head hs hcnt]
      simp [WareHouseFile.image, List.flatMap_def, Record.bytes, Tick.record, Function.comp_def]
    · rw [← hday]
      exact ticksOf_records hdated s.day
    · intro r hr
      obtain ⟨t, ht, rfl⟩ := List.mem_map.mp hr
      rw [(hdated t ht).record]
      exact (hdated t ht).2

/-! ## A choice of files -/

/-- The ticks of a file. -/
def ticksIn (wr : List (FileKey × Tick L)) (k : FileKey) : List (Tick L) := (wr.filter fun x => x.1 = k).map Prod.snd

theorem Holds.files (h : Holds warehouse d wr) {keys : List FileKey} (hplain : ∀ k ∈ keys, k.Plain warehouse)
    (hdated : ∀ x ∈ wr, x.2.Dated)
    (hsorted : ∀ k ∈ keys, (ticksIn wr k).Pairwise fun a b => a.localTime ≤ b.localTime) :
    ∃ ws : List (WareHouseFile L), (keys.map (FileKey.name warehouse)).filterMap d.files = ws.map WareHouseFile.image ∧
      TimesBelow ws ∧
      mergeAll ReplayTick.key (ws.map WareHouseFile.ticks) =
        mergeAll ReplayTick.key (keys.map fun k => (ticksIn wr k).map (Tick.replay k.day)) := by
  induction keys with
  | nil => exact ⟨[], rfl, fun w hw => absurd hw List.not_mem_nil, rfl⟩
  | cons k keys ih =>
    obtain ⟨ws, hws, htimes, hmerge⟩ := ih (fun k' hk' => hplain k' (List.mem_cons_of_mem k hk'))
      fun k' hk' => hsorted k' (List.mem_cons_of_mem k hk')
    have hin : ∀ t ∈ ticksIn wr k, t.Dated := by
      intro t ht
      obtain ⟨x, hx, rfl⟩ := List.mem_map.mp ht
      exact hdated x (List.mem_of_mem_filter hx)
    rw [List.map_cons, List.map_cons, mergeAll_cons, ← hmerge]
    rcases (h k (hplain k List.mem_cons_self)).image hin (hsorted k List.mem_cons_self) with
      ⟨hnone, hnil⟩ | ⟨f, hsome, hticks, hbelow⟩
    · refine ⟨ws, ?_, htimes, ?_⟩
      · rw [List.filterMap_cons_none (f := d.files) hnone, hws]
      · rw [ticksIn, hnil, List.map_nil, List.nil_merge]
    · refine ⟨f :: ws, ?_, ?_, ?_⟩
      · rw [List.filterMap_cons_some (f := d.files) hsome, hws]
        rfl
      · intro w hw
        rcases List.mem_cons.mp hw with rfl | hw
        · exact hbelow
        · exact htimes w hw
      · rw [List.map_cons, mergeAll_cons, hticks]
        rfl

/-- Two ticks of the reader: of one file, or apart. -/
def Apart (a b : FileKey × ReplayTick) : Prop := a.2.key ≤ b.2.key ∧ (a.1 ≠ b.1 → a.2.key < b.2.key)

def replayOf (x : FileKey × Tick L) : FileKey × ReplayTick := (x.1, x.2.replay x.1.day)

/-- What the reader gives of the files that it is asked for. -/
theorem replay_keys (h : Holds warehouse d wr) {keys : List FileKey} (hkeys : keys.Nodup)
    (hplain : ∀ k ∈ keys, k.Plain warehouse) (hdated : ∀ x ∈ wr, x.2.Dated)
    (hapart : ((wr.filter fun x => x.1 ∈ keys).map replayOf).Pairwise Apart)
    {dates : String → String → List String} {patterns : List String} {startDay endDay : String}
    (hnames : fileNames dates patterns startDay endDay = keys.map (FileKey.name warehouse)) :
    ∃ r, CWareHouseReader.loadFiles L d.files dates patterns startDay endDay {} = .ok r ∧
      Replays L r ((wr.filter fun x => x.1 ∈ keys).map fun x => x.2.replay x.1.day) := by
  have hone : ∀ k ∈ keys, (wr.filter fun x => x.1 = k) =
      (wr.filter fun x => x.1 ∈ keys).filter fun x => x.1 = k := by
    intro k hk
    rw [List.filter_filter]
    refine List.filter_congr fun x _ => ?_
    by_cases hx : x.1 = k
    · simp [hx, hk]
    · simp [hx]
  have hsorted : ∀ k ∈ keys, (ticksIn wr k).Pairwise fun a b => a.localTime ≤ b.localTime := by
    intro k hk
    unfold ticksIn
    rw [hone k hk, List.pairwise_map]
    refine ((List.pairwise_map.mp hapart).sublist List.filter_sublist).imp_of_mem fun {a b} ha hb hab => ?_
    have hak := of_decide_eq_true (List.mem_filter.mp ha).2
    have hbk := of_decide_eq_true (List.mem_filter.mp hb).2
    have hle := hab.1
    unfold replayOf Tick.replay ReplayTick.key at hle
    dsimp only at hle
    rw [hak, hbk, Prod.Lex.toLex_le_toLex] at hle
    exact hle.elim (fun hlt => absurd hlt (lt_irrefl _)) And.right
  obtain ⟨ws, hws, htimes, hmerge⟩ := h.files hplain hdated hsorted
  rw [← hnames] at hws
  obtain ⟨r, ps, hload, hreads, hgive, -⟩ := loadFiles_spec (r := {}) hws htimes rfl
  refine ⟨r, hload, ?_⟩
  have hparts : (keys.map fun k => (ticksIn wr k).map (Tick.replay k.day)) =
      keys.map fun k => (((wr.filter fun x => x.1 ∈ keys).map replayOf).filter fun x => x.1 = k).map Prod.snd := by
    refine List.map_congr_left fun k hk => ?_
    unfold ticksIn
    rw [hone k hk, List.filter_map, List.map_map, List.map_map]
    refine List.map_congr_left fun x hx => ?_
    rw [← of_decide_eq_true (List.mem_filter.mp hx).2]
    rfl
  have hall : toGive ps = ((wr.filter fun x => x.1 ∈ keys).map replayOf).map Prod.snd := by
    rw [hgive, hmerge, hparts]
    refine mergeAll_parts hkeys (fun x hx => ?_) hapart
    obtain ⟨y, hy, rfl⟩ := List.mem_map.mp hx
    exact of_decide_eq_true (List.mem_filter.mp hy).2
  have hreplays := replays_toGive hreads
  rwa [hall, List.map_map] at hreplays

/-! ## All that was received -/

/-- What the processes have received. -/
def received (warehouse : String) (ss : List (Process L)) : List ReplayTick :=
  ss.flatMap fun s => if s.starts warehouse then s.ticks.map (Tick.replay s.day) else []

/-- A choice that has every tick of the days once. -/
def Once (days : List String) (keys : List FileKey) (s : Process L) : Prop :=
  ∀ t ∈ s.ticks, (FileKey.allOf s.day ∈ keys ∧ s.tickKey t ∉ keys ∨ FileKey.allOf s.day ∉ keys ∧ s.tickKey t ∈ keys) ∧
      s.day ∈ days ∨
    (FileKey.allOf s.day ∉ keys ∧ s.tickKey t ∉ keys) ∧ s.day ∉ days

theorem picked {ss : List (Process L)} {days : List String} {keys : List FileKey} (h : ∀ s ∈ ss, Once days keys s) :
    (((ss.flatMap (Process.writes warehouse)).filter fun x => x.1 ∈ keys).map fun x => x.2.replay x.1.day) =
      (received warehouse ss).filter fun t => t.tradingDay ∈ days := by
  have htick : ∀ s ∈ ss, ∀ t ∈ s.ticks,
      (([(FileKey.allOf s.day, t), (s.tickKey t, t)].filter fun x => x.1 ∈ keys).map fun x => x.2.replay x.1.day) =
        [t.replay s.day].filter fun t => t.tradingDay ∈ days := by
    intro s hs t ht
    have hday : (t.replay s.day).tradingDay = s.day := rfl
    have hkey : (s.tickKey t).day = s.day := rfl
    rcases h s hs t ht with ⟨⟨hall, hprd⟩ | ⟨hall, hprd⟩, hin⟩ | ⟨⟨hall, hprd⟩, hout⟩
    · simp [hall, hprd, hday, hin, FileKey.day]
    · simp [hall, hprd, hday, hkey, hin]
    · simp [hall, hprd, hday, hout]
  have hticks : ∀ s ∈ ss, ∀ ts : List (Tick L), (∀ t ∈ ts, t ∈ s.ticks) →
      (((ts.flatMap fun t => [(FileKey.allOf s.day, t), (s.tickKey t, t)]).filter fun x => x.1 ∈ keys).map
          fun x => x.2.replay x.1.day) =
        (ts.map (Tick.replay s.day)).filter fun t => t.tradingDay ∈ days := by
    intro s hs ts
    induction ts with
    | nil => exact fun _ => rfl
    | cons t ts ih =>
      intro hts
      rw [List.flatMap_cons, List.filter_append, List.map_append, htick s hs t (hts t List.mem_cons_self),
        ih fun t' ht' => hts t' (List.mem_cons_of_mem t ht'), ← List.filter_append]
      rfl
  unfold received
  induction ss with
  | nil => rfl
  | cons s ss ih =>
    rw [List.flatMap_cons, List.flatMap_cons, List.filter_append, List.filter_append, List.map_append,
      ih (fun s' hs' => h s' (List.mem_cons_of_mem s hs')) (fun s' hs' => htick s' (List.mem_cons_of_mem s hs'))
        fun s' hs' => hticks s' (List.mem_cons_of_mem s hs')]
    congr 1
    unfold Process.writes
    split
    · exact hticks s List.mem_cons_self s.ticks fun _ ht => ht
    · rfl

theorem dated_writes {ss : List (Process L)} (h : ∀ s ∈ ss, ∀ t ∈ s.ticks, t.Dated) :
    ∀ x ∈ ss.flatMap (Process.writes warehouse), x.2.Dated := by
  intro x hx
  obtain ⟨s, hs, hx⟩ := List.mem_flatMap.mp hx
  unfold Process.writes at hx
  split at hx
  · obtain ⟨t, ht, hx⟩ := List.mem_flatMap.mp hx
    rcases List.mem_cons.mp hx with rfl | hx
    · exact h s hs t ht
    · rw [List.mem_singleton.mp hx]
      exact h s hs t ht
  · exact absurd hx List.not_mem_nil

/-- The reader gives the ticks of the days, if there is one file a day or one time a tick. -/
theorem replay_once {ss : List (Process L)} {days : List String} {keys : List FileKey}
    (hd : Holds warehouse d (ss.flatMap (Process.writes warehouse))) (hdated : ∀ s ∈ ss, ∀ t ∈ s.ticks, t.Dated)
    (honce : ∀ s ∈ ss, Once days keys s) (hkeys : keys.Nodup) (hplain : ∀ k ∈ keys, k.Plain warehouse)
    (hsorted : (received warehouse ss).Pairwise fun a b => a.key ≤ b.key)
    (hapart : (∀ k ∈ keys, ∀ k' ∈ keys, k.day = k'.day → k = k') ∨
      (received warehouse ss).Pairwise fun a b => a.key < b.key)
    {dates : String → String → List String} {patterns : List String} {startDay endDay : String}
    (hnames : fileNames dates patterns startDay endDay = keys.map (FileKey.name warehouse)) :
    ∃ r, CWareHouseReader.loadFiles L d.files dates patterns startDay endDay {} = .ok r ∧
      Replays L r ((received warehouse ss).filter fun t => t.tradingDay ∈ days) := by
  have hpicked := @picked L warehouse ss days keys honce
  rw [← hpicked]
  refine replay_keys hd hkeys hplain (dated_writes hdated) (List.pairwise_map.mpr ?_) hnames
  rcases hapart with hone | hstrict
  · have hle := hsorted.sublist (List.filter_sublist (p := fun t => t.tradingDay ∈ days))
    rw [← hpicked, List.pairwise_map] at hle
    refine hle.imp_of_mem fun {a b} ha hb hab => ⟨hab, fun hne => lt_of_le_of_ne hab fun heq => hne ?_⟩
    exact hone _ (of_decide_eq_true (List.mem_filter.mp ha).2) _ (of_decide_eq_true (List.mem_filter.mp hb).2)
      (congrArg (fun k => (ofLex k).1) heq)
  · have hlt := hstrict.sublist (List.filter_sublist (p := fun t => t.tradingDay ∈ days))
    rw [← hpicked, List.pairwise_map] at hlt
    exact hlt.imp fun hab => ⟨le_of_lt hab, fun _ => hab⟩

/-- The files of all instruments. -/
theorem once_all (s : Process L) (days : List String) : Once days (days.map FileKey.allOf) s := by
  intro t _
  have hprd : s.tickKey t ∉ days.map FileKey.allOf := by simp [Process.tickKey, Process.prdKey]
  by_cases hin : s.day ∈ days
  · exact .inl ⟨.inl ⟨List.mem_map_of_mem hin, hprd⟩, hin⟩
  · exact .inr ⟨⟨by simpa using hin, hprd⟩, hin⟩

/-- The files of the products, each with its exchange. -/
def prdKeys (prds : List (String × String)) (days : List String) : List FileKey :=
  prds.flatMap fun p => days.map fun day => .prdOf p.1 p.2 day

theorem mem_prdKeys {prds : List (String × String)} {days : List String} {k : FileKey} :
    k ∈ prdKeys prds days ↔ ∃ p ∈ prds, ∃ day ∈ days, FileKey.prdOf p.1 p.2 day = k := by
  simp [prdKeys]

theorem nodup_prdKeys {prds : List (String × String)} {days : List String} (hprds : prds.Nodup) (hdays : days.Nodup) :
    (prdKeys prds days).Nodup := by
  refine List.nodup_flatMap.mpr ⟨fun p _ => hdays.map fun a b hab => (FileKey.prdOf.inj hab).2.2, ?_⟩
  refine hprds.imp fun {p q} hpq k hp hq => hpq ?_
  obtain ⟨day, -, rfl⟩ := List.mem_map.mp hp
  obtain ⟨day', -, heq⟩ := List.mem_map.mp hq
  obtain ⟨hexch, hprd, -⟩ := FileKey.prdOf.inj heq
  exact Prod.ext hexch.symm hprd.symm

theorem once_prds (hs : s.Valid warehouse) {prds : List (String × String)} {days : List String}
    (hcover : s.day ∈ days → ∀ prd ∈ s.order, (s.maps.mapPrdExch prd, prd) ∈ prds) :
    Once days (prdKeys prds days) s := by
  intro t ht
  have hall : FileKey.allOf s.day ∉ prdKeys prds days := by simp [prdKeys]
  by_cases hin : s.day ∈ days
  · exact .inl ⟨.inr ⟨hall, mem_prdKeys.mpr ⟨_, hcover hin _ (hs.product ht), s.day, hin, rfl⟩⟩, hin⟩
  · refine .inr ⟨⟨hall, fun hmem => ?_⟩, hin⟩
    obtain ⟨p, -, day, hday, heq⟩ := mem_prdKeys.mp hmem
    exact hin ((FileKey.prdOf.inj heq).2.2 ▸ hday)

/-- **What was received is replayed.** Any processes one behind the other, also several of
one day, with files that cannot be opened: the files of all instruments of some days give the
ticks of these days, in their order. So do the files of the products of these days, when no
two ticks have one time. -/
theorem recorded (L : Layout) (warehouse : String) (ss : List (Process L)) (days : List String)
    (hs : ∀ s ∈ ss, s.Valid warehouse) (hdated : ∀ s ∈ ss, ∀ t ∈ s.ticks, t.Dated)
    (hsorted : (received warehouse ss).Pairwise fun a b => a.key ≤ b.key) (hdays : days.Nodup)
    (hplain : ∀ day ∈ days, (FileKey.allOf day).Plain warehouse) :
    ∃ d, runAll warehouse ss (fun _ => []) = some d ∧
      (∀ dates patterns startDay endDay,
        fileNames dates patterns startDay endDay = days.map (allFile warehouse) →
        ∃ r, CWareHouseReader.loadFiles L d.files dates patterns startDay endDay {} = .ok r ∧
          Replays L r ((received warehouse ss).filter fun t => t.tradingDay ∈ days)) ∧
      ∀ (prds : List (String × String)) (dates : String → String → List String) (patterns : List String)
        (startDay endDay : String), prds.Nodup →
        (∀ p ∈ prds, ∀ day ∈ days, (FileKey.prdOf p.1 p.2 day).Plain warehouse) →
        (∀ s ∈ ss, s.day ∈ days → ∀ prd ∈ s.order, (s.maps.mapPrdExch prd, prd) ∈ prds) →
        ((received warehouse ss).Pairwise fun a b => a.key < b.key) →
        fileNames dates patterns startDay endDay =
          (prds.flatMap fun p => days.map fun day => prdFile warehouse p.1 p.2 day) →
        ∃ r, CWareHouseReader.loadFiles L d.files dates patterns startDay endDay {} = .ok r ∧
          Replays L r ((received warehouse ss).filter fun t => t.tradingDay ∈ days) := by
  obtain ⟨d, hrun, hd⟩ := runAll_spec (d := fun _ => []) hs holds_empty
  rw [List.nil_append] at hd
  refine ⟨d, hrun, fun dates patterns startDay endDay hnames => ?_,
    fun prds dates patterns startDay endDay hprds hprdPlain hcover hstrict hnames => ?_⟩
  · refine replay_once hd hdated (fun s _ => once_all s days) (hdays.map fun a b hab => FileKey.allOf.inj hab) ?_
      hsorted (.inl ?_) (hnames.trans (by rw [List.map_map]; rfl))
    · intro k hk
      obtain ⟨day, hday, rfl⟩ := List.mem_map.mp hk
      exact hplain day hday
    · intro k hk k' hk' heq
      obtain ⟨day, -, rfl⟩ := List.mem_map.mp hk
      obtain ⟨day', -, rfl⟩ := List.mem_map.mp hk'
      exact congrArg FileKey.allOf heq
  · refine replay_once hd hdated (fun s hmem => once_prds (hs s hmem) (hcover s hmem)) (nodup_prdKeys hprds hdays) ?_
      hsorted (.inr hstrict) (hnames.trans (by simp [prdKeys, List.map_flatMap, Function.comp_def, FileKey.name]))
    intro k hk
    obtain ⟨p, hp, day, hday, rfl⟩ := mem_prdKeys.mp hk
    exact hprdPlain p hp day hday

/-! ### A process that is started again -/

def rb : Instrument byteLayout := { instrStr := "rb", exchStr := "SHFE", prdStr := "rb", bytes := [0], bytes_length := rfl }

def rbTick (nano : Int) : Tick byteLayout := { localTime := nano, body := [2], body_length := rfl }

def tradingDate : List UInt8 := [50, 48, 49, 56, 48, 56, 48, 50] ++ List.replicate 8 0

def life (ticks : List (Tick byteLayout)) : Process byteLayout :=
  { tradingDate := tradingDate, instrs := [rb], order := ["rb"], opens := fun _ => true
    pad16 := List.replicate 16 7, pad32 := List.replicate 32 7, ticks := ticks }

def twoLives : List (Process byteLayout) := [life [rbTick 5], life [rbTick 6]]

theorem life_day (ticks : List (Tick byteLayout)) : (life ticks).day = "20180802" :=
  show textOf tradingDate = "20180802" by decide +kernel

theorem plain_all : (FileKey.allOf "20180802").Plain "w" := ⟨by decide, by decide⟩

theorem plain_rb : (FileKey.prdOf "SHFE" "rb" "20180802").Plain "w" := ⟨by decide, by decide, by decide⟩

theorem life_valid (ticks : List (Tick byteLayout)) : (life ticks).Valid "w" where
  headOk :=
    { date := show tradingDate.length = 16 by decide, nul := show 0 ∈ tradingDate by decide
      pad16 := List.length_replicate, pad32 := List.length_replicate }
  count := show 1 < 2 ^ 31 by decide
  order prd := by simp [life, rb, eq_comm]
  all := (life_day ticks).symm ▸ plain_all
  prds i hi := by
    rw [List.mem_singleton.mp hi]
    exact (life_day ticks).symm ▸ plain_rb
  known _ _ := ⟨rb, List.mem_singleton_self rb, rfl⟩

theorem recorded_restart :
    ∃ d, runAll "w" twoLives (fun _ => []) = some d ∧
      ∀ dates patterns startDay endDay,
        fileNames dates patterns startDay endDay = [allFile "w" "20180802"] ∨
          fileNames dates patterns startDay endDay = [prdFile "w" "SHFE" "rb" "20180802"] →
        ∃ r, CWareHouseReader.loadFiles byteLayout d.files dates patterns startDay endDay {} = .ok r ∧
          Replays byteLayout r [(rbTick 5).replay "20180802", (rbTick 6).replay "20180802"] := by
  have hreceived : received "w" twoLives = [(rbTick 5).replay "20180802", (rbTick 6).replay "20180802"] := by
    have hstarts : ∀ ticks, (life ticks).starts "w" = true := fun _ => rfl
    simp only [received, twoLives, List.flatMap_cons, List.flatMap_nil, hstarts, if_true, life_day]
    rfl
  have hstrict : (received "w" twoLives).Pairwise fun a b => a.key < b.key := by
    rw [hreceived]
    refine List.pairwise_pair.mpr (Prod.Lex.toLex_lt_toLex.mpr (.inr ⟨rfl, ?_⟩))
    exact show (5 : Int) < 6 by decide
  have hlives : ∀ s ∈ twoLives, ∃ ticks, s = life ticks ∧ ∀ t ∈ ticks, t.Dated := by
    intro s hs
    rcases List.mem_cons.mp hs with rfl | hs
    · exact ⟨_, rfl, fun t ht => List.mem_singleton.mp ht ▸ ⟨by decide, by decide⟩⟩
    · exact ⟨_, List.mem_singleton.mp hs, fun t ht => List.mem_singleton.mp ht ▸ ⟨by decide, by decide⟩⟩
  obtain ⟨d, hrun, hfiles, hprds⟩ := recorded byteLayout "w" twoLives ["20180802"]
    (fun s hs => (hlives s hs).elim fun ticks h => h.1 ▸ life_valid ticks)
    (fun s hs => (hlives s hs).elim fun ticks h => h.1 ▸ h.2) (hstrict.imp le_of_lt) (List.nodup_singleton _)
    (fun day hday => List.mem_singleton.mp hday ▸ plain_all)
  have hall : (received "w" twoLives).filter (fun t => t.tradingDay ∈ ["20180802"]) =
      [(rbTick 5).replay "20180802", (rbTick 6).replay "20180802"] := by
    rw [hreceived]
    rfl
  rw [hall] at hfiles hprds
  refine ⟨d, hrun, fun dates patterns startDay endDay hnames => ?_⟩
  rcases hnames with hnames | hnames
  · exact hfiles dates patterns startDay endDay hnames
  · refine hprds [("SHFE", "rb")] dates patterns startDay endDay (List.nodup_singleton _) (fun p hp day hday => ?_)
      (fun s hs _ prd hprd => ?_) hstrict hnames
    · rw [List.mem_singleton.mp hp, List.mem_singleton.mp hday]
      exact plain_rb
    · obtain ⟨ticks, rfl, -⟩ := hlives s hs
      rw [List.mem_singleton.mp hprd]
      exact List.mem_singleton_self _

end NatFramework.Dump
