import NatFramework.Common.Replay

/-!
# From the files of the dumper to pages

`tools/ctpdump2mmap` merges files of the dumper as `CWareHouseReader` does, and writes
what it finds to the pages of an engine: of each day the base information, ten seconds
before the first tick, and then the ticks.

* `MergerParams`: the bytes of the base information and of a tick.
* `run`: what the clock is set to and what is written, one behind the other.
* `run_spec`: a day is its base information and its ticks, the days follow each other,
  and the ticks are those that `CWareHouseReader` gives.
-/
namespace NatFramework.Tools

open Lib Common

/-- `CTimer::setTime`, and the `write` behind it. -/
structure Put where
  nano : Int
  data : List UInt8

/-- `baseInfo` is `toSysIOStruct` behind a day and its instruments, `tick` a `tIOMarketData`. -/
structure MergerParams where
  baseInfo : String → List (List UInt8) → List UInt8
  tick : MarketData → List UInt8

/-- mirrors tools/ctpdump2mmap.cpp:250-252 -/
structure CMerger where
  files : List CWareHouseFileCursor
  curTradingDay : String := ""

/-- What `getInstrumentInfo` reads where the file has enough. -/
def readInfos (L : Layout) : Nat → List UInt8 → List (List UInt8)
  | 0, _ => []
  | n + 1, bytes => bytes.take L.instSize :: readInfos L n (bytes.drop L.instSize)

/-- The instruments of a day, in the order of the files. -/
def instrumentsOf (L : Layout) (day : String) (files : List CWareHouseFileCursor) : List (List UInt8) :=
  (files.filter fun c => day = c.tradingDate).flatMap fun c => readInfos L c.instCnt.toNat c.rest

/-- The time of the first tick of the day. mirrors tools/ctpdump2mmap.cpp:161-177 -/
def minNano (day : String) (files : List CWareHouseFileCursor) : Int :=
  files.foldl (fun nano c => if day = c.tradingDate ∧ c.localTime < nano then c.localTime else nano) longMax

namespace CMerger

variable (L : Layout) (P : MergerParams)

/-- mirrors tools/ctpdump2mmap.cpp:145-202 -/
def switchDay (m : CMerger) : Except String (CMerger × List Put) :=
  match m.files with
  | [] => .ok (m, [])
  | c :: cs =>
    let day := earliestDay c.tradingDate cs
    match openDay L day m.files with
    | .error e => .error e
    | .ok files =>
      .ok ({ files := files, curTradingDay := day },
        [{ nano := minNano day files - 10000000000, data := P.baseInfo day (instrumentsOf L day m.files) }])

/-- mirrors tools/ctpdump2mmap.cpp:206-238 -/
def merge (m : CMerger) : Except String (CMerger × List Put) :=
  match searchTick m.curTradingDay m.files 0 (longMax, none) with
  | (localTime, some i) =>
    .ok ({ m with files := nextOf L i m.files },
      (m.files[i]?.map fun c => { nano := localTime, data := P.tick c.umd }).toList)
  | (_, none) => m.switchDay L P

def size (m : CMerger) : Nat := filesSize m.files

variable {L P} {m m' : CMerger} {puts : List Put}

theorem switchDay_size (hfiles : m.files ≠ []) (h : m.switchDay L P = .ok (m', puts)) : m'.size < m.size := by
  unfold switchDay at h
  split at h
  · rename_i hnil
    exact absurd hnil hfiles
  · rename_i c cs hcons
    dsimp only at h
    split at h
    · cases h
    · rename_i files hopen
      rw [Except.ok.injEq, Prod.mk.injEq] at h
      rw [← h.1]
      refine (openDay_size hopen).2 ?_
      rw [hcons]
      rcases earliestDay_mem c.tradingDate cs with hday | ⟨x, hx, hday⟩
      · exact ⟨c, List.mem_cons_self, hday⟩
      · exact ⟨x, List.mem_cons_of_mem c hx, hday⟩

theorem merge_size (hfiles : m.files ≠ []) (h : m.merge L P = .ok (m', puts)) : m'.size < m.size := by
  unfold merge at h
  split at h
  · rename_i localTime i hsearch
    have hlt : i < m.files.length :=
      CWareHouseReader.searchTick_lt (r := (longMax, none)) (fun _ hj => by cases hj) (Nat.le_of_eq (Nat.zero_add _))
        (congrArg Prod.snd hsearch)
    rw [Except.ok.injEq, Prod.mk.injEq] at h
    rw [← h.1]
    exact CWareHouseReader.nextOf_size hlt
  · exact switchDay_size hfiles h

/-- The loop of `run`, with what it has thrown.
mirrors tools/ctpdump2mmap.cpp:244-246 -/
def loop (L : Layout) (P : MergerParams) (m : CMerger) : List Put × Option String :=
  if hfiles : m.files = [] then ([], none)
  else
    match h : m.merge L P with
    | .error e => ([], some e)
    | .ok (m', puts) =>
      have := merge_size hfiles h
      let r := loop L P m'
      (puts ++ r.1, r.2)
termination_by m.size

/-- mirrors tools/ctpdump2mmap.cpp:240-247 -/
def run (L : Layout) (P : MergerParams) (m : CMerger) : List Put × Option String :=
  match m.switchDay L P with
  | .error e => ([], some e)
  | .ok (m, puts) =>
    let r := loop L P m
    (puts ++ r.1, r.2)

end CMerger

/-! ## Days -/

/-- A trading day: what is read of its instruments, and its ticks. -/
structure TradingDay where
  day : String
  infos : List (List UInt8)
  ticks : List ReplayTick

namespace TradingDay

/-- The time of its first tick. -/
def first (d : TradingDay) : Int := (d.ticks.head?.map ReplayTick.localTime).getD longMax

def infoPut (P : MergerParams) (d : TradingDay) : Put :=
  { nano := d.first - 10000000000, data := P.baseInfo d.day d.infos }

def tickPut (P : MergerParams) (t : ReplayTick) : Put := { nano := t.localTime, data := P.tick t.data }

def puts (P : MergerParams) (d : TradingDay) : List Put := d.infoPut P :: d.ticks.map (tickPut P)

end TradingDay

/-- The days of files that nothing has been read of. -/
structure Spans (L : Layout) (files : List CWareHouseFileCursor) (ds : List TradingDay) : Prop where
  sorted : ds.Pairwise fun d d' => d.day < d'.day
  mem : ∀ day, day ∈ ds.map TradingDay.day ↔ ∃ c ∈ files, c.tradingDate = day
  infos : ∀ d ∈ ds, d.infos = instrumentsOf L d.day files
  ticks : ∀ d ∈ ds, ∀ t ∈ d.ticks, t.tradingDay = d.day

variable {L : Layout} {P : MergerParams}

theorem minNano_eq (day : String) (files : List CWareHouseFileCursor) :
    minNano day files = (searchTick day files 0 (longMax, none)).1 := by
  have hfold : ∀ (files : List CWareHouseFileCursor) (i : Nat) (r : Int × Option Nat),
      files.foldl (fun nano c => if day = c.tradingDate ∧ c.localTime < nano then c.localTime else nano) r.1 =
        (searchTick day files i r).1 := by
    intro files
    induction files with
    | nil => exact fun _ _ => rfl
    | cons c cs ih =>
      intro i r
      rw [List.foldl_cons, searchTick, ← ih]
      split <;> rfl
  exact hfold files 0 (longMax, none)

theorem next_tradingDate (c : CWareHouseFileCursor) : (c.next L).2.tradingDate = c.tradingDate := by
  unfold CWareHouseFileCursor.next
  dsimp only
  split
  · rfl
  · split
    · rfl
    · split
      · rfl
      · split <;> rfl

theorem getInstrumentInfo_tradingDate {c c' : CWareHouseFileCursor} (h : c.getInstrumentInfo L = .ok c') :
    c'.tradingDate = c.tradingDate := by
  have hskip : ∀ (n : Nat) (c : CWareHouseFileCursor), CWareHouseFileCursor.skipInfos L n c = .ok c' →
      c'.tradingDate = c.tradingDate := by
    clear h
    intro n
    induction n with
    | zero =>
      intro c h
      rw [CWareHouseFileCursor.skipInfos, Except.ok.injEq] at h
      rw [h]
    | succ n ih =>
      intro c h
      rw [CWareHouseFileCursor.skipInfos] at h
      split at h
      · cases h
      · exact (ih _ h).trans rfl
  exact hskip _ c h

/-- The files of later days stay as they are. -/
theorem openDay_later {day : String} {cs cs' : List CWareHouseFileCursor} (h : openDay L day cs = .ok cs') :
    (cs'.filter fun c => day < c.tradingDate) = cs.filter fun c => day < c.tradingDate := by
  induction cs generalizing cs' with
  | nil =>
    rw [openDay, Except.ok.injEq] at h
    rw [← h]
  | cons c cs ih =>
    rw [openDay] at h
    split at h
    · rename_i hday
      have hnot : ¬day < c.tradingDate := by
        rw [← hday]
        exact lt_irrefl _
      split at h
      · cases h
      · rename_i c₁ hinfo
        dsimp only at h
        split at h
        · cases h
        · rename_i cs₁ hopen
          rw [Except.ok.injEq] at h
          rw [← h, List.filter_cons_of_neg (by simpa using hnot)]
          split
          · exact ih hopen
          · rw [List.filter_cons_of_neg, ih hopen]
            rw [next_tradingDate, getInstrumentInfo_tradingDate hinfo]
            simpa using hnot
    · split at h
      · cases h
      · rename_i cs₁ hopen
        rw [Except.ok.injEq] at h
        rw [← h, List.filter_cons, List.filter_cons, ih hopen]

theorem nextOf_later {day : String} {files : List CWareHouseFileCursor} {i : Nat} {c : CWareHouseFileCursor}
    (hget : files[i]? = some c) (hday : c.tradingDate = day) :
    ((nextOf L i files).filter fun c => day < c.tradingDate) = files.filter fun c => day < c.tradingDate := by
  obtain ⟨l₁, l₂, rfl, rfl⟩ : ∃ l₁ l₂, files = l₁ ++ c :: l₂ ∧ l₁.length = i := by
    obtain ⟨hi, hc⟩ := List.getElem?_eq_some_iff.mp hget
    refine ⟨files.take i, files.drop (i + 1), ?_, List.length_take_of_le (Nat.le_of_lt hi)⟩
    rw [← hc, ← List.drop_eq_getElem_cons hi, List.take_append_drop]
  have hnot : ¬day < c.tradingDate := by
    rw [hday]
    exact lt_irrefl _
  unfold nextOf
  rw [hget]
  dsimp only
  split
  · rw [List.eraseIdx_append_of_length_le (Nat.le_refl _), Nat.sub_self, List.eraseIdx_cons_zero,
      List.filter_append, List.filter_append, List.filter_cons_of_neg (by simpa using hnot)]
  · have hnot' : ¬day < (c.next L).2.tradingDate := by
      rwa [next_tradingDate]
    rw [List.set_append_right _ _ (Nat.le_refl _), Nat.sub_self, List.set_cons_zero, List.filter_append,
      List.filter_append, List.filter_cons_of_neg (by simpa using hnot'), List.filter_cons_of_neg (by simpa using hnot)]

/-! ## What is written -/

variable {cur : String} {files : List CWareHouseFileCursor} {ps : List (CWareHouseFileCursor × List ReplayTick)}
  {now : List ReplayTick} {ds : List TradingDay}

/-- Nothing is left of the day. -/
theorem later_of_none (h : PendingAll L cur ps)
    (hnone : (searchTick cur (ps.map Prod.fst) 0 (longMax, none)).2 = none) :
    ∀ p ∈ ps, cur < p.1.tradingDate := by
  intro p hp
  rcases searchTick_spec cur (ps.map Prod.fst) 0 (longMax, none) with ⟨-, hlate⟩ | ⟨l₁, c, l₂, -, -, -, hsome, -, -⟩
  · rcases h p hp with ⟨hcur, rs, -, hlt, -⟩ | ⟨hlater, -⟩
    · exact absurd (hlate p.1 (List.mem_map_of_mem hp) hcur.symm) (not_le.mpr hlt)
    · exact hlater
  · rw [hsome] at hnone
    cases hnone

/-- A queue has the day of its file. -/
theorem day_of_pending {c : CWareHouseFileCursor} {q : List ReplayTick} (h : Pending L cur c q) :
    ∀ t ∈ q, t.tradingDay = c.tradingDate := by
  have hticks : ∀ rs : List (Record L), ∀ t ∈ ticksOf c.tradingDate rs, t.tradingDay = c.tradingDate := by
    intro rs t ht
    obtain ⟨r, -, rfl⟩ := List.mem_map.mp ht
    rfl
  intro t ht
  rcases h with ⟨-, rs, -, -, rfl, -⟩ | ⟨-, infos, rs, -, -, -, rfl, -⟩
  · rcases List.mem_cons.mp ht with rfl | ht
    · rfl
    · exact hticks rs t ht
  · exact hticks rs t ht

/-- What is still to be written, from the middle of a day on. -/
structure Writes (L : Layout) (P : MergerParams) (cur : String) (ps : List (CWareHouseFileCursor × List ReplayTick))
    (out : List Put) (now : List ReplayTick) (ds : List TradingDay) : Prop where
  written : out = now.map (TradingDay.tickPut P) ++ ds.flatMap (TradingDay.puts P)
  gives : toGive ps = now ++ ds.flatMap TradingDay.ticks
  today : ∀ t ∈ now, t.tradingDay = cur
  later : Spans L ((ps.map Prod.fst).filter fun c => cur < c.tradingDate) ds

variable {out : List Put}

/-- The ticks of later days are later. -/
theorem Spans.cur_lt (h : Spans L (files.filter fun c => cur < c.tradingDate) ds) :
    ∀ t ∈ ds.flatMap TradingDay.ticks, cur < t.tradingDay := by
  intro t ht
  obtain ⟨d, hd, ht⟩ := List.mem_flatMap.mp ht
  obtain ⟨c, hc, hday⟩ := (h.mem d.day).mp (List.mem_map_of_mem hd)
  rw [h.ticks d hd t ht, ← hday]
  exact of_decide_eq_true (List.mem_filter.mp hc).2

/-- The search finds the first tick of the day, if it has one. -/
theorem Writes.first (h : Writes L P cur ps out now ds) (hpending : PendingAll L cur ps) :
    (now.head?.map ReplayTick.localTime).getD longMax = minNano cur (ps.map Prod.fst) := by
  rw [minNano_eq]
  cases now with
  | nil =>
    -- a tick that is found is of the day, and those of later days are not
    rcases searchTick_spec cur (ps.map Prod.fst) 0 (longMax, none) with ⟨hnone, -⟩ | ⟨l₁, c, l₂, -, -, -, hsome, -, -⟩
    · rw [hnone]
      rfl
    · rcases search_spec hpending with ⟨hnone, -⟩ | ⟨i, c', ps', -, -, hday, -, -, hgive⟩
      · rw [hsome] at hnone
        cases hnone
      · have hmem : c'.ahead ∈ ds.flatMap TradingDay.ticks := by
          rw [← List.nil_append (ds.flatMap _), ← h.gives, hgive]
          exact List.mem_cons_self
        have hlt := h.later.cur_lt _ hmem
        exact absurd (hday ▸ hlt) (lt_irrefl _)
  | cons t now =>
    rcases search_spec hpending with ⟨hnone, -⟩ | ⟨i, c, ps', hfound, -, -, -, -, hgive⟩
    · have hlater := later_of_none hpending hnone
      have hmem : t ∈ toGive ps := by
        rw [h.gives]
        exact List.mem_cons_self
      obtain ⟨q, hq, htq⟩ := mem_mergeAll.mp hmem
      obtain ⟨p, hp, rfl⟩ := List.mem_map.mp hq
      have hlt := hlater p hp
      rw [← day_of_pending (hpending p hp) t htq, h.today t List.mem_cons_self] at hlt
      exact absurd hlt (lt_irrefl _)
    · have heq := h.gives.symm.trans hgive
      rw [hfound]
      exact congrArg ReplayTick.localTime (List.cons.inj heq).1

/-- A day in front of the others. -/
theorem Writes.switch {day : String} {ps' : List (CWareHouseFileCursor × List ReplayTick)}
    (h : Writes L P day ps' out now ds) (hpending : PendingAll L day ps')
    (hopen : openDay L day files = .ok (ps'.map Prod.fst)) (hle : ∀ c ∈ files, day ≤ c.tradingDate)
    (hmem : ∃ c ∈ files, c.tradingDate = day) :
    ∃ d : TradingDay, d.ticks = now ∧
      d.infoPut P = { nano := minNano day (ps'.map Prod.fst) - 10000000000
                      data := P.baseInfo day (instrumentsOf L day files) } ∧
      Spans L files (d :: ds) := by
  have hlater := openDay_later hopen
  have hsame : ∀ day', day < day' → instrumentsOf L day' (files.filter fun c => day < c.tradingDate) =
      instrumentsOf L day' files := by
    intro day' hlt
    unfold instrumentsOf
    rw [List.filter_filter]
    congr 1
    refine List.filter_congr fun c _ => ?_
    by_cases hc : day' = c.tradingDate
    · have hlt' : day < c.tradingDate := hc ▸ hlt
      rw [decide_eq_true hc, decide_eq_true hlt', Bool.and_true]
    · rw [decide_eq_false hc, Bool.false_and]
  have hspans := h.later
  rw [hlater] at hspans
  have hlt : ∀ d ∈ ds, day < d.day := by
    intro d hd
    obtain ⟨c, hc, hday⟩ := (hspans.mem d.day).mp (List.mem_map_of_mem hd)
    exact hday ▸ of_decide_eq_true (List.mem_filter.mp hc).2
  refine ⟨{ day := day, infos := instrumentsOf L day files, ticks := now }, rfl, ?_, ?_, ?_, ?_, ?_⟩
  · rw [← h.first hpending]
    rfl
  · exact List.pairwise_cons.mpr ⟨hlt, hspans.sorted⟩
  · intro day'
    rw [List.map_cons, List.mem_cons, hspans.mem]
    constructor
    · rintro (rfl | ⟨c, hc, hday⟩)
      · exact hmem
      · exact ⟨c, (List.mem_filter.mp hc).1, hday⟩
    · rintro ⟨c, hc, rfl⟩
      rcases lt_or_eq_of_le (hle c hc) with hlt | heq
      · exact .inr ⟨c, List.mem_filter.mpr ⟨hc, decide_eq_true hlt⟩, rfl⟩
      · exact .inl heq.symm
  · intro d hd
    rcases List.mem_cons.mp hd with rfl | hd
    · rfl
    · rw [hspans.infos d hd, hsame d.day (hlt d hd)]
  · intro d hd
    rcases List.mem_cons.mp hd with rfl | hd
    · exact h.today
    · exact hspans.ticks d hd

namespace CMerger

/-- A switch, when nothing of a file has been read. -/
theorem switchDay_spec {m : CMerger} (hfiles : m.files = ps.map Prod.fst) (hne : m.files ≠ [])
    (h : ∀ p ∈ ps, Unread (L := L) p.1 p.2) :
    ∃ m' ps' put, m.switchDay L P = .ok (m', [put]) ∧ m'.files = ps'.map Prod.fst ∧
      PendingAll L m'.curTradingDay ps' ∧ toGive ps' = toGive ps ∧
      ∀ {out now ds}, Writes L P m'.curTradingDay ps' out now ds →
        ∃ d : TradingDay, d.ticks = now ∧ d.infoPut P = put ∧ Spans L m.files (d :: ds) := by
  cases ps with
  | nil => exact absurd hfiles hne
  | cons p ps =>
    obtain ⟨hfirst, hrest⟩ := earliestDay_le p.1.tradingDate (ps.map Prod.fst)
    have hle : ∀ c ∈ m.files, earliestDay p.1.tradingDate (ps.map Prod.fst) ≤ c.tradingDate := by
      intro c hc
      rw [hfiles] at hc
      rcases List.mem_cons.mp hc with rfl | hc
      · exact hfirst
      · exact hrest c hc
    have hmem : ∃ c ∈ m.files, c.tradingDate = earliestDay p.1.tradingDate (ps.map Prod.fst) := by
      rw [hfiles]
      rcases earliestDay_mem p.1.tradingDate (ps.map Prod.fst) with hday | ⟨c, hc, hday⟩
      · exact ⟨p.1, List.mem_cons_self, hday.symm⟩
      · exact ⟨c, List.mem_cons_of_mem _ hc, hday.symm⟩
    have hopens : ∀ x ∈ p :: ps, earliestDay p.1.tradingDate (ps.map Prod.fst) ≤ x.1.tradingDate ∧
        Unread (L := L) x.1 x.2 := fun x hx => ⟨hle x.1 (hfiles ▸ List.mem_map_of_mem hx), h x hx⟩
    obtain ⟨ps', hopen, hpending, hgive⟩ := openDay_spec hopens
    refine ⟨{ files := ps'.map Prod.fst, curTradingDay := _ }, ps', _, ?_, rfl, hpending, hgive,
      fun hwrites => hwrites.switch hpending (hfiles ▸ hopen) hle hmem⟩
    unfold switchDay
    rw [hfiles, List.map_cons]
    dsimp only
    rw [← List.map_cons (f := Prod.fst), hopen]
    rfl

theorem loop_spec {m : CMerger} (hfiles : m.files = ps.map Prod.fst) (h : PendingAll L m.curTradingDay ps) :
    ∃ out now ds, m.loop L P = (out, none) ∧ Writes L P m.curTradingDay ps out now ds := by
  induction hsize : m.size using Nat.strong_induction_on generalizing m ps with
  | _ n ih =>
    rw [loop]
    by_cases hnil : m.files = []
    · rw [dif_pos hnil]
      have hps : ps = [] := List.map_eq_nil_iff.mp (hfiles.symm.trans hnil)
      subst hps
      exact ⟨[], [], [], rfl, rfl, rfl, fun _ ht => (nomatch ht), .nil, by simp, fun _ hd => (nomatch hd),
        fun _ hd => (nomatch hd)⟩
    · rw [dif_neg hnil]
      rcases search_spec h with ⟨hnone, hunread⟩ | ⟨i, c, ps', hfound, hget, hday, hnext, hpending, hgive⟩
      · obtain ⟨m', ps', put, hswitch, hfiles', hpending', hgive', hday'⟩ :=
          switchDay_spec (P := P) hfiles hnil hunread
        have hmerge : m.merge L P = .ok (m', [put]) := by
          unfold merge
          split
          · rename_i hsome
            rw [← hfiles, hsome] at hnone
            cases hnone
          · exact hswitch
        obtain ⟨out, now, ds, hloop, hwrites⟩ := ih m'.size (hsize ▸ merge_size hnil hmerge) hfiles' hpending' rfl
        obtain ⟨d, hticks, hput, hspans⟩ := hday' hwrites
        have hlater : m.files.filter (fun c => m.curTradingDay < c.tradingDate) = m.files := by
          refine List.filter_eq_self.mpr fun c hc => decide_eq_true ?_
          rw [hfiles] at hc
          obtain ⟨p, hp, rfl⟩ := List.mem_map.mp hc
          exact later_of_none h hnone p hp
        refine ⟨put :: out, [], d :: ds, ?_, ?_, ?_, fun _ ht => (nomatch ht), ?_⟩
        · split
          · rename_i heq
            rw [hmerge] at heq
            cases heq
          · rename_i heq
            rw [hmerge, Except.ok.injEq, Prod.mk.injEq] at heq
            obtain ⟨rfl, rfl⟩ := heq
            rw [hloop]
            rfl
        · rw [hwrites.written, List.map_nil, List.nil_append, List.flatMap_cons, TradingDay.puts, hput, hticks]
          rfl
        · rw [← hgive', hwrites.gives, List.nil_append, List.flatMap_cons, hticks]
        · rw [← hfiles, hlater]
          exact hspans
      · rw [← hfiles] at hfound hget hnext
        have hmerge : m.merge L P =
            .ok ({ m with files := nextOf L i m.files }, [TradingDay.tickPut P c.ahead]) := by
          rw [merge, hfound]
          dsimp only
          rw [hget]
          rfl
        have hlt := merge_size hnil hmerge
        rw [hsize] at hlt
        have hnext' : CMerger.files { m with files := nextOf L i m.files } = ps'.map Prod.fst := hnext
        obtain ⟨out, now, ds, hloop, hwrites⟩ := ih _ hlt hnext' hpending rfl
        refine ⟨TradingDay.tickPut P c.ahead :: out, c.ahead :: now, ds, ?_, ?_, ?_, ?_, ?_⟩
        · split
          · rename_i heq
            rw [hmerge] at heq
            cases heq
          · rename_i heq
            rw [hmerge, Except.ok.injEq, Prod.mk.injEq] at heq
            obtain ⟨rfl, rfl⟩ := heq
            rw [hloop]
            rfl
        · rw [hwrites.written]
          rfl
        · rw [hgive, hwrites.gives]
          rfl
        · intro t ht
          rcases List.mem_cons.mp ht with rfl | ht
          · exact hday
          · exact hwrites.today t ht
        · have hkept := nextOf_later (L := L) hget hday
          rw [hnext] at hkept
          rw [← hfiles, ← hkept]
          exact hwrites.later

/-- What is written of files that nothing has been read of. -/
theorem run_spec {m : CMerger} (hfiles : m.files = ps.map Prod.fst) (h : ∀ p ∈ ps, Unread (L := L) p.1 p.2) :
    ∃ ds, m.run L P = (ds.flatMap (TradingDay.puts P), none) ∧ toGive ps = ds.flatMap TradingDay.ticks ∧
      Spans L m.files ds := by
  unfold run
  by_cases hnil : m.files = []
  · have hps : ps = [] := List.map_eq_nil_iff.mp (hfiles.symm.trans hnil)
    subst hps
    refine ⟨[], ?_, rfl, .nil, by simp [hnil], fun _ hd => (nomatch hd), fun _ hd => (nomatch hd)⟩
    rw [switchDay, hnil]
    dsimp only
    rw [loop, dif_pos hnil]
    rfl
  · obtain ⟨m', ps', put, hswitch, hfiles', hpending, hgive, hday⟩ := switchDay_spec (P := P) hfiles hnil h
    obtain ⟨out, now, ds, hloop, hwrites⟩ := loop_spec (P := P) hfiles' hpending
    obtain ⟨d, hticks, hput, hspans⟩ := hday hwrites
    refine ⟨d :: ds, ?_, ?_, hspans⟩
    · rw [hswitch]
      dsimp only
      rw [hloop, hwrites.written, List.flatMap_cons, TradingDay.puts, hput, hticks]
      rfl
    · rw [← hgive, hwrites.gives, List.flatMap_cons, hticks]

end CMerger

end NatFramework.Tools
