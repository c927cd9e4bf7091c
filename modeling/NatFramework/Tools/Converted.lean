import NatFramework.Tools.CMerger
import NatFramework.Io.CallStores
import NatFramework.Md.CMDHelperReplayIo

/-!
# The pages of the converter

The frames have what was to be written, in order, and each the time that the clock was
set to and what has passed since then.

* `writeAll`: the calls of the writer.
* `pages_spec`: what is in the pages behind them.
* `converted`: files of the dumper, their pages and what `CWareHouseReader` gives.
-/
namespace NatFramework.Tools

open Lib Common Io

/-! ## The writer -/

/-- A page of `IO_PAGE_SIZE`. -/
def pageSize : Nat := 128 * 1024 * 1024

/-- The clock at look `k`, when `elapsed k` has passed since it was set. -/
def Put.now (put : Put) (elapsed : Nat → Nat) (k : Nat) : Nat := ((put.nano + elapsed k) % 2 ^ 64).toNat

/-- mirrors tools/ctpdump2mmap.cpp:200-201 and tools/ctpdump2mmap.cpp:220-221 -/
def Put.write (put : Put) (elapsed : Nat → Nat) (w : CRawIOWriter) : CRawIOWriter :=
  ((WriterOp.write put.data).apply (put.now elapsed) w).1

/-- `elapsed n` belongs to write number `n`. -/
def writeAll : List Put → (Nat → Nat → Nat) → CRawIOWriter → CRawIOWriter
  | [], _, w => w
  | put :: puts, elapsed, w => writeAll puts (fun n => elapsed (n + 1)) (put.write (elapsed 0) w)

/-- A writer in an empty directory. mirrors tools/ctpdump2mmap.cpp:132-140 -/
def newWriter (nano : Nat) : CRawIOWriter := (CRawIOWriter.init true nano { group := { first := 0, pages := [] } }).1

/-- The frame of a put: its data, and a time not long after it. -/
def Stamped (lag : Nat) (put : Put) (f : Frame) : Prop :=
  f.data = put.data ∧ ∃ e ≤ lag, f.nano = ((put.nano + e) % 2 ^ 64).toNat

/-- It goes into a page. -/
def Fits (data : List UInt8) : Prop := sizeofPageHead + sizeofFrameHead + data.length ≤ pageSize

/-- The writer stands on the last of the pages. -/
structure Stood (l : Log) (w : CRawIOWriter) : Prop where
  stays : Stays pageSize w l
  size : w.pageSize = pageSize
  first : l.group.first = 0

variable {l : Log} {w : CRawIOWriter} {data : List UInt8} {puts : List Put} {lag : Nat}

theorem Stood.sized (h : Stood l w) : Sized pageSize w where
  bound_lt := by decide
  pageSize_ge := h.size ▸ by decide
  pageSize_le := Nat.le_of_eq h.size

theorem newWriter_stood (nano : Nat) : ∃ l, Stood l (newWriter nano) ∧ l.fss.flatten = [] := by
  let l : Log := { group := { first := 0, pages := [] }, fss := [], next := none }
  have hrest : l.Rests pageSize := .inl
    { front := .nil, sizes := fun _ hq => absurd hq List.not_mem_nil, first := fun _ => rfl }
  have hsized : Sized pageSize { group := l.group } := ⟨by decide, by decide, Nat.le_refl _⟩
  obtain ⟨-, -, hrun⟩ := runs_init nano hrest hsized rfl rfl
  have hgrow := hrun.rel Log.Grows.refl Log.Grows.trans
  refine ⟨_, ⟨hrun.last, ?_, hgrow.first⟩, ?_⟩
  · rfl
  · have hsent := hgrow.sent
    rw [hrun.last.1] at hsent
    simpa [l] using hsent

/-- A call writes its frame, here or to the next page. -/
theorem apply_write {ps : List Page} {p : Page} (now : Nat → Nat) (h : CRawIOWriter.OnLast w ps p)
    (hsize : w.pageSize = pageSize) (hfit : Fits data) :
    ((WriterOp.write data).apply now w).2 = some ⟨WriterOp.frameTime now data.length w, data⟩ := by
  unfold WriterOp.apply
  by_cases hle : CRawIOWriter.tailBehind p data.length ≤ p.fileSize
  · dsimp only
    rw [CRawIOWriter.write_here h hle]
    rfl
  · obtain ⟨w₁, -, hon, hwrite⟩ := CRawIOWriter.write_next (n := 1) now h hle
    have htail : (CRawIOWriter.newPage w.pageSize (now 1)).tail = sizeofPageHead := rfl
    have hfile : (CRawIOWriter.newPage w.pageSize (now 1)).fileSize = pageSize := hsize
    unfold Fits at hfit
    have hplace : (CRawIOWriter.newPage w.pageSize (now 1)).tail + sizeofFrameHead + data.length ≤
        (CRawIOWriter.newPage w.pageSize (now 1)).fileSize := by
      rw [htail, hfile]
      exact hfit
    have hnext : CRawIOWriter.tailBehind (CRawIOWriter.newPage w.pageSize (now 1)) data.length ≤
        (CRawIOWriter.newPage w.pageSize (now 1)).fileSize := by
      rwa [CRawIOWriter.tailBehind_of_le (by rw [hfile]; decide) hplace]
    have hroom : data.length ≤ (w.pageSize + 2 ^ 64 - sizeofPageHead - sizeofFrameHead) % 2 ^ 64 := by
      rw [hsize]
      simp only [pageSize, sizeofPageHead, sizeofFrameHead] at hfit ⊢
      omega
    dsimp only
    rw [hwrite, if_pos hroom, CRawIOWriter.write_here hon hnext]
    rfl

theorem frameTime_look (now : Nat → Nat) (len : Nat) (w : CRawIOWriter) {p : Page} (h : w.mapped = some p) :
    ∃ k, WriterOp.frameTime now len w = now k % 2 ^ 64 := by
  rw [WriterOp.frameTime, h]
  dsimp only
  split
  · exact ⟨0, rfl⟩
  · exact ⟨2, rfl⟩

theorem Stood.write {put : Put} {elapsed : Nat → Nat} (h : Stood l w) (hfit : Fits put.data)
    (hlag : ∀ k, elapsed k ≤ lag) :
    ∃ l' f, Stood l' (put.write elapsed w) ∧ l'.fss.flatten = l.fss.flatten ++ [f] ∧ Stamped lag put f := by
  obtain ⟨hnone, ps, p, fss₀, fs, hst⟩ := h.stays
  have happly := apply_write (put.now elapsed) hst.onLast h.size hfit
  obtain ⟨k, htime⟩ := frameTime_look (put.now elapsed) put.data.length w hst.onLast.mapped
  -- the frame is on its way
  let f : Frame := ⟨WriterOp.frameTime (put.now elapsed) put.data.length w, put.data⟩
  let l₁ : Log := { l with next := some f }
  have hst₁ : Standing pageSize l₁ w ps p fss₀ fs :=
    ⟨⟨hst.pages.pages, hst.pages.fss, hst.pages.front, hst.pages.bears, hst.pages.sizes⟩, hst.going, hst.onLast,
      hst.group⟩
  have hwrap : ¬CRawIOWriter.Wraps p.tail put.data.length p.fileSize := by
    have htail := hst.pages.bears.tail_le
    have hsize := hst.pages.size_le
    unfold Fits at hfit
    unfold CRawIOWriter.Wraps
    simp only [pageSize, sizeofPageHead, sizeofFrameHead] at *
    omega
  obtain ⟨hsame, hrun⟩ := Log.runs_write hst₁ h.sized hwrap happly.symm
  have hgrow := hrun.rel Log.Grows.refl Log.Grows.trans
  refine ⟨_, f, ⟨hrun.last, hsame.trans h.size, hgrow.first.trans h.first⟩, ?_, rfl, elapsed k, hlag k, ?_⟩
  · have hsent := hgrow.sent
    rw [hrun.last.1] at hsent
    simpa [l₁] using hsent
  · change WriterOp.frameTime (put.now elapsed) put.data.length w = _
    rw [htime, Put.now]
    omega

theorem Stood.writeAll {elapsed : Nat → Nat → Nat} (h : Stood l w) (hfit : ∀ put ∈ puts, Fits put.data)
    (hlag : ∀ n k, elapsed n k ≤ lag) :
    ∃ l' fs, Stood l' (writeAll puts elapsed w) ∧ l'.fss.flatten = l.fss.flatten ++ fs ∧
      List.Forall₂ (Stamped lag) puts fs := by
  induction puts generalizing l w elapsed with
  | nil => exact ⟨l, [], h, by rw [List.append_nil], .nil⟩
  | cons put puts ih =>
    obtain ⟨l₁, f, h₁, hflat₁, hstamp⟩ := h.write (hfit put List.mem_cons_self) (hlag 0)
    obtain ⟨l₂, fs, h₂, hflat₂, hstamps⟩ :=
      ih h₁ (fun x hx => hfit x (List.mem_cons_of_mem put hx)) fun n => hlag (n + 1)
    refine ⟨l₂, f :: fs, h₂, ?_, .cons hstamp hstamps⟩
    rw [hflat₂, hflat₁, List.append_assoc]
    rfl

/-- The pages behind the calls. -/
theorem pages_spec (nano : Nat) {elapsed : Nat → Nat → Nat} (hfit : ∀ put ∈ puts, Fits put.data)
    (hlag : ∀ n k, elapsed n k ≤ lag) :
    ∃ fss, (writeAll puts elapsed (newWriter nano)).group.Carries fss ∧
      (writeAll puts elapsed (newWriter nano)).group.first = 0 ∧ List.Forall₂ (Stamped lag) puts fss.flatten := by
  obtain ⟨l, hstood, hempty⟩ := newWriter_stood nano
  obtain ⟨l', fs, hstood', hflat, hstamps⟩ := hstood.writeAll hfit hlag
  rw [hempty, List.nil_append] at hflat
  have hok := hstood'.stays.rests.ok
  obtain ⟨-, ps, p, fss₀, fs₀, hst⟩ := hstood'.stays
  refine ⟨l'.fss, ?_, ?_, by rwa [hflat]⟩
  · rw [hst.group]
    exact hok.carries
  · rw [hst.group]
    exact hstood'.first

/-! ## The program -/

/-- The cursor of a file. mirrors tools/ctpdump2mmap.cpp:53-63 -/
def cursorOf (name : String) (f : FileImage) : CWareHouseFileCursor :=
  { file := name, tradingDate := f.tradingDate, instCnt := f.instCnt, rest := f.bytes }

/-- `none`: a file cannot be opened, or has no whole head, and the program ends. -/
def openFiles (fs : CWareHouseReader.FileSystem) (names : List String) : Option (List CWareHouseFileCursor) :=
  names.mapM fun name => (fs name).map (cursorOf name)

/-- mirrors tools/ctpdump2mmap.cpp:255-276 -/
def ctpdump2mmap (L : Layout) (P : MergerParams) (fs : CWareHouseReader.FileSystem) (names : List String)
    (elapsed : Nat → Nat → Nat) (nano : Nat) : Option CRawIOWriter :=
  (openFiles fs names).map fun files => writeAll (CMerger.run L P { files := files }).1 elapsed (newWriter nano)

section Program

variable {L : Layout} {P : MergerParams} {fs : CWareHouseReader.FileSystem} {names : List String}
  {ws : List (WareHouseFile L)} {ds : List TradingDay}

/-- The instruments of a day in the files. -/
def infosOn (ws : List (WareHouseFile L)) (day : String) : List (List UInt8) :=
  (ws.filter fun w => day = w.tradingDate).flatMap WareHouseFile.infos

/-- The trading days of the files, with all that is in them. -/
structure DaysOf (ws : List (WareHouseFile L)) (ds : List TradingDay) : Prop where
  sorted : ds.Pairwise fun d d' => d.day < d'.day
  mem : ∀ day, day ∈ ds.map TradingDay.day ↔ ∃ w ∈ ws, w.tradingDate = day
  infos : ∀ d ∈ ds, d.infos = infosOn ws d.day
  ticks : ∀ d ∈ ds, ∀ t ∈ d.ticks, t.tradingDay = d.day
  all : ds.flatMap TradingDay.ticks = mergeAll ReplayTick.key (ws.map WareHouseFile.ticks)

theorem readInfos_flatten {infos : List (List UInt8)} (h : ∀ i ∈ infos, i.length = L.instSize) (bytes : List UInt8) :
    readInfos L infos.length (infos.flatten ++ bytes) = infos := by
  induction infos with
  | nil => rfl
  | cons i infos ih =>
    have hi := h i List.mem_cons_self
    rw [List.flatten_cons, List.append_assoc, List.length_cons, readInfos, ← hi, List.take_left, List.drop_left,
      ih fun j hj => h j (List.mem_cons_of_mem i hj)]

theorem openFiles_image (hws : names.map fs = ws.map fun w => some w.image) (hlt : TimesBelow ws) :
    ∃ ps : List (CWareHouseFileCursor × List ReplayTick), openFiles fs names = some (ps.map Prod.fst) ∧
      ps.map Prod.snd = ws.map WareHouseFile.ticks ∧ (∀ p ∈ ps, Unread (L := L) p.1 p.2) ∧
      (∀ day, instrumentsOf L day (ps.map Prod.fst) = infosOn ws day) ∧
      (ps.map Prod.fst).map (·.tradingDate) = ws.map WareHouseFile.tradingDate := by
  induction names generalizing ws with
  | nil =>
    obtain rfl : ws = [] := List.map_eq_nil_iff.mp hws.symm
    exact ⟨[], rfl, rfl, fun _ hp => (nomatch hp), fun _ => rfl, rfl⟩
  | cons name names ih =>
    obtain ⟨w, ws', rfl, hw, hws'⟩ := List.map_eq_cons_iff.mp hws.symm
    obtain ⟨ps, hopen, hticks, hunread, hinfos, hdays⟩ :=
      ih hws'.symm fun x hx => hlt x (List.mem_cons_of_mem w hx)
    have hread : readInfos L (cursorOf name w.image).instCnt.toNat (cursorOf name w.image).rest = w.infos := by
      change readInfos L (w.infos.length : Int).toNat (w.infos.flatten ++ w.records.flatMap Record.bytes) = w.infos
      rw [Int.toNat_natCast, readInfos_flatten w.infos_length]
    refine ⟨(cursorOf name w.image, w.ticks) :: ps, ?_, ?_, ?_, fun day => ?_, ?_⟩
    · unfold openFiles at hopen ⊢
      rw [List.mapM_cons, ← hw, hopen]
      rfl
    · rw [List.map_cons, List.map_cons, hticks]
    · intro p hp
      rcases List.mem_cons.mp hp with rfl | hp
      · exact ⟨w.infos, w.records, rfl, w.infos_length, rfl, rfl, hlt w List.mem_cons_self⟩
      · exact hunread p hp
    · have hday := hinfos day
      unfold instrumentsOf infosOn at hday ⊢
      rw [List.map_cons, List.filter_cons, List.filter_cons]
      dsimp only
      rw [show (cursorOf name w.image).tradingDate = w.tradingDate from rfl]
      split
      · rw [List.flatMap_cons, List.flatMap_cons, hday, hread]
      · exact hday
    · rw [List.map_cons, List.map_cons, List.map_cons, hdays]
      rfl

theorem convert_spec (P : MergerParams) (hws : names.map fs = ws.map fun w => some w.image) (hlt : TimesBelow ws)
    (htick : ∀ data, Fits (P.tick data)) (hinfo : ∀ day, Fits (P.baseInfo day (infosOn ws day)))
    {elapsed : Nat → Nat → Nat} {lag : Nat} (hlag : ∀ n k, elapsed n k ≤ lag) (nano : Nat) :
    ∃ w ds fss, ctpdump2mmap L P fs names elapsed nano = some w ∧ w.group.Carries fss ∧ w.group.first = 0 ∧
      List.Forall₂ (Stamped lag) (ds.flatMap (TradingDay.puts P)) fss.flatten ∧ DaysOf ws ds := by
  obtain ⟨ps, hopen, hticks, hunread, hinfos, hdays⟩ := openFiles_image hws hlt
  obtain ⟨ds, hrun, hgive, hspans⟩ := CMerger.run_spec (P := P) (m := { files := ps.map Prod.fst }) rfl hunread
  have hdaysOf : DaysOf ws ds :=
    { sorted := hspans.sorted, mem := fun day => by rw [hspans.mem, ← List.mem_map, hdays, List.mem_map]
      infos := fun d hd => (hspans.infos d hd).trans (hinfos d.day), ticks := hspans.ticks
      all := by rw [← hgive, toGive, hticks] }
  have hfit : ∀ put ∈ ds.flatMap (TradingDay.puts P), Fits put.data := by
    intro put hput
    obtain ⟨d, hd, hput⟩ := List.mem_flatMap.mp hput
    rcases List.mem_cons.mp hput with rfl | hput
    · have hfits := hinfo d.day
      rw [← hdaysOf.infos d hd] at hfits
      exact hfits
    · obtain ⟨t, -, rfl⟩ := List.mem_map.mp hput
      exact htick t.data
  obtain ⟨fss, hcarries, hfirst, hstamps⟩ := pages_spec nano hfit hlag
  refine ⟨_, ds, fss, ?_, hcarries, hfirst, hstamps, hdaysOf⟩
  rw [ctpdump2mmap, hopen, Option.map_some, hrun]

/-- **The pages of the converter.** Of the files of the dumper, in whatever order they are
named: each day is its base information and its ticks, one day behind the other, each frame
with the time of what it is and no more than what has passed; and the ticks are, in this
order, those that `CWareHouseReader` gives of the same files. -/
theorem converted (P : MergerParams) (hws : names.map fs = ws.map fun w => some w.image) (hlt : TimesBelow ws)
    (htick : ∀ data, Fits (P.tick data)) (hinfo : ∀ day, Fits (P.baseInfo day (infosOn ws day)))
    {elapsed : Nat → Nat → Nat} {lag : Nat} (hlag : ∀ n k, elapsed n k ≤ lag) (nano : Nat) :
    ∃ w ds fss, ctpdump2mmap L P fs names elapsed nano = some w ∧ w.group.Carries fss ∧ w.group.first = 0 ∧
      List.Forall₂ (Stamped lag) (ds.flatMap (TradingDay.puts P)) fss.flatten ∧ DaysOf ws ds ∧
      ∀ (dates : String → String → List String) (patterns : List String) (startDay endDay : String),
        (fileNames dates patterns startDay endDay).filterMap fs = ws.map WareHouseFile.image →
        ∃ r, CWareHouseReader.loadFiles L fs dates patterns startDay endDay {} = .ok r ∧
          Replays L r (ds.flatMap TradingDay.ticks) := by
  obtain ⟨w, ds, fss, hmap, hcarries, hfirst, hstamps, hdays⟩ := convert_spec P hws hlt htick hinfo hlag nano
  refine ⟨w, ds, fss, hmap, hcarries, hfirst, hstamps, hdays, fun dates patterns startDay endDay hnames => ?_⟩
  obtain ⟨r, ps, hload, hreads, hgive, -⟩ := loadFiles_spec (r := {}) hnames hlt rfl
  have hreplays := replays_toGive hreads
  rw [hgive, ← hdays.all] at hreplays
  exact ⟨r, hload, hreplays⟩

end Program

/-! ### Two files of one tick -/

def byteParams : MergerParams where
  baseInfo _ infos := leBytes 4 13 ++ infos.flatten
  tick data := leBytes 4 1 ++ leBytes 4 data.cumVol.toNat

def tickTwo : WareHouseFile byteLayout := oneTick 20000000000

theorem byte_fits (data : MarketData) : Fits (byteParams.tick data) := by
  unfold Fits byteParams
  rw [List.length_append, length_leBytes, length_leBytes]
  decide

theorem tickTwo_infos {ws : List (WareHouseFile byteLayout)} (h : ∀ w ∈ ws, w = tickTwo) (day : String) :
    Fits (byteParams.baseInfo day (infosOn ws day)) := by
  have hnil : infosOn ws day = [] := by
    unfold infosOn
    refine List.flatMap_eq_nil_iff.mpr fun w hw => ?_
    rw [h w (List.mem_filter.mp hw).1]
    rfl
  rw [hnil]
  change 45 + 20 + 4 ≤ 128 * 1024 * 1024
  decide

theorem tickTwo_below {ws : List (WareHouseFile byteLayout)} (h : ∀ w ∈ ws, w = tickTwo) : TimesBelow ws := by
  intro w hw x hx
  rw [h w hw] at hx
  rw [List.mem_singleton.mp hx]
  decide

theorem converted_two :
    ∃ (w : CRawIOWriter) (ds : List TradingDay) (fss : List (List Frame)),
      ctpdump2mmap byteLayout byteParams (fun _ => some tickTwo.image) ["a", "b"] (fun n _ => n % 9) 3 = some w ∧
      w.group.Carries fss ∧ List.Forall₂ (Stamped 8) (ds.flatMap (TradingDay.puts byteParams)) fss.flatten ∧
      (ds.flatMap TradingDay.ticks).map ReplayTick.localTime = [20000000000, 20000000000] := by
  have hws : ∀ w ∈ [tickTwo, tickTwo], w = tickTwo := by simp
  obtain ⟨w, ds, fss, hmap, hcarries, -, hstamps, hdays, -⟩ := converted byteParams
    (show ["a", "b"].map (fun _ => some tickTwo.image) = [tickTwo, tickTwo].map fun w => some w.image from rfl)
    (tickTwo_below hws) byte_fits (tickTwo_infos hws)
    (show ∀ n k : Nat, (fun n _ => n % 9 : Nat → Nat → Nat) n k ≤ 8 from fun n _ => by dsimp only; omega) 3
  refine ⟨w, ds, fss, hmap, hcarries, hstamps, ?_⟩
  obtain ⟨t, ht, htime⟩ : ∃ t, tickTwo.ticks = [t] ∧ t.localTime = 20000000000 := ⟨_, rfl, by decide +kernel⟩
  rw [hdays.all, List.map_cons, List.map_cons, List.map_nil, ht, mergeAll_cons, mergeAll_cons, mergeAll_nil,
    List.merge_right, List.cons_merge_cons_pos _ _ _ (keyLe_iff.mpr (le_refl _)), List.nil_merge, List.map_cons,
    List.map_cons, List.map_nil, htime]

end NatFramework.Tools
