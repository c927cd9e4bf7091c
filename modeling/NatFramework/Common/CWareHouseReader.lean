import Mathlib.Data.Rat.Init
import Mathlib.Data.String.Basic
import NatFramework.Base
import NatFramework.Lib.Bytes

/-!
# The reader of warehouse files

`common/CWareHouseReader`: one cursor for each file, whose next tick has been read
ahead for the files of the current trading day. `merge` takes the earliest of
these; `switchDay` goes to the earliest day there is left.

* A descriptor is the bytes that it has still to give; `LONG_MAX` is the time of a
  cursor that has read no tick.
* `Layout` holds what the compiler decides about the structures in a file, and the
  hash of a name. The dates of a range and the date of a time are arguments.
* What is thrown is `Except.error`. The trade base and the clock are left out.
-/
namespace NatFramework.Common

open Lib

def longMax : Int := 2 ^ 63 - 1

/-- The value of an expression of type `long`. -/
def toLong (n : Int) : Int := Int.bmod n (2 ^ 64)

/-- What `next` reads of `CThostFtdcDepthMarketDataField_v638`. -/
structure DepthMarketData where
  instrumentID : String
  lastPrice : ℚ
  volume : Int
  turnover : ℚ
  averagePrice : ℚ
  askPrice1 : ℚ
  askVolume1 : Int
  bidPrice1 : ℚ
  bidVolume1 : Int
  openInterest : ℚ
  updateTime : List Int
  updateMillisec : Int

/-- What it sets of `UnitedMarketData`. -/
structure MarketData where
  instrStr : String := ""
  instrHash : Hash := 0
  lastPx : ℚ := 0
  cumVol : Int := 0
  cumTurnover : ℚ := 0
  avgPx : ℚ := 0
  askPx : ℚ := 0
  bidPx : ℚ := 0
  askVol : Int := 0
  bidVol : Int := 0
  openInterest : ℚ := 0
  exchTime : Int := 0

structure Layout where
  /-- The size of `CThostFtdcDepthMarketDataField_v638`. -/
  bodySize : Nat
  /-- The size of `Instrument`. -/
  instSize : Nat
  bodySize_pos : 0 < bodySize
  depth : List UInt8 → DepthMarketData
  hash : String → Hash

/-- The size of `MarketDataHead`, which is the local time. -/
def headSize : Nat := 8

/-- mirrors utility/utils.h:99-100 -/
def getSecondsFromClockStr (clock : List Int) : Int :=
  clock.getD 0 0 * 36000 + clock.getD 1 0 * 3600 + clock.getD 3 0 * 600 + clock.getD 4 0 * 60 +
    clock.getD 6 0 * 10 + clock.getD 7 0 - 1933008

def nanoHour : Int := 3600000000000

def nanoDay : Int := 86400000000000

/-- mirrors common/CWareHouseReader.cpp:102-109 -/
def exchTime (localTime : Int) (data : DepthMarketData) : Int :=
  let t := toLong ((toLong (localTime + 8 * nanoHour)).tdiv nanoDay * nanoDay +
    getSecondsFromClockStr data.updateTime * 1000000000 + data.updateMillisec * 1000000 - 8 * nanoHour)
  if toLong (localTime + 2 * nanoHour) < t then toLong (t - nanoDay)
  else if t < toLong (localTime - 20 * nanoHour) then toLong (t + nanoDay)
  else t

/-- mirrors common/CWareHouseReader.cpp:89-109 -/
def Layout.marketData (L : Layout) (localTime : Int) (data : DepthMarketData) : MarketData :=
  { instrStr := data.instrumentID, instrHash := L.hash data.instrumentID, lastPx := data.lastPrice
    cumVol := data.volume, cumTurnover := data.turnover, avgPx := data.averagePrice
    askPx := data.askPrice1, bidPx := data.bidPrice1, askVol := data.askVolume1
    bidVol := data.bidVolume1, openInterest := data.openInterest, exchTime := exchTime localTime data }

/-! ## Cursors -/

/-- A file: what the reader uses of its head, and the bytes behind it. -/
structure FileImage where
  tradingDate : String
  instCnt : Int
  bytes : List UInt8

/-- mirrors common/CWareHouseReader.h:51-56 -/
structure CWareHouseFileCursor where
  file : String
  tradingDate : String
  instCnt : Int
  rest : List UInt8
  localTime : Int := longMax
  umd : MarketData := {}

variable (L : Layout)

namespace CWareHouseFileCursor

/-- The loop of `getInstrumentInfo`. mirrors common/CWareHouseReader.cpp:58-67 -/
def skipInfos : Nat → CWareHouseFileCursor → Except String CWareHouseFileCursor
  | 0, c => .ok c
  | n + 1, c =>
    if (c.rest.take L.instSize).length < L.instSize then .error "parse instrument info format err."
    else skipInfos n { c with rest := c.rest.drop L.instSize }

def getInstrumentInfo (c : CWareHouseFileCursor) : Except String CWareHouseFileCursor :=
  skipInfos L c.instCnt.toNat c

/-- mirrors common/CWareHouseReader.cpp:69-111 -/
def next (c : CWareHouseFileCursor) : Int × CWareHouseFileCursor :=
  let head := c.rest.take headSize
  let c := { c with rest := c.rest.drop headSize }
  if head.length = 0 then (0, c)
  else if head.length ≠ headSize then (-1, c)
  else
    let c := { c with localTime := toLong (ofLe head) }
    let body := c.rest.take L.bodySize
    let c := { c with rest := c.rest.drop L.bodySize }
    if body.length = 0 then (0, c)
    else if body.length ≠ L.bodySize then (-1, c)
    else (L.bodySize, { c with umd := L.marketData c.localTime (L.depth body) })

end CWareHouseFileCursor

/-! ## The reader -/

/-- mirrors common/CWareHouseReader.h:98-109 -/
structure CWareHouseReader where
  tick : MarketData := {}
  localTime : Int := 0
  curTradingDay : String := ""
  files : List CWareHouseFileCursor := []
  filePatterns : List String := []
  startDay : String := ""
  endDay : String := ""

/-- The bytes that are left, and one for each file. -/
def filesSize (files : List CWareHouseFileCursor) : Nat := (files.map fun c => c.rest.length + 1).sum

/-- The files of the day are opened, and those without a tick erased.
mirrors common/CWareHouseReader.cpp:147-163 -/
def openDay (day : String) : List CWareHouseFileCursor → Except String (List CWareHouseFileCursor)
  | [] => .ok []
  | c :: cs =>
    if day = c.tradingDate then
      match c.getInstrumentInfo L with
      | .error e => .error e
      | .ok c =>
        let r := c.next L
        match openDay day cs with
        | .error e => .error e
        | .ok cs => .ok (if r.1 ≤ 0 then cs else r.2 :: cs)
    else
      match openDay day cs with
      | .error e => .error e
      | .ok cs => .ok (c :: cs)

/-- The earliest of the days. mirrors common/CWareHouseReader.cpp:132-137 -/
def earliestDay (first : String) (files : List CWareHouseFileCursor) : String :=
  files.foldl (fun day c => if c.tradingDate < day then c.tradingDate else day) first

/-- The first of the earliest ticks of the day, from file number `i` on.
mirrors common/CWareHouseReader.cpp:200-209 -/
def searchTick (day : String) : List CWareHouseFileCursor → Nat → Int × Option Nat → Int × Option Nat
  | [], _, r => r
  | c :: cs, i, r =>
    searchTick day cs (i + 1)
      (if day = c.tradingDate ∧ c.localTime < r.1 then (c.localTime, some i) else r)

/-- The next tick of a file is read; a file that has none is erased.
mirrors common/CWareHouseReader.cpp:221-228 -/
def nextOf (i : Nat) (files : List CWareHouseFileCursor) : List CWareHouseFileCursor :=
  match files[i]? with
  | none => files
  | some c =>
    let r := c.next L
    if r.1 ≤ 0 then files.eraseIdx i else files.set i r.2

namespace CWareHouseReader

/-- mirrors common/CWareHouseReader.cpp:127-195 -/
def switchDay (r : CWareHouseReader) : Except String CWareHouseReader :=
  match r.files with
  | [] => .ok r
  | c :: cs =>
    let day := earliestDay c.tradingDate cs
    match openDay L day r.files with
    | .error e => .error e
    | .ok files => .ok { r with curTradingDay := day, files := files }

/-- The number of the file whose tick was taken; `none` stands for -1.
mirrors common/CWareHouseReader.cpp:198-235 -/
def merge (r : CWareHouseReader) : Except String (CWareHouseReader × Option Nat) :=
  match searchTick r.curTradingDay r.files 0 (longMax, none) with
  | (localTime, some i) =>
    .ok ({ r with
            localTime := localTime
            tick := (r.files[i]?.map (·.umd)).getD r.tick
            files := nextOf L i r.files }, some i)
  | (_, none) =>
    match r.switchDay L with
    | .error e => .error e
    | .ok r => .ok (r, none)

def size (r : CWareHouseReader) : Nat := filesSize r.files

end CWareHouseReader

/-! ### What is read is gone -/

variable {L}

theorem next_rest_lt {c : CWareHouseFileCursor} (h : 0 < (c.next L).1) :
    (c.next L).2.rest.length < c.rest.length := by
  unfold CWareHouseFileCursor.next at h ⊢
  dsimp only at h ⊢
  split at h
  · exact absurd h (lt_irrefl 0)
  · rename_i hhead
    rw [if_neg hhead]
    split at h
    · exact absurd h (by decide : ¬(0 : Int) < -1)
    · rename_i hfull
      rw [if_neg hfull]
      split at h
      · exact absurd h (lt_irrefl 0)
      · rename_i hbody
        rw [if_neg hbody]
        split at h
        · exact absurd h (by decide : ¬(0 : Int) < -1)
        · rename_i hfull'
          rw [if_neg hfull']
          have hne : c.rest.length ≠ 0 := by
            intro h0
            rw [List.length_take, h0] at hhead
            exact hhead (Nat.min_zero _)
          simp only [List.length_drop, headSize]
          omega

theorem skipInfos_rest {n : Nat} {c c' : CWareHouseFileCursor}
    (h : CWareHouseFileCursor.skipInfos L n c = .ok c') : c'.rest.length ≤ c.rest.length := by
  induction n generalizing c with
  | zero =>
    rw [CWareHouseFileCursor.skipInfos, Except.ok.injEq] at h
    rw [h]
  | succ n ih =>
    rw [CWareHouseFileCursor.skipInfos] at h
    split at h
    · cases h
    · have hle := ih h
      rw [List.length_drop] at hle
      omega

theorem filesSize_cons (c : CWareHouseFileCursor) (cs : List CWareHouseFileCursor) :
    filesSize (c :: cs) = c.rest.length + 1 + filesSize cs := by
  simp [filesSize]

theorem openDay_size {day : String} {cs cs' : List CWareHouseFileCursor}
    (h : openDay L day cs = .ok cs') :
    filesSize cs' ≤ filesSize cs ∧ ((∃ c ∈ cs, day = c.tradingDate) → filesSize cs' < filesSize cs) := by
  induction cs generalizing cs' with
  | nil =>
    rw [openDay, Except.ok.injEq] at h
    rw [← h]
    exact ⟨Nat.le_refl _, fun ⟨c, hc, _⟩ => nomatch hc⟩
  | cons c cs ih =>
    rw [openDay] at h
    split at h
    · rename_i hday
      split at h
      · cases h
      · rename_i c' hinfo
        have hrest := skipInfos_rest hinfo
        dsimp only at h
        split at h
        · cases h
        · rename_i cs'' hopen
          have hle := (ih hopen).1
          rw [Except.ok.injEq] at h
          have hlt : filesSize cs' < filesSize (c :: cs) := by
            rw [← h, filesSize_cons]
            split
            · omega
            · rename_i hpos
              have hnext := next_rest_lt (not_le.mp hpos)
              rw [filesSize_cons]
              omega
          exact ⟨Nat.le_of_lt hlt, fun _ => hlt⟩
    · rename_i hday
      split at h
      · cases h
      · rename_i cs'' hopen
        obtain ⟨hle, hlt⟩ := ih hopen
        rw [Except.ok.injEq] at h
        rw [← h, filesSize_cons, filesSize_cons]
        refine ⟨Nat.add_le_add_left hle _, ?_⟩
        rintro ⟨x, hx, hxday⟩
        rcases List.mem_cons.mp hx with rfl | hx
        · exact absurd hxday hday
        · exact Nat.add_lt_add_left (hlt ⟨x, hx, hxday⟩) _

theorem earliestDay_mem (first : String) (files : List CWareHouseFileCursor) :
    earliestDay first files = first ∨ ∃ c ∈ files, earliestDay first files = c.tradingDate := by
  induction files generalizing first with
  | nil => exact .inl rfl
  | cons c cs ih =>
    have hstep : earliestDay first (c :: cs) =
        earliestDay (if c.tradingDate < first then c.tradingDate else first) cs := rfl
    rw [hstep]
    rcases ih (if c.tradingDate < first then c.tradingDate else first) with h | ⟨x, hx, h⟩
    · rw [h]
      split
      · exact .inr ⟨c, List.mem_cons_self, rfl⟩
      · exact .inl rfl
    · exact .inr ⟨x, List.mem_cons_of_mem c hx, h⟩

namespace CWareHouseReader

variable {r r' : CWareHouseReader}

/-- A switch reads of some file. -/
theorem switchDay_size (hfiles : r.files ≠ []) (h : r.switchDay L = .ok r') : r'.size < r.size := by
  unfold switchDay at h
  split at h
  · rename_i hnil
    exact absurd hnil hfiles
  · rename_i c cs hcons
    dsimp only at h
    split at h
    · cases h
    · rename_i files hopen
      rw [Except.ok.injEq] at h
      rw [← h]
      refine (openDay_size hopen).2 ?_
      rw [hcons]
      rcases earliestDay_mem c.tradingDate cs with hday | ⟨x, hx, hday⟩
      · exact ⟨c, List.mem_cons_self, hday⟩
      · exact ⟨x, List.mem_cons_of_mem c hx, hday⟩

theorem filesSize_append (cs cs' : List CWareHouseFileCursor) :
    filesSize (cs ++ cs') = filesSize cs + filesSize cs' := by
  simp [filesSize]

/-- So does a step of one file. -/
theorem nextOf_size {i : Nat} {files : List CWareHouseFileCursor} (h : i < files.length) :
    filesSize (nextOf L i files) < filesSize files := by
  obtain ⟨l₁, c, l₂, rfl, rfl⟩ : ∃ l₁ c l₂, files = l₁ ++ c :: l₂ ∧ l₁.length = i :=
    ⟨files.take i, files[i], files.drop (i + 1), by rw [← List.drop_eq_getElem_cons h, List.take_append_drop],
      List.length_take_of_le (Nat.le_of_lt h)⟩
  unfold nextOf
  rw [List.getElem?_append_right (Nat.le_refl _), Nat.sub_self, List.getElem?_cons_zero]
  dsimp only
  split
  · rw [List.eraseIdx_append_of_length_le (Nat.le_refl _), Nat.sub_self, List.eraseIdx_cons_zero,
      filesSize_append, filesSize_append, filesSize_cons]
    omega
  · rename_i hpos
    have hnext := next_rest_lt (not_le.mp hpos)
    rw [List.set_append_right _ _ (Nat.le_refl _), Nat.sub_self, List.set_cons_zero, filesSize_append,
      filesSize_append, filesSize_cons, filesSize_cons]
    omega

theorem searchTick_lt {day : String} {files : List CWareHouseFileCursor} {i n : Nat}
    {r : Int × Option Nat} (hr : ∀ j, r.2 = some j → j < n) (hn : i + files.length ≤ n) {j : Nat}
    (h : (searchTick day files i r).2 = some j) : j < n := by
  induction files generalizing i r with
  | nil => exact hr j h
  | cons c cs ih =>
    rw [List.length_cons] at hn
    refine ih (i := i + 1) ?_ (by omega) h
    intro j hj
    split at hj
    · rw [Option.some.injEq] at hj
      omega
    · exact hr j hj

theorem merge_size {idx : Option Nat} (hfiles : r.files ≠ []) (h : r.merge L = .ok (r', idx)) :
    r'.size < r.size := by
  unfold merge at h
  split at h
  · rename_i localTime i hsearch
    have hlt : i < r.files.length :=
      searchTick_lt (r := (longMax, none)) (fun _ hj => nomatch hj) (Nat.le_of_eq (Nat.zero_add _))
        (congrArg Prod.snd hsearch)
    rw [Except.ok.injEq, Prod.mk.injEq] at h
    rw [← h.1]
    exact nextOf_size hlt
  · split at h
    · cases h
    · rename_i r'' hswitch
      rw [Except.ok.injEq, Prod.mk.injEq] at h
      rw [← h.1]
      exact switchDay_size hfiles hswitch

end CWareHouseReader

/-! ## Reading and positioning -/

namespace CWareHouseReader

/-- mirrors common/CWareHouseReader.cpp:265-272 -/
def readTick (L : Layout) (r : CWareHouseReader) :
    Except String (CWareHouseReader × Option MarketData) :=
  if hfiles : r.files = [] then .ok (r, none)
  else
    match h : r.merge L with
    | .error e => .error e
    | .ok (r', some _) => .ok (r', some r'.tick)
    | .ok (r', none) =>
      have := merge_size hfiles h
      readTick L r'
termination_by r.size

/-- What is under the names of files. -/
abbrev FileSystem := String → Option FileImage

/-- A file that cannot be opened is left out. mirrors common/CWareHouseReader.cpp:117-124 -/
def openFile (fs : FileSystem) (file : String) (r : CWareHouseReader) : CWareHouseReader :=
  match fs file with
  | none => r
  | some f =>
    { r with
        files := r.files ++
          [{ file := file, tradingDate := f.tradingDate, instCnt := f.instCnt, rest := f.bytes }] }

/-- mirrors common/CWareHouseReader.cpp:237-248 -/
def loadFileList (fs : FileSystem) (pattern : String) (dates : List String) (r : CWareHouseReader) :
    CWareHouseReader :=
  dates.foldl (fun r date => r.openFile fs (pattern.replace "${DAY}" date)) r

variable (L : Layout) (fs : FileSystem)

/-- `dates` gives the dates from a day to a day.
mirrors common/CWareHouseReader.cpp:250-262 -/
def loadFiles (dates : String → String → List String) (filePatterns : List String)
    (startDay endDay : String) (r : CWareHouseReader) : Except String CWareHouseReader :=
  let r := filePatterns.foldl (fun r i => loadFileList fs i (dates startDay endDay) r) r
  match r.switchDay L with
  | .error e => .error e
  | .ok r => .ok { r with filePatterns := filePatterns, startDay := startDay, endDay := endDay }

/-- mirrors common/CWareHouseReader.h:86-89 -/
def clear (r : CWareHouseReader) : CWareHouseReader := { r with files := [], curTradingDay := "" }

/-- The loop of `setReadPos`. mirrors common/CWareHouseReader.cpp:281-306 -/
def seek (nano : Int) (r : CWareHouseReader) : Except String CWareHouseReader :=
  match h : searchTick r.curTradingDay r.files 0 (longMax, none) with
  | (localTime, some i) =>
    if nano ≤ localTime then .ok r
    else
      let r' := { r with files := nextOf L i r.files }
      if r'.files = [] then .ok r'
      else
        have : filesSize (nextOf L i r.files) < r.size := nextOf_size
          (searchTick_lt (r := (longMax, none)) (fun _ hj => nomatch hj)
            (Nat.le_of_eq (Nat.zero_add _)) (congrArg Prod.snd h))
        seek nano r'
  | (_, none) =>
    match h : r.switchDay L with
    | .error e => .error e
    | .ok r' =>
      if hfiles : r'.files = [] then .ok r'
      else
        have : r'.size < r.size := switchDay_size (fun hnil => hfiles
          (by rw [switchDay, hnil] at h; rw [← Except.ok.inj h, hnil])) h
        seek nano r'
termination_by r.size

/-- `parseNano` gives the date of a time. mirrors common/CWareHouseReader.cpp:275-307 -/
def setReadPos (dates : String → String → List String) (parseNano : Int → String) (nano : Int)
    (r : CWareHouseReader) : Except String CWareHouseReader :=
  let r := r.clear
  let start := parseNano nano
  let start := if start < r.startDay then r.startDay else start
  match r.loadFiles L fs dates r.filePatterns start r.endDay with
  | .error e => .error e
  | .ok r => r.seek L nano

end CWareHouseReader

end NatFramework.Common
