import NatFramework.Common.Replay

/-!
# The files of the dumper

`dump/FileMgr` and the callback of `dump/CCTPMD`: a process opens a file for every
product and one for all of them, each with a head if it has none, and puts every
tick behind two of them.

* A disk has the bytes under a name; a file that is empty is as one that is not there.
* What `fwrite` takes from behind the text `""` is an argument of the process.
* `Holds`: a file is a head, its instruments and whole ticks.
* `regInstrument_spec`, `run_spec`: what a process makes of such a disk.
-/
namespace NatFramework.Dump

open Lib Common

/-- A byte is a character. -/
def textOf (bs : List UInt8) : String := String.ofList ((bs.takeWhile (· ≠ 0)).map fun b => Char.ofNat b.toNat)

/-- What is read of `Instrument`, and the whole of it.
mirrors dump/Structure.h:25-38 -/
structure Instrument (L : Layout) where
  instrStr : String
  exchStr : String
  prdStr : String
  bytes : List UInt8
  bytes_length : bytes.length = L.instSize

/-- A tick that is received, and the time of it.
mirrors dump/Structure.h:40-42 -/
structure Tick (L : Layout) where
  localTime : Int
  body : List UInt8
  body_length : body.length = L.bodySize

def Tick.head {L : Layout} (t : Tick L) : List UInt8 := leBytes 8 (t.localTime % 2 ^ 64).toNat

def Tick.instr {L : Layout} (t : Tick L) : String := (L.depth t.body).instrumentID

abbrev Disk := String → List UInt8

/-- `fwrite` to a file that is open to append. -/
def Disk.append (d : Disk) (name : String) (bs : List UInt8) : Disk := Function.update d name (d name ++ bs)

/-! ## The names of files -/

/-- `snprintf` to 256 bytes. -/
def cut (s : String) : String := String.ofList (s.toList.take 255)

/-- mirrors dump/FileMgr.cpp:57-66 -/
def prdFile (warehouse exch prd tradingDate : String) : String :=
  cut (cut (warehouse ++ "/China/" ++ exch ++ "/" ++ prd) ++ "/CTP_" ++ tradingDate ++ "_" ++ exch ++ "_" ++ prd ++
    ".data")

/-- mirrors dump/FileMgr.cpp:99-108 -/
def allFile (warehouse tradingDate : String) : String :=
  cut (cut (warehouse ++ "/China/All") ++ "/CTP_" ++ tradingDate ++ "_All.data")

/-! ## FileMgr -/

/-- mirrors dump/FileMgr.h:47-53 -/
structure FileMgr (L : Layout) where
  mapInstrPrd : String → String := fun _ => ""
  mapPrdInstr : String → List (Instrument L) := fun _ => []
  mapPrdExch : String → String := fun _ => ""
  mapPrdFile : String → Option String := fun _ => none
  pfAll : Option String := none

/-- One life of the process, from the instruments that the market has given: the order in
which it goes through their products, which files can be opened, and what it receives. -/
structure Process (L : Layout) where
  tradingDate : List UInt8
  instrs : List (Instrument L)
  order : List String
  opens : String → Bool
  pad16 : List UInt8
  pad32 : List UInt8
  ticks : List (Tick L)

section Run

variable {L : Layout} (warehouse : String)

/-- mirrors dump/FileMgr.cpp:48-52 -/
def FileMgr.note (m : FileMgr L) (i : Instrument L) : FileMgr L :=
  { m with
    mapInstrPrd := Function.update m.mapInstrPrd i.instrStr i.prdStr
    mapPrdInstr := Function.update m.mapPrdInstr i.prdStr (m.mapPrdInstr i.prdStr ++ [i])
    mapPrdExch := Function.update m.mapPrdExch i.prdStr i.exchStr }

/-- mirrors dump/FileMgr.cpp:147-150 -/
def FileMgr.getFilePtr (m : FileMgr L) (instr : String) : Option String := m.mapPrdFile (m.mapInstrPrd instr)

namespace Process

def day (s : Process L) : String := textOf s.tradingDate

/-- mirrors dump/FileMgr.cpp:80-92 -/
def head (s : Process L) (instrs : List (Instrument L)) : List UInt8 :=
  leBytes 4 1 ++ leBytes 4 1 ++ leBytes 4 101 ++ s.pad16 ++ s.tradingDate ++ s.pad32 ++ leBytes 4 instrs.length ++
    instrs.flatMap Instrument.bytes

/-- mirrors dump/FileMgr.cpp:67-93,109-134 -/
def openFile (s : Process L) (name : String) (instrs : List (Instrument L)) (d : Disk) : Disk :=
  if d name = [] then d.append name (s.head instrs) else d

/-- The file of a product. -/
def fileOf (s : Process L) (m : FileMgr L) (prd : String) : String := prdFile warehouse (m.mapPrdExch prd) prd s.day

/-- The loop over the products. mirrors dump/FileMgr.cpp:54-97 -/
def openPrds (s : Process L) : List String → FileMgr L → Disk → FileMgr L × Disk × Bool
  | [], m, d => (m, d, true)
  | prd :: prds, m, d =>
    let name := s.fileOf warehouse m prd
    if s.opens name then
      s.openPrds prds { m with mapPrdFile := Function.update m.mapPrdFile prd (some name) }
        (s.openFile name (m.mapPrdInstr prd) d)
    else (m, d, false)

/-- mirrors dump/FileMgr.cpp:42-138 -/
def regInstrument (s : Process L) (d : Disk) : FileMgr L × Disk × Bool :=
  let r := s.openPrds warehouse s.order (s.instrs.foldl FileMgr.note {}) d
  if r.2.2 then
    let name := allFile warehouse s.day
    if s.opens name then ({ r.1 with pfAll := some name }, s.openFile name s.instrs r.2.1, true)
    else (r.1, r.2.1, false)
  else r

end Process

/-- `none`: a tick goes to a file that is not open.
mirrors dump/CCTPMD.cpp:158-174 -/
def onRtnDepthMarketData (m : FileMgr L) (d : Disk) (t : Tick L) : Option Disk :=
  match m.pfAll, m.getFilePtr t.instr with
  | some all, some file => some ((d.append all (t.head ++ t.body)).append file (t.head ++ t.body))
  | _, _ => none

/-- What has been written is there when the process ends: `exit` flushes the files.
mirrors dump/CTPDumper.cpp:22-160 -/
def Process.run (s : Process L) (d : Disk) : Option Disk :=
  let r := s.regInstrument warehouse d
  if r.2.2 then s.ticks.foldlM (onRtnDepthMarketData r.1) r.2.1 else some r.2.1

/-- One process behind the other. -/
def runAll (ss : List (Process L)) (d : Disk) : Option Disk := ss.foldlM (fun d s => s.run warehouse d) d

end Run

/-! ## The head -/

/-- The size of `tFileHeadV1` without the instruments. -/
def fileHeadSize : Nat := 80

/-- mirrors common/CWareHouseReader.cpp:36-46, common/CWareHouseReader.h:31-41 -/
def fileImage (bs : List UInt8) : Option FileImage :=
  let head := bs.take fileHeadSize
  if head.length ≠ fileHeadSize then none
  else
    some
      { tradingDate := textOf (head.drop 28), instCnt := Int.bmod (ofLe (head.drop 76)) (2 ^ 32)
        bytes := bs.drop fileHeadSize }

/-- The files for the reader. -/
def Disk.files (d : Disk) : CWareHouseReader.FileSystem := fun name => fileImage (d name)

/-! ## Names that say what the file is of -/

inductive FileKey where
  | allOf (day : String)
  | prdOf (exch prd day : String)
  deriving DecidableEq

namespace FileKey

variable {warehouse : String} {k k' : FileKey}

def day : FileKey → String
  | allOf day => day
  | prdOf _ _ day => day

def name (warehouse : String) : FileKey → String
  | allOf day => allFile warehouse day
  | prdOf exch prd day => prdFile warehouse exch prd day

/-- No part of it is cut off, or has a directory in it. -/
def Plain (warehouse : String) : FileKey → Prop
  | allOf day => '/' ∉ day.toList ∧ warehouse.length + day.length + 24 < 256
  | prdOf exch prd day =>
    '/' ∉ exch.toList ∧ '/' ∉ prd.toList ∧ warehouse.length + day.length + 2 * (exch.length + prd.length) + 20 < 256

theorem cut_eq {s : String} (h : s.length < 256) : cut s = s := by
  rw [cut, List.take_of_length_le (by rw [String.length_toList]; omega), String.ofList_toList]

theorem toList_all {day : String} (h : (allOf day).Plain warehouse) :
    ((allOf day).name warehouse).toList =
      warehouse.toList ++ ("/China/".toList ++ ("All".toList ++ '/' ::
        ("CTP_".toList ++ (day.toList ++ "_All.data".toList)))) := by
  obtain ⟨-, hlen⟩ := h
  have hdir : (warehouse ++ "/China/All").length < 256 := by
    rw [String.length_append, show "/China/All".length = 10 from rfl]
    omega
  change (allFile warehouse day).toList = _
  rw [allFile, cut_eq hdir, cut_eq]
  · simp
  · simp only [String.length_append, show "/China/All".length = 10 from rfl, show "/CTP_".length = 5 from rfl,
      show "_All.data".length = 9 from rfl]
    omega

theorem toList_prd {exch prd day : String} (h : (prdOf exch prd day).Plain warehouse) :
    ((prdOf exch prd day).name warehouse).toList =
      warehouse.toList ++ ("/China/".toList ++ (exch.toList ++ '/' :: (prd.toList ++ '/' ::
        ("CTP_".toList ++ (day.toList ++ ("_".toList ++ exch.toList ++ "_".toList ++ prd.toList ++ ".data".toList)))))) := by
  obtain ⟨-, -, hlen⟩ := h
  have hdir : (warehouse ++ "/China/" ++ exch ++ "/" ++ prd).length < 256 := by
    simp only [String.length_append, show "/China/".length = 7 from rfl, show "/".length = 1 from rfl]
    omega
  change (prdFile warehouse exch prd day).toList = _
  rw [prdFile, cut_eq hdir, cut_eq]
  · simp
  · simp only [String.length_append, show "/China/".length = 7 from rfl, show "/".length = 1 from rfl,
      show "/CTP_".length = 5 from rfl, show "_".length = 1 from rfl, show ".data".length = 5 from rfl]
    omega

/-- Up to the first slash. -/
theorem slash_inj {a b r s : List Char} (ha : '/' ∉ a) (hb : '/' ∉ b) (h : a ++ '/' :: r = b ++ '/' :: s) :
    a = b ∧ r = s := by
  induction a generalizing b with
  | nil =>
    cases b with
    | nil => exact ⟨rfl, (List.cons.inj h).2⟩
    | cons x b => exact absurd ((List.cons.inj h).1 ▸ List.mem_cons_self) hb
  | cons x a ih =>
    cases b with
    | nil => exact absurd ((List.cons.inj h).1 ▸ List.mem_cons_self) ha
    | cons y b =>
      obtain ⟨hxy, htail⟩ := List.cons.inj h
      obtain ⟨hab, hrs⟩ := ih (fun hm => ha (List.mem_cons_of_mem x hm)) (fun hm => hb (List.mem_cons_of_mem y hm)) htail
      exact ⟨by rw [hxy, hab], hrs⟩

/-- Two files have two names. -/
theorem name_inj (h : k.Plain warehouse) (h' : k'.Plain warehouse) (heq : k.name warehouse = k'.name warehouse) :
    k = k' := by
  have hall : '/' ∉ "All".toList := by decide
  have hflat : ∀ day : String, '/' ∉ day.toList → '/' ∉ "CTP_".toList ++ (day.toList ++ "_All.data".toList) := by
    intro day hday hm
    rcases List.mem_append.mp hm with hm | hm
    · exact absurd hm (by decide)
    · rcases List.mem_append.mp hm with hm | hm
      · exact hday hm
      · exact absurd hm (by decide)
  -- an exchange `All` would need a directory more
  have hapart : ∀ {day exch prd day' : String}, (allOf day).Plain warehouse → (prdOf exch prd day').Plain warehouse →
      (allOf day).name warehouse ≠ (prdOf exch prd day').name warehouse := by
    intro day exch prd day' ha hp hname
    have hlist := congrArg String.toList hname
    rw [toList_all ha, toList_prd hp] at hlist
    obtain ⟨-, hrest⟩ := slash_inj hall hp.1 (List.append_cancel_left (List.append_cancel_left hlist))
    exact hflat day ha.1 (hrest ▸ List.mem_append_right _ List.mem_cons_self)
  cases k with
  | allOf day =>
    cases k' with
    | allOf day' =>
      have hlist := congrArg String.toList heq
      rw [toList_all h, toList_all h'] at hlist
      obtain ⟨-, hrest⟩ := slash_inj hall hall (List.append_cancel_left (List.append_cancel_left hlist))
      rw [String.toList_inj.mp (List.append_cancel_right (List.append_cancel_left hrest))]
    | prdOf exch prd day' => exact absurd heq (hapart h h')
  | prdOf exch prd day =>
    cases k' with
    | allOf day' => exact absurd heq.symm (hapart h' h)
    | prdOf exch' prd' day' =>
      have hlist := congrArg String.toList heq
      rw [toList_prd h, toList_prd h'] at hlist
      obtain ⟨hexch, hrest⟩ := slash_inj h.1 h'.1 (List.append_cancel_left (List.append_cancel_left hlist))
      obtain ⟨hprd, hrest⟩ := slash_inj h.2.1 h'.2.1 hrest
      obtain rfl := String.toList_inj.mp hexch
      obtain rfl := String.toList_inj.mp hprd
      rw [String.toList_inj.mp (List.append_cancel_right (List.append_cancel_left hrest))]

end FileKey

/-! ## What stands on the disk -/

section Disk

variable {L : Layout} {warehouse : String} {d : Disk} {s : Process L} {k : FileKey} {wr : List (FileKey × Tick L)}

/-- The fields of a head have their sizes, and the date has an end. -/
structure Process.HeadOk (s : Process L) : Prop where
  date : s.tradingDate.length = 16
  nul : 0 ∈ s.tradingDate
  pad16 : s.pad16.length = 16
  pad32 : s.pad32.length = 32

/-- A file of a day with these ticks; or none, and no tick. -/
inductive Formed (day : String) : List UInt8 → List (Tick L) → Prop where
  | absent : Formed day [] []
  | file {s : Process L} {instrs : List (Instrument L)} (ts : List (Tick L)) : s.day = day → s.HeadOk →
    instrs.length < 2 ^ 31 → Formed day (s.head instrs ++ ts.flatMap fun t => t.head ++ t.body) ts

/-- Every file has the ticks that were put into it. -/
def Holds (warehouse : String) (d : Disk) (wr : List (FileKey × Tick L)) : Prop :=
  ∀ k : FileKey, k.Plain warehouse → Formed k.day (d (k.name warehouse)) ((wr.filter fun x => x.1 = k).map Prod.snd)

theorem holds_empty : Holds (L := L) warehouse (fun _ => []) [] := fun _ _ => .absent

theorem head_ne_nil (s : Process L) (instrs : List (Instrument L)) : s.head instrs ≠ [] := by
  simp [Process.head, leBytes]

theorem append_ne_nil {name n : String} {bs : List UInt8} (h : d n ≠ []) : d.append name bs n ≠ [] := by
  unfold Disk.append
  by_cases hn : n = name
  · subst hn
    rw [Function.update_self]
    exact fun hnil => h (List.append_eq_nil_iff.mp hnil).1
  · rwa [Function.update_of_ne hn]

theorem openFile_ne_nil (name : String) (instrs : List (Instrument L)) : s.openFile name instrs d name ≠ [] := by
  unfold Process.openFile
  split
  · rw [Disk.append, Function.update_self]
    exact fun hnil => head_ne_nil s instrs (List.append_eq_nil_iff.mp hnil).2
  · assumption

theorem openFile_kept {name n : String} {instrs : List (Instrument L)} (h : d n ≠ []) :
    s.openFile name instrs d n ≠ [] := by
  unfold Process.openFile
  split
  · exact append_ne_nil h
  · exact h

theorem Holds.openFile (h : Holds warehouse d wr) (hk : k.Plain warehouse) (hday : s.day = k.day) (hs : s.HeadOk)
    {instrs : List (Instrument L)} (hcnt : instrs.length < 2 ^ 31) :
    Holds warehouse (s.openFile (k.name warehouse) instrs d) wr := by
  intro k' hk'
  unfold Process.openFile
  split
  · rename_i hnil
    by_cases hkk : k' = k
    · subst hkk
      have hform := h k' hk'
      rw [hnil] at hform
      rw [Disk.append, Function.update_self, hnil, List.nil_append]
      generalize (wr.filter fun x => x.1 = k').map Prod.snd = ts at hform ⊢
      generalize hbs : ([] : List UInt8) = bs at hform
      cases hform with
      | absent => simpa using Formed.file [] hday hs hcnt
      | file ts => exact absurd (List.append_eq_nil_iff.mp hbs.symm).1 (head_ne_nil _ _)
    · rw [Disk.append, Function.update_of_ne fun heq => hkk (FileKey.name_inj hk' hk heq)]
      exact h k' hk'
  · exact h k' hk'

theorem Formed.append {day : String} {bs : List UInt8} {ts : List (Tick L)} (h : Formed day bs ts) (hne : bs ≠ [])
    (t : Tick L) : Formed day (bs ++ (t.head ++ t.body)) (ts ++ [t]) := by
  cases h with
  | absent => exact absurd rfl hne
  | file ts hday hs hcnt => simpa using Formed.file (ts ++ [t]) hday hs hcnt

theorem Holds.append (h : Holds warehouse d wr) (hk : k.Plain warehouse) (hne : d (k.name warehouse) ≠ [])
    (t : Tick L) : Holds warehouse (d.append (k.name warehouse) (t.head ++ t.body)) (wr ++ [(k, t)]) := by
  intro k' hk'
  rw [List.filter_append, List.map_append]
  by_cases hkk : k' = k
  · subst hkk
    rw [Disk.append, Function.update_self, List.filter_cons_of_pos (by simp)]
    exact (h k' hk').append hne t
  · rw [Disk.append, Function.update_of_ne fun heq => hkk (FileKey.name_inj hk' hk heq),
      List.filter_cons_of_neg (by simpa using fun heq => hkk heq.symm), List.filter_nil, List.map_nil, List.append_nil]
    exact h k' hk'

end Disk

/-! ## A process -/

section Process

variable {L : Layout} {warehouse : String} {d : Disk} {s : Process L} {wr : List (FileKey × Tick L)}

/-- The tables of the instruments, before a file is open. -/
def Process.maps (s : Process L) : FileMgr L := s.instrs.foldl FileMgr.note {}

def Process.prdKey (s : Process L) (prd : String) : FileKey := .prdOf (s.maps.mapPrdExch prd) prd s.day

/-- The file of the product of a tick. -/
def Process.tickKey (s : Process L) (t : Tick L) : FileKey := s.prdKey (s.maps.mapInstrPrd t.instr)

/-- All files can be opened. -/
def Process.starts (warehouse : String) (s : Process L) : Bool :=
  s.order.all (fun prd => s.opens ((s.prdKey prd).name warehouse)) && s.opens (allFile warehouse s.day)

/-- What it puts into which file. -/
def Process.writes (warehouse : String) (s : Process L) : List (FileKey × Tick L) :=
  if s.starts warehouse then s.ticks.flatMap fun t => [(.allOf s.day, t), (s.tickKey t, t)] else []

/-- What the market is taken to give, and the names that come of it. -/
structure Process.Valid (warehouse : String) (s : Process L) : Prop where
  headOk : s.HeadOk
  count : s.instrs.length < 2 ^ 31
  order : ∀ prd, prd ∈ s.order ↔ ∃ i ∈ s.instrs, i.prdStr = prd
  all : (FileKey.allOf s.day).Plain warehouse
  prds : ∀ i ∈ s.instrs, (FileKey.prdOf i.exchStr i.prdStr s.day).Plain warehouse
  known : ∀ t ∈ s.ticks, ∃ i ∈ s.instrs, i.instrStr = t.instr

/-- A table that is written again and again: who has written last. -/
theorem foldl_update {α β γ : Type} [DecidableEq β] (f : α → β) (g : α → γ) (xs : List α) (m : β → γ) (y : β) :
    (xs.foldl (fun m x => Function.update m (f x) (g x)) m y = m y ∧ ∀ x ∈ xs, f x ≠ y) ∨
      ∃ x ∈ xs, f x = y ∧ xs.foldl (fun m x => Function.update m (f x) (g x)) m y = g x := by
  induction xs generalizing m with
  | nil => exact .inl ⟨rfl, fun x hx => nomatch hx⟩
  | cons x xs ih =>
    rw [List.foldl_cons]
    rcases ih (Function.update m (f x) (g x)) with ⟨hsame, hnone⟩ | ⟨x', hx', hy, hg⟩
    · by_cases hy : f x = y
      · refine .inr ⟨x, List.mem_cons_self, hy, ?_⟩
        rw [hsame, ← hy, Function.update_self]
      · refine .inl ⟨?_, fun x' hx' => ?_⟩
        · rw [hsame, Function.update_of_ne (Ne.symm hy)]
        · rcases List.mem_cons.mp hx' with rfl | hx'
          · exact hy
          · exact hnone x' hx'
    · exact .inr ⟨x', List.mem_cons_of_mem x hx', hy, hg⟩

theorem maps_eq (is : List (Instrument L)) (m : FileMgr L) :
    (is.foldl FileMgr.note m).mapInstrPrd =
        is.foldl (fun m i => Function.update m i.instrStr i.prdStr) m.mapInstrPrd ∧
      (is.foldl FileMgr.note m).mapPrdExch =
        is.foldl (fun m i => Function.update m i.prdStr i.exchStr) m.mapPrdExch := by
  induction is generalizing m with
  | nil => exact ⟨rfl, rfl⟩
  | cons i is ih => exact ih (m.note i)

theorem length_mapPrdInstr (is : List (Instrument L)) (m : FileMgr L) (prd : String) :
    ((is.foldl FileMgr.note m).mapPrdInstr prd).length ≤ (m.mapPrdInstr prd).length + is.length := by
  induction is generalizing m with
  | nil => exact Nat.le_refl _
  | cons i is ih =>
    have hnote : ((m.note i).mapPrdInstr prd).length ≤ (m.mapPrdInstr prd).length + 1 := by
      unfold FileMgr.note
      dsimp only
      by_cases hprd : prd = i.prdStr
      · subst hprd
        rw [Function.update_self, List.length_append, List.length_singleton]
      · rw [Function.update_of_ne hprd]
        exact Nat.le_succ _
    have hrest := ih (m.note i)
    rw [List.foldl_cons, List.length_cons]
    omega

namespace Process.Valid

theorem plain (h : s.Valid warehouse) {prd : String} (hprd : prd ∈ s.order) : (s.prdKey prd).Plain warehouse := by
  obtain ⟨i, hi, hip⟩ := (h.order prd).mp hprd
  unfold Process.prdKey Process.maps
  rw [(maps_eq s.instrs {}).2]
  rcases foldl_update Instrument.prdStr Instrument.exchStr s.instrs (fun _ => "") prd with ⟨-, hnone⟩ | ⟨j, hj, hjp, hexch⟩
  · exact absurd hip (hnone i hi)
  · have hplain := h.prds j hj
    rw [hjp] at hplain
    exact hexch ▸ hplain

theorem product (h : s.Valid warehouse) {t : Tick L} (ht : t ∈ s.ticks) : s.maps.mapInstrPrd t.instr ∈ s.order := by
  obtain ⟨i, hi, hit⟩ := h.known t ht
  unfold Process.maps
  rw [(maps_eq s.instrs {}).1]
  rcases foldl_update Instrument.instrStr Instrument.prdStr s.instrs (fun _ => "") t.instr with
    ⟨-, hnone⟩ | ⟨j, hj, -, hprd⟩
  · exact absurd hit (hnone i hi)
  · exact (h.order _).mpr ⟨j, hj, hprd.symm⟩

end Process.Valid

/-- The file of a product is open. -/
def OpenPrd (warehouse : String) (s : Process L) (m : FileMgr L) (d : Disk) (prd : String) : Prop :=
  m.mapPrdFile prd = some ((s.prdKey prd).name warehouse) ∧ d ((s.prdKey prd).name warehouse) ≠ []

theorem openPrds_spec (hs : s.Valid warehouse) {prds : List String} (hprds : ∀ prd ∈ prds, prd ∈ s.order)
    {m : FileMgr L} (hinstr : m.mapPrdInstr = s.maps.mapPrdInstr) (hexch : m.mapPrdExch = s.maps.mapPrdExch)
    (h : Holds warehouse d wr) :
    (s.openPrds warehouse prds m d).2.2 = prds.all (fun prd => s.opens ((s.prdKey prd).name warehouse)) ∧
      Holds warehouse (s.openPrds warehouse prds m d).2.1 wr ∧
      ((s.openPrds warehouse prds m d).2.2 = true →
        (s.openPrds warehouse prds m d).1.mapInstrPrd = m.mapInstrPrd ∧
        ∀ prd, prd ∈ prds ∨ OpenPrd warehouse s m d prd →
          OpenPrd warehouse s (s.openPrds warehouse prds m d).1 (s.openPrds warehouse prds m d).2.1 prd) := by
  induction prds generalizing m d with
  | nil => exact ⟨rfl, h, fun _ => ⟨rfl, fun prd hprd => hprd.resolve_left (fun hm => nomatch hm)⟩⟩
  | cons prd prds ih =>
    have hkey : s.fileOf warehouse m prd = (s.prdKey prd).name warehouse := by
      rw [Process.fileOf, hexch]
      rfl
    have hplain := hs.plain (hprds prd List.mem_cons_self)
    have hcnt : (m.mapPrdInstr prd).length < 2 ^ 31 := by
      have hle := length_mapPrdInstr s.instrs {} prd
      have hmax := hs.count
      rw [hinstr]
      unfold Process.maps
      dsimp only [List.length_nil] at hle
      omega
    rw [Process.openPrds, hkey, List.all_cons]
    cases hopens : s.opens ((s.prdKey prd).name warehouse) with
    | false => exact ⟨rfl, h, fun hok => by cases hok⟩
    | true =>
      rw [if_pos rfl, Bool.true_and]
      obtain ⟨hok, hholds, hopen⟩ := ih (fun p hp => hprds p (List.mem_cons_of_mem prd hp))
        (m := { m with mapPrdFile := Function.update m.mapPrdFile prd (some ((s.prdKey prd).name warehouse)) })
        hinstr hexch (h.openFile hplain rfl hs.headOk hcnt)
      refine ⟨hok, hholds, fun htrue => ⟨(hopen htrue).1, fun p hp => (hopen htrue).2 p ?_⟩⟩
      by_cases hpp : p = prd
      · subst hpp
        exact .inr ⟨Function.update_self .., openFile_ne_nil _ _⟩
      · rcases hp with hp | ⟨hfile, hne⟩
        · exact .inl ((List.mem_cons.mp hp).resolve_left hpp)
        · exact .inr ⟨(Function.update_of_ne hpp ..).trans hfile, openFile_kept hne⟩

/-- Every file that a tick can go to is open. -/
structure Ready (warehouse : String) (s : Process L) (m : FileMgr L) (d : Disk) : Prop where
  all : m.pfAll = some (allFile warehouse s.day)
  there : d (allFile warehouse s.day) ≠ []
  instr : m.mapInstrPrd = s.maps.mapInstrPrd
  prds : ∀ prd ∈ s.order, OpenPrd warehouse s m d prd

theorem regInstrument_spec (hs : s.Valid warehouse) (h : Holds warehouse d wr) :
    (s.regInstrument warehouse d).2.2 = s.starts warehouse ∧ Holds warehouse (s.regInstrument warehouse d).2.1 wr ∧
      ((s.regInstrument warehouse d).2.2 = true →
        Ready warehouse s (s.regInstrument warehouse d).1 (s.regInstrument warehouse d).2.1) := by
  obtain ⟨hok, hholds, hopen⟩ := openPrds_spec (m := s.maps) hs (fun _ hprd => hprd) rfl rfl h
  unfold Process.regInstrument Process.starts
  rw [show s.instrs.foldl FileMgr.note {} = s.maps from rfl, ← hok]
  dsimp only
  cases hr : (s.openPrds warehouse s.order s.maps d).2.2 with
  | false =>
    rw [if_neg Bool.false_ne_true, hr]
    exact ⟨rfl, hholds, fun htrue => by cases htrue⟩
  | true =>
    obtain ⟨hinstr, hprds⟩ := hopen hr
    rw [if_pos rfl, Bool.true_and]
    cases hopens : s.opens (allFile warehouse s.day) with
    | false => exact ⟨rfl, hholds, fun htrue => by cases htrue⟩
    | true =>
      refine ⟨rfl, hholds.openFile hs.all rfl hs.headOk hs.count, fun _ => ⟨rfl, openFile_ne_nil _ _, hinstr, ?_⟩⟩
      intro prd hprd
      obtain ⟨hfile, hne⟩ := hprds prd (.inl hprd)
      exact ⟨hfile, openFile_kept hne⟩

/-- One tick goes to its two files. -/
theorem Ready.tick {m : FileMgr L} (hm : Ready warehouse s m d) (hs : s.Valid warehouse)
    (h : Holds warehouse d wr) {t : Tick L} (hprd : s.maps.mapInstrPrd t.instr ∈ s.order) :
    ∃ d', onRtnDepthMarketData m d t = some d' ∧ Ready warehouse s m d' ∧
      Holds warehouse d' (wr ++ [(.allOf s.day, t), (s.tickKey t, t)]) := by
  obtain ⟨hfile, hne⟩ := hm.prds _ hprd
  have hkept : ∀ n, d n ≠ [] →
      (d.append (allFile warehouse s.day) (t.head ++ t.body)).append ((s.tickKey t).name warehouse) (t.head ++ t.body) n ≠
        [] := fun n hn => append_ne_nil (append_ne_nil hn)
  refine ⟨_, ?_, ⟨hm.all, hkept _ hm.there, hm.instr, fun prd hp => ?_⟩, ?_⟩
  · rw [onRtnDepthMarketData, hm.all, FileMgr.getFilePtr, hm.instr, hfile]
    rfl
  · exact ⟨(hm.prds prd hp).1, hkept _ (hm.prds prd hp).2⟩
  · have hall := h.append hs.all hm.there t
    have hboth := hall.append (hs.plain hprd) (append_ne_nil hne) t
    rwa [List.append_assoc] at hboth

theorem Ready.ticks {m : FileMgr L} {ts : List (Tick L)} (hm : Ready warehouse s m d) (hs : s.Valid warehouse)
    (h : Holds warehouse d wr) (hprds : ∀ t ∈ ts, s.maps.mapInstrPrd t.instr ∈ s.order) :
    ∃ d', ts.foldlM (onRtnDepthMarketData m) d = some d' ∧
      Holds warehouse d' (wr ++ ts.flatMap fun t => [(.allOf s.day, t), (s.tickKey t, t)]) := by
  induction ts generalizing d wr with
  | nil => exact ⟨d, rfl, by rwa [List.flatMap_nil, List.append_nil]⟩
  | cons t ts ih =>
    obtain ⟨d₁, hstep, hm₁, hd₁⟩ := hm.tick hs h (hprds t List.mem_cons_self)
    obtain ⟨d₂, hrest, hd₂⟩ := ih hm₁ hd₁ fun t' ht' => hprds t' (List.mem_cons_of_mem t ht')
    refine ⟨d₂, ?_, ?_⟩
    · rw [List.foldlM_cons, hstep]
      exact hrest
    · rwa [List.flatMap_cons, ← List.append_assoc]

theorem run_spec (hs : s.Valid warehouse) (h : Holds warehouse d wr) :
    ∃ d', s.run warehouse d = some d' ∧ Holds warehouse d' (wr ++ s.writes warehouse) := by
  obtain ⟨hok, hholds, hready⟩ := regInstrument_spec hs h
  unfold Process.run Process.writes
  dsimp only
  rw [← hok]
  cases hr : (s.regInstrument warehouse d).2.2 with
  | false => exact ⟨_, rfl, by rwa [if_neg Bool.false_ne_true, List.append_nil]⟩
  | true =>
    rw [if_pos rfl, if_pos rfl]
    exact (hready hr).ticks hs hholds fun t ht => hs.product ht

theorem runAll_spec {ss : List (Process L)} (hs : ∀ s ∈ ss, s.Valid warehouse) (h : Holds warehouse d wr) :
    ∃ d', runAll warehouse ss d = some d' ∧ Holds warehouse d' (wr ++ ss.flatMap (Process.writes warehouse)) := by
  induction ss generalizing d wr with
  | nil => exact ⟨d, rfl, by rwa [List.flatMap_nil, List.append_nil]⟩
  | cons s ss ih =>
    obtain ⟨d₁, hrun, hd₁⟩ := run_spec (hs s List.mem_cons_self) h
    obtain ⟨d₂, hrest, hd₂⟩ := ih (fun s' hs' => hs s' (List.mem_cons_of_mem s hs')) hd₁
    refine ⟨d₂, ?_, ?_⟩
    · rw [runAll, List.foldlM_cons, hrun]
      exact hrest
    · rwa [List.flatMap_cons, ← List.append_assoc]

end Process

end NatFramework.Dump
