import Mathlib.Data.Prod.Lex
import NatFramework.Common.CWareHouseReader
import NatFramework.Lib.KMerge

/-!
# Replaying warehouse files

A well-formed file (`WareHouseFile`) is its instruments and whole ticks in the order
of their times. The ticks that the reader has still to give are queues, one for
each cursor (`Pending`), and what it gives is their merge by day and time.

* `readTick_spec`, `seek_spec`: what a call takes of the merge.
* `sorted_merge`: the files as a whole, and what `setReadPos` leaves of them.
* `last_nano_lost`: the time `LONG_MAX` stands for no tick, and is never read.
-/
namespace NatFramework.Common

open Lib

/-! ## Well-formed files -/

/-- The head and the body of a tick. -/
structure Record (L : Layout) where
  head : List UInt8
  body : List UInt8
  head_length : head.length = headSize
  body_length : body.length = L.bodySize

variable {L : Layout}

namespace Record

def bytes (r : Record L) : List UInt8 := r.head ++ r.body

def localTime (r : Record L) : Int := toLong (ofLe r.head)

def umd (r : Record L) : MarketData := L.marketData r.localTime (L.depth r.body)

end Record

structure WareHouseFile (L : Layout) where
  tradingDate : String
  infos : List (List UInt8)
  records : List (Record L)
  infos_length : ∀ i ∈ infos, i.length = L.instSize
  sorted : records.Pairwise fun a b => a.localTime ≤ b.localTime

/-- What the client sees of a tick: the trading day, the reader's time and the data. -/
structure ReplayTick where
  tradingDay : String
  localTime : Int
  data : MarketData

def ReplayTick.key (t : ReplayTick) : Lex (String × Int) := toLex (t.tradingDay, t.localTime)

def ticksOf (day : String) (rs : List (Record L)) : List ReplayTick :=
  rs.map fun r => { tradingDay := day, localTime := r.localTime, data := r.umd }

namespace WareHouseFile

def image (f : WareHouseFile L) : FileImage :=
  { tradingDate := f.tradingDate, instCnt := f.infos.length
    bytes := f.infos.flatten ++ f.records.flatMap Record.bytes }

def ticks (f : WareHouseFile L) : List ReplayTick := ticksOf f.tradingDate f.records

end WareHouseFile

/-! ## Cursors in a well-formed file -/

theorem getInstrumentInfo_ok {c : CWareHouseFileCursor} {infos : List (List UInt8)} {bytes : List UInt8}
    (hlen : ∀ i ∈ infos, i.length = L.instSize) (hrest : c.rest = infos.flatten ++ bytes)
    (hcnt : c.instCnt = infos.length) :
    c.getInstrumentInfo L = .ok { c with rest := bytes } := by
  have hskip : ∀ (infos : List (List UInt8)) (c : CWareHouseFileCursor),
      (∀ i ∈ infos, i.length = L.instSize) → c.rest = infos.flatten ++ bytes →
      CWareHouseFileCursor.skipInfos L infos.length c = .ok { c with rest := bytes } := by
    intro infos
    induction infos with
    | nil =>
      intro c _ hrest
      rw [List.length_nil, CWareHouseFileCursor.skipInfos]
      rw [List.flatten_nil, List.nil_append] at hrest
      rw [← hrest]
    | cons i infos ih =>
      intro c hlen hrest
      have hi := hlen i List.mem_cons_self
      rw [List.flatten_cons, List.append_assoc] at hrest
      rw [List.length_cons, CWareHouseFileCursor.skipInfos, hrest, ← hi, List.take_left,
        if_neg (Nat.lt_irrefl _), List.drop_left]
      exact ih _ (fun j hj => hlen j (List.mem_cons_of_mem i hj)) rfl
  unfold CWareHouseFileCursor.getInstrumentInfo
  have hn : c.instCnt.toNat = infos.length := by rw [hcnt, Int.toNat_natCast]
  rw [hn]
  exact hskip infos c hlen hrest

theorem next_nil {c : CWareHouseFileCursor} (hrest : c.rest = []) : (c.next L).1 = 0 := by
  unfold CWareHouseFileCursor.next
  rw [hrest]
  rfl

theorem next_cons {c : CWareHouseFileCursor} {r : Record L} {bytes : List UInt8}
    (hrest : c.rest = r.bytes ++ bytes) :
    c.next L = ((L.bodySize : Int), { c with rest := bytes, localTime := r.localTime, umd := r.umd }) := by
  have hhead : c.rest.take headSize = r.head := by
    rw [hrest, Record.bytes, List.append_assoc, ← r.head_length, List.take_left]
  have hdrop : c.rest.drop headSize = r.body ++ bytes := by
    rw [hrest, Record.bytes, List.append_assoc, ← r.head_length, List.drop_left]
  have hbody : (r.body ++ bytes).take L.bodySize = r.body := by
    rw [← r.body_length, List.take_left]
  have hleft : (r.body ++ bytes).drop L.bodySize = bytes := by
    rw [← r.body_length, List.drop_left]
  have hpos := L.bodySize_pos
  unfold CWareHouseFileCursor.next
  dsimp only
  rw [hhead, hdrop, hbody, hleft, r.head_length, r.body_length, if_neg (by decide),
    if_neg (not_not.mpr rfl), if_neg (Nat.ne_of_gt hpos), if_neg (not_not.mpr rfl)]
  rfl

/-- The ticks of a cursor that no tick has been read from. -/
def Unread (c : CWareHouseFileCursor) (q : List ReplayTick) : Prop :=
  ∃ (infos : List (List UInt8)) (rs : List (Record L)),
    c.instCnt = infos.length ∧ (∀ i ∈ infos, i.length = L.instSize) ∧
      c.rest = infos.flatten ++ rs.flatMap Record.bytes ∧ q = ticksOf c.tradingDate rs ∧
      ∀ r ∈ rs, r.localTime < longMax

/-- The ticks of a cursor whose next one has been read ahead. -/
def ReadAhead (c : CWareHouseFileCursor) (q : List ReplayTick) : Prop :=
  ∃ rs : List (Record L),
    c.rest = rs.flatMap Record.bytes ∧ c.localTime < longMax ∧
      q = { tradingDay := c.tradingDate, localTime := c.localTime, data := c.umd } ::
        ticksOf c.tradingDate rs ∧
      ∀ r ∈ rs, r.localTime < longMax

/-- The ticks of a cursor on day `cur`. -/
def Pending (L : Layout) (cur : String) (c : CWareHouseFileCursor) (q : List ReplayTick) : Prop :=
  c.tradingDate = cur ∧ ReadAhead (L := L) c q ∨ cur < c.tradingDate ∧ Unread (L := L) c q

/-- The next tick of a file: it has one, or its queue is empty. -/
theorem next_spec {c : CWareHouseFileCursor} {rs : List (Record L)}
    (hrest : c.rest = rs.flatMap Record.bytes) (hlt : ∀ r ∈ rs, r.localTime < longMax) :
    (c.next L).1 ≤ 0 ∧ ticksOf c.tradingDate rs = [] ∨
      0 < (c.next L).1 ∧ (c.next L).2.tradingDate = c.tradingDate ∧
        ReadAhead (L := L) (c.next L).2 (ticksOf c.tradingDate rs) := by
  cases rs with
  | nil => exact .inl ⟨by rw [next_nil hrest], rfl⟩
  | cons r rs =>
    rw [List.flatMap_cons] at hrest
    rw [next_cons hrest]
    have hpos : (0 : Int) < L.bodySize := Int.natCast_pos.mpr L.bodySize_pos
    refine .inr ⟨hpos, rfl, rs, rfl, ?_, ?_, ?_⟩
    · dsimp only
      exact hlt r List.mem_cons_self
    · simp only [ticksOf, List.map_cons]
    · intro x hx
      exact hlt x (List.mem_cons_of_mem r hx)

/-! ## The calls on queues -/

/-- Cursors with their queues, on day `cur`. -/
def PendingAll (L : Layout) (cur : String) (ps : List (CWareHouseFileCursor × List ReplayTick)) : Prop :=
  ∀ p ∈ ps, Pending L cur p.1 p.2

/-- What the reader has still to give. -/
def toGive (ps : List (CWareHouseFileCursor × List ReplayTick)) : List ReplayTick :=
  mergeAll ReplayTick.key (ps.map Prod.snd)

theorem toGive_skip (a b : List (CWareHouseFileCursor × List ReplayTick)) (c : CWareHouseFileCursor) :
    toGive (a ++ (c, []) :: b) = toGive (a ++ b) := by
  unfold toGive
  rw [List.map_append, List.map_cons, mergeAll_skip, List.map_append]

theorem openDay_spec {day : String} {ps : List (CWareHouseFileCursor × List ReplayTick)}
    (h : ∀ p ∈ ps, day ≤ p.1.tradingDate ∧ Unread (L := L) p.1 p.2) :
    ∃ ps', openDay L day (ps.map Prod.fst) = .ok (ps'.map Prod.fst) ∧ PendingAll L day ps' ∧
      toGive ps' = toGive ps := by
  induction ps with
  | nil => exact ⟨[], rfl, fun _ hp => (nomatch hp), rfl⟩
  | cons p ps ih =>
    obtain ⟨ps', hopen, hpending, hgive⟩ := ih fun x hx => h x (List.mem_cons_of_mem p hx)
    obtain ⟨hle, hunread⟩ := h p List.mem_cons_self
    have hsame : ∀ q, toGive ((q, p.2) :: ps') = toGive (p :: ps) := by
      intro q
      unfold toGive at hgive ⊢
      rw [List.map_cons, List.map_cons, mergeAll_cons, mergeAll_cons, hgive]
    rw [List.map_cons, openDay]
    by_cases hday : day = p.1.tradingDate
    · obtain ⟨infos, rs, hcnt, hlen, hrest, hq, hlt⟩ := hunread
      have hinfo := getInstrumentInfo_ok hlen hrest hcnt
      rw [if_pos hday, hinfo]
      dsimp only
      rw [hopen]
      dsimp only
      rcases next_spec (c := { p.1 with rest := rs.flatMap Record.bytes }) rfl hlt with
        ⟨hnone, hempty⟩ | ⟨hsome, hdate, hahead⟩
      · rw [if_pos hnone]
        refine ⟨ps', rfl, hpending, ?_⟩
        rw [← hsame p.1, hq, hempty]
        exact (toGive_skip [] ps' p.1).symm
      · rw [if_neg (not_le.mpr hsome)]
        refine ⟨(_, p.2) :: ps', rfl, ?_, hsame _⟩
        intro x hx
        rcases List.mem_cons.mp hx with rfl | hx
        · exact .inl ⟨hdate.trans hday.symm, hq ▸ hahead⟩
        · exact hpending x hx
    · rw [if_neg hday, hopen]
      refine ⟨p :: ps', rfl, ?_, hsame p.1⟩
      intro x hx
      rcases List.mem_cons.mp hx with rfl | hx
      · exact .inr ⟨lt_of_le_of_ne hle hday, hunread⟩
      · exact hpending x hx

theorem earliestDay_le (first : String) (files : List CWareHouseFileCursor) :
    earliestDay first files ≤ first ∧ ∀ c ∈ files, earliestDay first files ≤ c.tradingDate := by
  induction files generalizing first with
  | nil => exact ⟨le_refl _, fun _ hc => nomatch hc⟩
  | cons c cs ih =>
    obtain ⟨hfirst, hcs⟩ := ih (if c.tradingDate < first then c.tradingDate else first)
    have hstep : earliestDay first (c :: cs) =
        earliestDay (if c.tradingDate < first then c.tradingDate else first) cs := rfl
    rw [hstep]
    have hmin : (if c.tradingDate < first then c.tradingDate else first) ≤ first ∧
        (if c.tradingDate < first then c.tradingDate else first) ≤ c.tradingDate := by
      split
      · rename_i hlt
        exact ⟨le_of_lt hlt, le_refl _⟩
      · rename_i hge
        exact ⟨le_refl _, not_lt.mp hge⟩
    refine ⟨le_trans hfirst hmin.1, fun x hx => ?_⟩
    rcases List.mem_cons.mp hx with rfl | hx
    · exact le_trans hfirst hmin.2
    · exact hcs x hx

/-- A switch to the earliest day, when no file of it has been read. -/
theorem switchDay_spec {r : CWareHouseReader} {ps : List (CWareHouseFileCursor × List ReplayTick)}
    (hfiles : r.files = ps.map Prod.fst) (h : ∀ p ∈ ps, Unread (L := L) p.1 p.2) :
    ∃ r' ps', r.switchDay L = .ok r' ∧ r'.files = ps'.map Prod.fst ∧
      PendingAll L r'.curTradingDay ps' ∧ toGive ps' = toGive ps := by
  cases ps with
  | nil =>
    refine ⟨r, [], ?_, hfiles, fun _ hp => (nomatch hp), rfl⟩
    unfold CWareHouseReader.switchDay
    rw [hfiles]
    rfl
  | cons p ps =>
    obtain ⟨hfirst, hrest⟩ := earliestDay_le p.1.tradingDate (ps.map Prod.fst)
    have hle : ∀ x ∈ p :: ps, earliestDay p.1.tradingDate (ps.map Prod.fst) ≤ x.1.tradingDate := by
      intro x hx
      rcases List.mem_cons.mp hx with rfl | hx
      · exact hfirst
      · exact hrest x.1 (List.mem_map_of_mem hx)
    obtain ⟨ps', hopen, hpending, hgive⟩ := openDay_spec fun x hx => ⟨hle x hx, h x hx⟩
    refine ⟨{ r with
        curTradingDay := earliestDay p.1.tradingDate (ps.map Prod.fst)
        files := ps'.map Prod.fst }, ps', ?_, rfl, hpending, hgive⟩
    unfold CWareHouseReader.switchDay
    rw [hfiles, List.map_cons]
    dsimp only
    rw [← List.map_cons (f := Prod.fst), hopen]

/-! ### The earliest tick of the day -/

/-- The search finds nothing better than what it has, or the first of the least. -/
theorem searchTick_spec (day : String) (files : List CWareHouseFileCursor) (i : Nat)
    (r : Int × Option Nat) :
    searchTick day files i r = r ∧ (∀ c ∈ files, day = c.tradingDate → r.1 ≤ c.localTime) ∨
      ∃ l₁ c l₂, files = l₁ ++ c :: l₂ ∧ day = c.tradingDate ∧ c.localTime < r.1 ∧
        searchTick day files i r = (c.localTime, some (i + l₁.length)) ∧
        (∀ x ∈ l₁, day = x.tradingDate → c.localTime < x.localTime) ∧
        ∀ x ∈ l₂, day = x.tradingDate → c.localTime ≤ x.localTime := by
  induction files generalizing i r with
  | nil => exact .inl ⟨rfl, fun _ hc => nomatch hc⟩
  | cons c cs ih =>
    have hstep : searchTick day (c :: cs) i r = searchTick day cs (i + 1)
        (if day = c.tradingDate ∧ c.localTime < r.1 then (c.localTime, some i) else r) := rfl
    rw [hstep]
    by_cases hbetter : day = c.tradingDate ∧ c.localTime < r.1
    · rw [if_pos hbetter]
      rcases ih (i + 1) (c.localTime, some i) with ⟨heq, hrest⟩ | ⟨l₁, x, l₂, rfl, hx, hlt, heq, h₁, h₂⟩
      · exact .inr ⟨[], c, cs, rfl, hbetter.1, hbetter.2, heq, fun _ hx => (nomatch hx), hrest⟩
      · refine .inr ⟨c :: l₁, x, l₂, rfl, hx, lt_trans hlt hbetter.2, ?_, ?_, h₂⟩
        · rw [heq, List.length_cons]
          congr 2
          omega
        · intro y hy hyday
          rcases List.mem_cons.mp hy with rfl | hy
          · exact hlt
          · exact h₁ y hy hyday
    · rw [if_neg hbetter]
      have hc : day = c.tradingDate → r.1 ≤ c.localTime :=
        fun hday => not_lt.mp fun hlt => hbetter ⟨hday, hlt⟩
      rcases ih (i + 1) r with ⟨heq, hrest⟩ | ⟨l₁, x, l₂, rfl, hx, hlt, heq, h₁, h₂⟩
      · refine .inl ⟨heq, fun y hy hyday => ?_⟩
        rcases List.mem_cons.mp hy with rfl | hy
        · exact hc hyday
        · exact hrest y hy hyday
      · refine .inr ⟨c :: l₁, x, l₂, rfl, hx, hlt, ?_, ?_, h₂⟩
        · rw [heq, List.length_cons]
          congr 2
          omega
        · intro y hy hyday
          rcases List.mem_cons.mp hy with rfl | hy
          · exact lt_of_lt_of_le hlt (hc hyday)
          · exact h₁ y hy hyday

/-- The tick that a cursor has read ahead. -/
def CWareHouseFileCursor.ahead (c : CWareHouseFileCursor) : ReplayTick :=
  { tradingDay := c.tradingDate, localTime := c.localTime, data := c.umd }

theorem ReplayTick.key_lt {x y : ReplayTick} (h : x.tradingDay < y.tradingDay) : x.key < y.key :=
  Prod.Lex.toLex_lt_toLex.mpr (.inl h)

/-- The head of another cursor on the day. -/
theorem Pending.key_le {cur : String} {c c' : CWareHouseFileCursor} {q : List ReplayTick}
    (h : Pending L cur c' q) (hc : c.tradingDate = cur) {y : ReplayTick} (hy : y ∈ q.head?) :
    ((cur = c'.tradingDate → c.localTime < c'.localTime) → c.ahead.key < y.key) ∧
      ((cur = c'.tradingDate → c.localTime ≤ c'.localTime) → c.ahead.key ≤ y.key) := by
  rcases h with ⟨hday, rs, -, -, rfl, -⟩ | ⟨hday, infos, rs, -, -, -, rfl, -⟩
  · rw [List.head?_cons, Option.mem_def, Option.some.injEq] at hy
    subst hy
    have hsame : c.tradingDate = c'.tradingDate := hc.trans hday.symm
    exact ⟨fun ht => Prod.Lex.toLex_lt_toLex.mpr (.inr ⟨hsame, ht hday.symm⟩),
      fun ht => Prod.Lex.toLex_le_toLex.mpr (.inr ⟨hsame, ht hday.symm⟩)⟩
  · have hlater : c.ahead.key < y.key := by
      cases rs with
      | nil => exact nomatch hy
      | cons r rs =>
        rw [ticksOf, List.map_cons, List.head?_cons, Option.mem_def, Option.some.injEq] at hy
        subst hy
        refine ReplayTick.key_lt ?_
        change c.tradingDate < c'.tradingDate
        rw [hc]
        exact hday
    exact ⟨fun _ => hlater, fun _ => le_of_lt hlater⟩

/-- The search on pending cursors: no file is open, or the first of the merge is
found, and its file gives the next tick. -/
theorem search_spec {cur : String} {ps : List (CWareHouseFileCursor × List ReplayTick)}
    (h : PendingAll L cur ps) :
    ((searchTick cur (ps.map Prod.fst) 0 (longMax, none)).2 = none ∧
        ∀ p ∈ ps, Unread (L := L) p.1 p.2) ∨
      ∃ i c ps', searchTick cur (ps.map Prod.fst) 0 (longMax, none) = (c.localTime, some i) ∧
        (ps.map Prod.fst)[i]? = some c ∧ c.tradingDate = cur ∧
        nextOf L i (ps.map Prod.fst) = ps'.map Prod.fst ∧ PendingAll L cur ps' ∧
        toGive ps = c.ahead :: toGive ps' := by
  rcases searchTick_spec cur (ps.map Prod.fst) 0 (longMax, none) with
    ⟨hnone, hlate⟩ | ⟨l₁, c, l₂, hsplit, hday, -, hfound, h₁, h₂⟩
  · left
    refine ⟨by rw [hnone], fun p hp => ?_⟩
    rcases h p hp with ⟨hcur, rs, -, hlt, -⟩ | ⟨-, hunread⟩
    · exact absurd (hlate p.1 (List.mem_map_of_mem hp) hcur.symm) (not_le.mpr hlt)
    · exact hunread
  · right
    obtain ⟨a, b', rfl, rfl, hb⟩ := List.map_eq_append_iff.mp hsplit
    obtain ⟨⟨c', q⟩, b, rfl, rfl, rfl⟩ := List.map_eq_cons_iff.mp hb
    dsimp only at *
    rcases h (c', q) (by simp) with ⟨-, rs, hrest, -, hq, hlt⟩ | ⟨hlater, -⟩
    · have hleast : toGive (a ++ (c', q) :: b) =
          c'.ahead :: toGive (a ++ (c', ticksOf c'.tradingDate rs) :: b) := by
        unfold toGive
        rw [List.map_append, List.map_cons, List.map_append, List.map_cons]
        dsimp only at hq ⊢
        rw [hq]
        refine mergeAll_least ?_ ?_
        · intro q' hq' y hy
          obtain ⟨p, hp, rfl⟩ := List.mem_map.mp hq'
          exact ((h p (List.mem_append_left _ hp)).key_le hday.symm hy).1
            (h₁ p.1 (List.mem_map_of_mem hp))
        · intro q' hq' y hy
          obtain ⟨p, hp, rfl⟩ := List.mem_map.mp hq'
          exact ((h p (by simp [hp])).key_le hday.symm hy).2 (h₂ p.1 (List.mem_map_of_mem hp))
      have hothers : ∀ p ∈ a ++ b, Pending L cur p.1 p.2 := by
        intro p hp
        rcases List.mem_append.mp hp with hp | hp
        · exact h p (List.mem_append_left _ hp)
        · exact h p (by simp [hp])
      have hget : ((a ++ (c', q) :: b).map Prod.fst)[a.length]? = some c' := by simp
      rw [Nat.zero_add, List.length_map] at hfound
      rcases next_spec hrest hlt with ⟨hnone, hempty⟩ | ⟨hsome, hdate, hahead⟩
      · refine ⟨a.length, c', a ++ b, hfound, hget, hday.symm, ?_, hothers, ?_⟩
        · unfold nextOf
          rw [hget]
          dsimp only
          rw [if_pos hnone]
          simp [List.eraseIdx_append_of_length_le]
        · rw [hleast, hempty, toGive_skip]
      · refine ⟨a.length, c', a ++ ((c'.next L).2, ticksOf c'.tradingDate rs) :: b, hfound, hget,
          hday.symm, ?_, ?_, ?_⟩
        · unfold nextOf
          rw [hget]
          dsimp only
          rw [if_neg (not_le.mpr hsome)]
          simp [List.set_append_right]
        · intro p hp
          rcases List.mem_append.mp hp with hp | hp
          · exact h p (List.mem_append_left _ hp)
          · rcases List.mem_cons.mp hp with rfl | hp
            · exact .inl ⟨hdate.trans hday.symm, hahead⟩
            · exact h p (by simp [hp])
        · rw [hleast]
          unfold toGive
          rw [List.map_append, List.map_cons, List.map_append, List.map_cons]
    · exact absurd (hday ▸ hlater) (lt_irrefl _)

/-! ## Reading -/

/-- `readTick` until it returns null: what it returned. -/
inductive Replays (L : Layout) : CWareHouseReader → List ReplayTick → Prop
  | done {r r' : CWareHouseReader} : r.readTick L = .ok (r', none) → Replays L r []
  | tick {r r' : CWareHouseReader} {data : MarketData} {ts : List ReplayTick} :
    r.readTick L = .ok (r', some data) → Replays L r' ts →
      Replays L r
        ({ tradingDay := r'.curTradingDay, localTime := r'.localTime, data := data } :: ts)

/-- The reader with its queues. -/
structure Reads (L : Layout) (r : CWareHouseReader)
    (ps : List (CWareHouseFileCursor × List ReplayTick)) : Prop where
  files : r.files = ps.map Prod.fst
  pending : PendingAll L r.curTradingDay ps

variable {r : CWareHouseReader} {ps : List (CWareHouseFileCursor × List ReplayTick)}

theorem Reads.toGive_nil (h : Reads L r ps) (hfiles : r.files = []) : toGive ps = [] := by
  have hnil : ps = [] := List.map_eq_nil_iff.mp (h.files.symm.trans hfiles)
  rw [hnil]
  rfl

theorem merge_spec (h : Reads L r ps) :
    (∃ r' ps', r.merge L = .ok (r', none) ∧ Reads L r' ps' ∧ toGive ps' = toGive ps) ∨
      ∃ r' i ps', r.merge L = .ok (r', some i) ∧ Reads L r' ps' ∧
        toGive ps =
          { tradingDay := r'.curTradingDay, localTime := r'.localTime, data := r'.tick } ::
            toGive ps' := by
  unfold CWareHouseReader.merge
  rw [h.files]
  rcases search_spec h.pending with
    ⟨hnone, hunread⟩ | ⟨i, c, ps', hfound, hget, hday, hnext, hpending, hgive⟩
  · left
    obtain ⟨r', ps', hswitch, hfiles', hpending', hgive'⟩ := switchDay_spec h.files hunread
    refine ⟨r', ps', ?_, ⟨hfiles', hpending'⟩, hgive'⟩
    split
    · rename_i hsome
      rw [hsome] at hnone
      cases hnone
    · rw [hswitch]
  · right
    rw [hfound]
    dsimp only
    rw [hget, hnext]
    refine ⟨_, i, ps', rfl, ⟨rfl, hpending⟩, ?_⟩
    rw [hgive, ← hday]
    rfl

/-- A read takes the first of what there is to give. -/
theorem readTick_spec (h : Reads L r ps) :
    (∃ r', r.readTick L = .ok (r', none) ∧ toGive ps = []) ∨
      ∃ r' data ps', r.readTick L = .ok (r', some data) ∧ Reads L r' ps' ∧
        toGive ps =
          { tradingDay := r'.curTradingDay, localTime := r'.localTime, data := data } ::
            toGive ps' := by
  induction hsize : r.size using Nat.strong_induction_on generalizing r ps with
  | _ n ih =>
    by_cases hfiles : r.files = []
    · left
      refine ⟨r, ?_, h.toGive_nil hfiles⟩
      rw [CWareHouseReader.readTick, dif_pos hfiles]
    · rw [CWareHouseReader.readTick, dif_neg hfiles]
      rcases merge_spec h with ⟨r', ps', hmerge, hreads, hgive⟩ | ⟨r', i, ps', hmerge, hreads, hgive⟩
      · have hlt : r'.size < n := hsize ▸ CWareHouseReader.merge_size hfiles hmerge
        split
        · rename_i heq
          rw [hmerge] at heq
          cases heq
        · rename_i heq
          rw [hmerge] at heq
          cases heq
        · rename_i heq
          rw [hmerge, Except.ok.injEq, Prod.mk.injEq] at heq
          obtain ⟨rfl, -⟩ := heq
          rw [← hgive]
          exact ih r'.size hlt hreads rfl
      · right
        split
        · rename_i heq
          rw [hmerge] at heq
          cases heq
        · rename_i heq
          rw [hmerge, Except.ok.injEq, Prod.mk.injEq] at heq
          obtain ⟨rfl, -⟩ := heq
          exact ⟨r', r'.tick, ps', rfl, hreads, hgive⟩
        · rename_i heq
          rw [hmerge] at heq
          cases heq

theorem replays_toGive (h : Reads L r ps) : Replays L r (toGive ps) := by
  induction hts : toGive ps generalizing r ps with
  | nil =>
    rcases readTick_spec h with ⟨r', hread, -⟩ | ⟨r', data, ps', -, -, hgive⟩
    · exact .done hread
    · rw [hts] at hgive
      cases hgive
  | cons t ts ih =>
    rcases readTick_spec h with ⟨r', -, hnil⟩ | ⟨r', data, ps', hread, hreads, hgive⟩
    · rw [hts] at hnil
      cases hnil
    · rw [hts, List.cons.injEq] at hgive
      rw [hgive.1]
      exact .tick hread (ih hreads hgive.2.symm)

/-- The positioning drops the leading ticks before the time. -/
theorem seek_spec (nano : Int) (h : Reads L r ps) :
    ∃ r' ps', r.seek L nano = .ok r' ∧ Reads L r' ps' ∧
      toGive ps' = (toGive ps).dropWhile fun t => t.localTime < nano := by
  induction hsize : r.size using Nat.strong_induction_on generalizing r ps with
  | _ n ih =>
    rw [CWareHouseReader.seek]
    rcases search_spec h.pending with
      ⟨hnone, hunread⟩ | ⟨i, c, ps', hfound, hget, hday, hnext, hpending, hgive⟩
    · rw [← h.files] at hnone
      obtain ⟨r', ps', hswitch, hfiles', hpending', hgive'⟩ := switchDay_spec h.files hunread
      have hreads : Reads L r' ps' := ⟨hfiles', hpending'⟩
      split
      · rename_i hsome
        rw [hsome] at hnone
        cases hnone
      · split
        · rename_i heq
          rw [hswitch] at heq
          cases heq
        · rename_i r'' heq
          rw [hswitch, Except.ok.injEq] at heq
          subst heq
          rw [← hgive']
          split
          · rename_i hnil
            refine ⟨r', ps', rfl, hreads, ?_⟩
            rw [hreads.toGive_nil hnil]
            rfl
          · rename_i hfiles
            have hne : r.files ≠ [] := by
              intro hnil
              rw [CWareHouseReader.switchDay, hnil] at hswitch
              rw [← Except.ok.inj hswitch] at hfiles
              exact hfiles hnil
            exact ih r'.size (hsize ▸ CWareHouseReader.switchDay_size hne hswitch) hreads rfl
    · rw [← h.files] at hfound hget hnext
      split
      · rename_i localTime j heq
        rw [hfound, Prod.mk.injEq, Option.some.injEq] at heq
        obtain ⟨rfl, rfl⟩ := heq
        split
        · rename_i hle
          refine ⟨r, ps, rfl, h, ?_⟩
          rw [hgive, List.dropWhile_cons_of_neg]
          exact fun hx => absurd (of_decide_eq_true hx) (not_lt.mpr hle)
        · rename_i hgt
          have hreads : Reads L { r with files := nextOf L i r.files } ps' := ⟨hnext, hpending⟩
          have hdrop : (toGive ps).dropWhile (fun t => decide (t.localTime < nano)) =
              (toGive ps').dropWhile fun t => decide (t.localTime < nano) := by
            rw [hgive, List.dropWhile_cons_of_pos]
            exact decide_eq_true (not_le.mp hgt)
          rw [hdrop]
          dsimp only
          split
          · rename_i hnil
            refine ⟨_, ps', rfl, hreads, ?_⟩
            rw [hreads.toGive_nil hnil]
            rfl
          · have hi : i < r.files.length := (List.getElem?_eq_some_iff.mp hget).1
            exact ih _ (hsize ▸ CWareHouseReader.nextOf_size hi) hreads rfl
      · rename_i heq
        rw [hfound] at heq
        cases heq

/-! ## Loading files -/

/-- The names that `loadFiles` opens. -/
def fileNames (dates : String → String → List String) (filePatterns : List String)
    (startDay endDay : String) : List String :=
  filePatterns.flatMap fun i => (dates startDay endDay).map fun date => i.replace "${DAY}" date

/-- The time of every tick is below the mark of a cursor without one. -/
def TimesBelow (ws : List (WareHouseFile L)) : Prop :=
  ∀ w ∈ ws, ∀ r ∈ w.records, r.localTime < longMax

variable {fs : CWareHouseReader.FileSystem} {dates : String → String → List String}

theorem openFiles_spec {names : List String} {ws : List (WareHouseFile L)}
    (hws : names.filterMap fs = ws.map WareHouseFile.image) (hlt : TimesBelow ws)
    (r : CWareHouseReader) :
    ∃ ps : List (CWareHouseFileCursor × List ReplayTick),
      names.foldl (fun r name => r.openFile fs name) r =
        { r with files := r.files ++ ps.map Prod.fst } ∧
      ps.map Prod.snd = ws.map WareHouseFile.ticks ∧ ∀ p ∈ ps, Unread (L := L) p.1 p.2 := by
  induction names generalizing ws r with
  | nil =>
    have hnil : ws = [] := List.map_eq_nil_iff.mp hws.symm
    subst hnil
    exact ⟨[], by simp, rfl, fun _ hp => nomatch hp⟩
  | cons name names ih =>
    rw [List.foldl_cons]
    cases hfs : fs name with
    | none =>
      rw [List.filterMap_cons_none hfs] at hws
      have hopen : r.openFile fs name = r := by
        unfold CWareHouseReader.openFile
        rw [hfs]
      rw [hopen]
      exact ih hws hlt r
    | some f =>
      rw [List.filterMap_cons_some hfs] at hws
      obtain ⟨w, ws', rfl, rfl, hws'⟩ := List.map_eq_cons_iff.mp hws.symm
      obtain ⟨ps, heq, hticks, hunread⟩ := ih hws'.symm
        (fun x hx => hlt x (List.mem_cons_of_mem w hx)) (r.openFile fs name)
      have hopen : r.openFile fs name =
          { r with
              files := r.files ++ [{ file := name, tradingDate := w.tradingDate
                                     instCnt := w.infos.length, rest := w.image.bytes }] } := by
        unfold CWareHouseReader.openFile
        rw [hfs]
        rfl
      refine ⟨({ file := name, tradingDate := w.tradingDate, instCnt := w.infos.length
                 rest := w.image.bytes }, w.ticks) :: ps, ?_, ?_, ?_⟩
      · rw [heq, hopen]
        simp
      · rw [List.map_cons, List.map_cons, hticks]
      · intro p hp
        rcases List.mem_cons.mp hp with rfl | hp
        · exact ⟨w.infos, w.records, rfl, w.infos_length, rfl, rfl, hlt w List.mem_cons_self⟩
        · exact hunread p hp

/-- What is to be given of the files that `loadFiles` opens. -/
theorem loadFiles_spec {filePatterns : List String} {startDay endDay : String}
    {ws : List (WareHouseFile L)}
    (hws : (fileNames dates filePatterns startDay endDay).filterMap fs = ws.map WareHouseFile.image)
    (hlt : TimesBelow ws) (hfiles : r.files = []) :
    ∃ r' ps, r.loadFiles L fs dates filePatterns startDay endDay = .ok r' ∧ Reads L r' ps ∧
      toGive ps = mergeAll ReplayTick.key (ws.map WareHouseFile.ticks) ∧
      r'.filePatterns = filePatterns ∧ r'.startDay = startDay ∧ r'.endDay = endDay := by
  obtain ⟨ps, hopen, hticks, hunread⟩ := openFiles_spec hws hlt r
  have hload : filePatterns.foldl
      (fun r i => CWareHouseReader.loadFileList fs i (dates startDay endDay) r) r =
        { r with files := ps.map Prod.fst } := by
    rw [hfiles, List.nil_append] at hopen
    rw [← hopen, fileNames, List.foldl_flatMap]
    simp only [CWareHouseReader.loadFileList, List.foldl_map]
  obtain ⟨r', ps', hswitch, hfiles', hpending, hgive⟩ :=
    switchDay_spec (r := { r with files := ps.map Prod.fst }) rfl hunread
  refine ⟨{ r' with filePatterns := filePatterns, startDay := startDay, endDay := endDay }, ps', ?_,
    ⟨hfiles', hpending⟩, ?_, rfl, rfl, rfl⟩
  · unfold CWareHouseReader.loadFiles
    dsimp only
    rw [hload, hswitch]
  · rw [hgive, toGive, hticks]

/-! ## The merge of the files -/

/-- Every tick of every file, those of one file in its order, by trading day and time. -/
def SortedMerge (ws : List (WareHouseFile L)) (ts : List ReplayTick) : Prop :=
  Interleaves (ws.map WareHouseFile.ticks) ts ∧ ts.Pairwise fun a b => a.key ≤ b.key

theorem ticks_sorted (w : WareHouseFile L) : w.ticks.Pairwise fun a b => a.key ≤ b.key := by
  unfold WareHouseFile.ticks ticksOf
  rw [List.pairwise_map]
  refine w.sorted.imp fun h => ?_
  rw [ReplayTick.key, ReplayTick.key, Prod.Lex.toLex_le_toLex]
  dsimp only
  exact .inr ⟨rfl, h⟩

theorem mergeAll_ticks (ws : List (WareHouseFile L)) :
    SortedMerge ws (mergeAll ReplayTick.key (ws.map WareHouseFile.ticks)) := by
  refine ⟨mergeAll_interleaves _ _, mergeAll_sorted fun q hq => ?_⟩
  obtain ⟨w, -, rfl⟩ := List.mem_map.mp hq
  exact ticks_sorted w

theorem ticksOf_day {w : WareHouseFile L} {t : ReplayTick} (h : t ∈ w.ticks) :
    t.tradingDay = w.tradingDate := by
  unfold WareHouseFile.ticks ticksOf at h
  obtain ⟨r, -, rfl⟩ := List.mem_map.mp h
  rfl

/-- The files from a day on. -/
def filesFrom (start : String) (ws : List (WareHouseFile L)) : List (WareHouseFile L) :=
  ws.filter fun w => decide (start ≤ w.tradingDate)

/-- They come behind the others. -/
theorem mergeAll_from (start : String) (ws : List (WareHouseFile L)) :
    ∃ early, (∀ t ∈ early, t.tradingDay < start) ∧
      mergeAll ReplayTick.key (ws.map WareHouseFile.ticks) =
        early ++ mergeAll ReplayTick.key ((filesFrom start ws).map WareHouseFile.ticks) := by
  unfold filesFrom
  refine ⟨_, ?_, mergeAll_split (p := fun w : WareHouseFile L => decide (start ≤ w.tradingDate)) ?_⟩
  · intro t ht
    obtain ⟨q, hq, ht⟩ := mem_mergeAll.mp ht
    obtain ⟨w, hw, rfl⟩ := List.mem_map.mp hq
    have hearly := (List.mem_filter.mp hw).2
    rw [ticksOf_day ht]
    simpa using hearly
  · intro w _ w' _ hearly hlate x hx y hy
    refine ReplayTick.key_lt ?_
    rw [ticksOf_day hx, ticksOf_day hy]
    exact lt_of_lt_of_le (not_le.mp (of_decide_eq_false hearly)) (of_decide_eq_true hlate)

/-- What `setReadPos` leaves of the files that it opens. -/
theorem setReadPos_spec (parseNano : Int → String) (nano : Int) {ws : List (WareHouseFile L)}
    (hws : (fileNames dates r.filePatterns
      (if parseNano nano < r.startDay then r.startDay else parseNano nano) r.endDay).filterMap fs =
        ws.map WareHouseFile.image)
    (hlt : TimesBelow ws) :
    ∃ r', r.setReadPos L fs dates parseNano nano = .ok r' ∧
      Replays L r' ((mergeAll ReplayTick.key (ws.map WareHouseFile.ticks)).dropWhile
        fun t => t.localTime < nano) := by
  obtain ⟨r₁, ps, hload, hreads, hgive, -⟩ := loadFiles_spec (r := r.clear) hws hlt rfl
  obtain ⟨r₂, ps', hseek, hreads', hgive'⟩ := seek_spec nano hreads
  refine ⟨r₂, ?_, ?_⟩
  · unfold CWareHouseReader.setReadPos
    dsimp only
    have hload' : r.clear.loadFiles L fs dates r.clear.filePatterns
        (if parseNano nano < r.clear.startDay then r.clear.startDay else parseNano nano)
        r.clear.endDay = .ok r₁ := hload
    rw [hload']
    exact hseek
  · rw [← hgive, ← hgive']
    exact replays_toGive hreads'

/-- `readTick` gives all ticks of the files in the order of day and time; behind
`setReadPos`, those from the start day on, without the leading ones before the time. -/
theorem sorted_merge (L : Layout) (fs : CWareHouseReader.FileSystem)
    (dates : String → String → List String) (parseNano : Int → String) (filePatterns : List String)
    (startDay endDay : String) (ws : List (WareHouseFile L))
    (hws : (fileNames dates filePatterns startDay endDay).filterMap fs = ws.map WareHouseFile.image)
    (hlt : TimesBelow ws) :
    ∃ r ts, CWareHouseReader.loadFiles L fs dates filePatterns startDay endDay {} = .ok r ∧
      Replays L r ts ∧ SortedMerge ws ts ∧
      ∀ (r₁ : CWareHouseReader) (nano : Int) (start : String),
        start = (if parseNano nano < r₁.startDay then r₁.startDay else parseNano nano) →
        (fileNames dates r₁.filePatterns start r₁.endDay).filterMap fs =
          (filesFrom start ws).map WareHouseFile.image →
        ∃ r₂ early late, r₁.setReadPos L fs dates parseNano nano = .ok r₂ ∧ ts = early ++ late ∧
          (∀ t ∈ early, t.tradingDay < start) ∧ (∀ t ∈ late, start ≤ t.tradingDay) ∧
          Replays L r₂ (late.dropWhile fun t => t.localTime < nano) := by
  obtain ⟨r, ps, hload, hreads, hgive, -⟩ := loadFiles_spec (r := {}) hws hlt rfl
  refine ⟨r, toGive ps, hload, replays_toGive hreads, hgive ▸ mergeAll_ticks ws, ?_⟩
  rintro r₁ nano start rfl hws'
  obtain ⟨early, hearly, hsplit⟩ := mergeAll_from
    (if parseNano nano < r₁.startDay then r₁.startDay else parseNano nano) ws
  obtain ⟨r₂, hset, hreplays⟩ := setReadPos_spec parseNano nano hws'
    fun w hw => hlt w (List.mem_of_mem_filter hw)
  refine ⟨r₂, early, _, hset, hgive.trans hsplit, hearly, ?_, hreplays⟩
  intro t ht
  obtain ⟨q, hq, ht⟩ := mem_mergeAll.mp ht
  obtain ⟨w, hw, rfl⟩ := List.mem_map.mp hq
  rw [ticksOf_day ht]
  exact of_decide_eq_true (List.mem_filter.mp hw).2

/-- Ticks of one byte. -/
def byteLayout : Layout :=
  { bodySize := 1, instSize := 1, bodySize_pos := by decide, hash := fun _ => 0
    depth := fun body =>
      { instrumentID := "rb", lastPrice := 0, volume := ofLe body, turnover := 0, averagePrice := 0
        askPrice1 := 0, askVolume1 := 0, bidPrice1 := 0, bidVolume1 := 0, openInterest := 0
        updateTime := [], updateMillisec := 0 } }

def byteTick (nano : Nat) : Record byteLayout :=
  { head := leBytes 8 nano, body := [1], head_length := length_leBytes 8 nano, body_length := rfl }

/-- A file with one tick. -/
def oneTick (nano : Nat) : WareHouseFile byteLayout :=
  { tradingDate := "20180802", infos := [], records := [byteTick nano]
    infos_length := fun _ h => (nomatch h), sorted := List.pairwise_singleton _ _ }

/-- Two files of one tick, read again from the day before. -/
theorem sorted_merge_two :
    ∃ r r₂ ts early late,
      CWareHouseReader.loadFiles byteLayout (fun _ => some (oneTick 5).image) (fun start _ => [start])
        ["a", "b"] "20180801" "20180803" {} = .ok r ∧
      Replays byteLayout r ts ∧ SortedMerge [oneTick 5, oneTick 5] ts ∧
      CWareHouseReader.setReadPos byteLayout (fun _ => some (oneTick 5).image) (fun start _ => [start])
        (fun _ => "20180801") 5
        { filePatterns := ["a", "b"], startDay := "20180731", endDay := "20180803" } = .ok r₂ ∧
      ts = early ++ late ∧ Replays byteLayout r₂ (late.dropWhile fun t => t.localTime < 5) := by
  have htimes : TimesBelow [oneTick 5, oneTick 5] := by
    intro w hw x hx
    have hw : w = oneTick 5 := by simpa using hw
    subst hw
    rw [List.mem_singleton.mp hx]
    decide
  obtain ⟨r, ts, hload, hreplays, hmerge, hset⟩ := sorted_merge byteLayout
    (fun _ => some (oneTick 5).image) (fun start _ => [start]) (fun _ => "20180801") ["a", "b"]
    "20180801" "20180803" [oneTick 5, oneTick 5] rfl htimes
  obtain ⟨r₂, early, late, hpos, hsplit, -, -, hrest⟩ := hset
    { filePatterns := ["a", "b"], startDay := "20180731", endDay := "20180803" } 5 "20180801"
    (by decide +kernel) rfl
  exact ⟨r, r₂, ts, early, late, hload, hreplays, hmerge, hpos, hsplit, hrest⟩

/-! ## The time of no tick -/

theorem openDay_one (c : CWareHouseFileCursor) (r : Record L) (hcnt : c.instCnt = 0)
    (hrest : c.rest = r.bytes ++ []) :
    openDay L c.tradingDate [c] = .ok [{ c with rest := [], localTime := r.localTime, umd := r.umd }] := by
  have hinfo : c.getInstrumentInfo L = .ok { c with rest := r.bytes ++ [] } :=
    getInstrumentInfo_ok (fun i (h : i ∈ []) => nomatch h) hrest hcnt
  have hnext := next_cons (L := L) (c := { c with rest := r.bytes ++ [] }) (r := r) rfl
  have hpos : ¬(L.bodySize : Int) ≤ 0 := by
    have := L.bodySize_pos
    omega
  rw [openDay, if_pos rfl, hinfo]
  dsimp only
  rw [openDay, hnext]
  dsimp only
  rw [if_neg hpos]

/-- A tick of the time `LONG_MAX` is passed over: the day is switched, and the file erased. -/
theorem readTick_lost {c : CWareHouseFileCursor} (hfiles : r.files = [c]) (ht : c.localTime = longMax)
    (hcnt : c.instCnt = 0) (hrest : c.rest = []) : ∃ r', r.readTick L = .ok (r', none) := by
  have hinfo : c.getInstrumentInfo L = .ok { c with rest := [] } :=
    getInstrumentInfo_ok (fun i (h : i ∈ []) => nomatch h) hrest hcnt
  have hswitch : r.switchDay L = .ok { r with curTradingDay := c.tradingDate, files := [] } := by
    unfold CWareHouseReader.switchDay
    rw [hfiles]
    dsimp only
    rw [show earliestDay c.tradingDate [] = c.tradingDate from rfl, openDay, if_pos rfl, hinfo]
    dsimp only
    rw [openDay, next_nil rfl]
    rfl
  have hmerge : r.merge L = .ok ({ r with curTradingDay := c.tradingDate, files := [] }, none) := by
    have hsearch : searchTick r.curTradingDay r.files 0 (longMax, none) = (longMax, none) := by
      rw [hfiles, searchTick, searchTick, if_neg]
      rw [ht]
      exact fun h => absurd h.2 (lt_irrefl _)
    unfold CWareHouseReader.merge
    rw [hsearch, hswitch]
  refine ⟨{ r with curTradingDay := c.tradingDate, files := [] }, ?_⟩
  rw [CWareHouseReader.readTick, dif_neg (by rw [hfiles]; exact List.cons_ne_nil _ _)]
  split
  · rename_i heq
    rw [hmerge] at heq
    cases heq
  · rename_i heq
    rw [hmerge] at heq
    cases heq
  · rename_i heq
    rw [hmerge, Except.ok.injEq, Prod.mk.injEq] at heq
    obtain ⟨rfl, -⟩ := heq
    rw [CWareHouseReader.readTick, dif_pos rfl]

theorem byteTick_localTime {nano : Nat} (h : nano < 2 ^ 63) : (byteTick nano).localTime = nano := by
  have hle : ofLe (leBytes 8 nano) = nano := ofLe_leBytes_of_lt (by omega)
  unfold Record.localTime byteTick toLong
  dsimp only
  rw [hle, Int.bmod_eq_of_le (by omega) (by omega)]

theorem loadFiles_one (nano : Nat) (day : String) :
    ∃ r c, CWareHouseReader.loadFiles byteLayout (fun _ => some (oneTick nano).image)
        (fun start _ => [start]) ["a"] day day {} = .ok r ∧
      r.files = [c] ∧ c.localTime = (byteTick nano).localTime ∧ c.instCnt = 0 ∧ c.rest = [] := by
  let c : CWareHouseFileCursor :=
    { file := "a".replace "${DAY}" day, tradingDate := "20180802", instCnt := 0
      rest := (oneTick nano).image.bytes }
  have hopen := openDay_one c (byteTick nano) rfl rfl
  have hswitch : CWareHouseReader.switchDay byteLayout { files := [c] } =
      .ok { files := [{ c with rest := [], localTime := (byteTick nano).localTime
                               umd := (byteTick nano).umd }], curTradingDay := c.tradingDate } := by
    unfold CWareHouseReader.switchDay
    dsimp only
    rw [show earliestDay c.tradingDate [] = c.tradingDate from rfl, hopen]
  have hload : CWareHouseReader.loadFileList (fun _ => some (oneTick nano).image) "a" [day] {} =
      { files := [c] } := rfl
  refine ⟨{ curTradingDay := c.tradingDate, filePatterns := ["a"], startDay := day, endDay := day
            files := [{ c with rest := [], localTime := (byteTick nano).localTime
                               umd := (byteTick nano).umd }] },
    { c with rest := [], localTime := (byteTick nano).localTime, umd := (byteTick nano).umd }, ?_, rfl,
    ?_, rfl, rfl⟩
  · unfold CWareHouseReader.loadFiles
    dsimp only [List.foldl_cons, List.foldl_nil]
    rw [hload, hswitch]
  · dsimp only

theorem last_nano_lost :
    ¬∀ (L : Layout) (fs : CWareHouseReader.FileSystem) (dates : String → String → List String)
      (filePatterns : List String) (startDay endDay : String) (ws : List (WareHouseFile L)),
      (fileNames dates filePatterns startDay endDay).filterMap fs = ws.map WareHouseFile.image →
      ∃ r ts, CWareHouseReader.loadFiles L fs dates filePatterns startDay endDay {} = .ok r ∧
        Replays L r ts ∧ SortedMerge ws ts := by
  intro h
  obtain ⟨r, ts, hload, hreplays, ⟨tagged, hts, -, hticks⟩, -⟩ :=
    h byteLayout (fun _ => some (oneTick (2 ^ 63 - 1)).image) (fun start _ => [start]) ["a"]
      "20180801" "20180801" [oneTick (2 ^ 63 - 1)] rfl
  obtain ⟨r', c, hload', hfiles, ht, hcnt, hrest⟩ := loadFiles_one (2 ^ 63 - 1) "20180801"
  rw [hload', Except.ok.injEq] at hload
  subst hload
  have hlast : (byteTick (2 ^ 63 - 1)).localTime = longMax := by
    rw [byteTick_localTime (by decide)]
    decide
  obtain ⟨r'', hread⟩ := readTick_lost (L := byteLayout) hfiles (ht.trans hlast) hcnt hrest
  have hnil : ts = [] := by
    cases hreplays with
    | done _ => rfl
    | tick hsome _ =>
      rw [hread, Except.ok.injEq, Prod.mk.injEq] at hsome
      cases hsome.2
  have hnone : tagged = [] := List.map_eq_nil_iff.mp (hts.trans hnil)
  have htick := hticks 0 _ rfl
  rw [hnone] at htick
  cases htick
end NatFramework.Common
