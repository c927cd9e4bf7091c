import NatFramework.Bar.SettleOnce

/-!
# A bar is the fold of its ticks

What a continuous bar in the middle of a session says after `OnTick` has settled
it, by the ticks of the day alone: those of `[bob, eob)` (`inBar`) and the last one
before them (`earlier`).

* `FoldOf`: prices, volume and turnover of the bar against these ticks.
* `Filling`: the same while ticks still come in, kept by each tick (`Filling.inside`,
  `Filling.outside`).
* `Tracks`: where bar `j` stands after the ticks `us`: not reached, being filled, or
  settled. Each move of `OnTick` keeps it.
* `fold_of_ticks`: the result, where no tick of the bar comes while a bar before it
  in the vector is still current, and the instrument's hash is not the 0 that
  `OnTick` takes for "no tick yet".
-/
namespace NatFramework.Bar

open Lib

variable (base : Int)

/-! ## The ticks of a bar -/

def inBar (b0 : Bar2) (umds : List UnitedMarketData) : List UnitedMarketData :=
  umds.filter fun u => b0.bob ≤ u.sec base ∧ u.sec base < b0.eob

def earlier (b0 : Bar2) (umds : List UnitedMarketData) : List UnitedMarketData :=
  umds.filter fun u => u.sec base < b0.bob

/-- The greatest member of a list of prices. -/
def MaxOf (x : ℚ) (ps : List ℚ) : Prop := x ∈ ps ∧ ∀ p ∈ ps, p ≤ x

/-- The least member. -/
def MinOf (x : ℚ) (ps : List ℚ) : Prop := x ∈ ps ∧ ∀ p ∈ ps, x ≤ p

instance (x : ℚ) (ps : List ℚ) : Decidable (MaxOf x ps) := inferInstanceAs (Decidable (_ ∧ _))

instance (x : ℚ) (ps : List ℚ) : Decidable (MinOf x ps) := inferInstanceAs (Decidable (_ ∧ _))

theorem MaxOf.concat {x : ℚ} {ps : List ℚ} (h : MaxOf x ps) (p : ℚ) :
    MaxOf (if p > x then p else x) (ps ++ [p]) := by
  simp only [MaxOf, List.mem_append, List.mem_singleton]
  split
  · rename_i hgt
    refine ⟨Or.inr rfl, fun q hq => ?_⟩
    rcases hq with hq | rfl
    · exact (h.2 q hq).trans hgt.le
    · exact le_refl _
  · rename_i hle
    refine ⟨Or.inl h.1, fun q hq => ?_⟩
    rcases hq with hq | rfl
    · exact h.2 q hq
    · exact not_lt.mp hle

theorem MinOf.concat {x : ℚ} {ps : List ℚ} (h : MinOf x ps) (hx : x ≠ 0) (p : ℚ) :
    MinOf (if p < x ∨ x = 0 then p else x) (ps ++ [p]) := by
  simp only [MinOf, List.mem_append, List.mem_singleton, hx, or_false]
  split
  · rename_i hlt
    refine ⟨Or.inr rfl, fun q hq => ?_⟩
    rcases hq with hq | rfl
    · exact hlt.le.trans (h.2 q hq)
    · exact le_refl _
  · rename_i hle
    refine ⟨Or.inl h.1, fun q hq => ?_⟩
    rcases hq with hq | rfl
    · exact h.2 q hq
    · exact not_lt.mp hle

/-- The prices of a bar, by the ticks in it and the last one before it. -/
def Reflects (ref : UnitedMarketData) (b : Bar2) : List UnitedMarketData → Prop
  | [] => b.open_ = ref.lastPx ∧ b.high = ref.lastPx ∧ b.low = ref.lastPx ∧ b.close = ref.lastPx ∧
      b.vol = 0
  | u :: us =>
    b.open_ = u.lastPx ∧
    MaxOf b.high ((u :: us).map (·.lastPx)) ∧
    MinOf b.low ((u :: us).map (·.lastPx)) ∧
    b.close = (us.getLastD u).lastPx ∧
    b.vol = (us.getLastD u).cumVol - ref.cumVol ∧
    b.turnover = (us.getLastD u).cumTurnover - ref.cumTurnover ∧
    b.deltaClose = b.close - ref.lastPx

instance (ref : UnitedMarketData) (b : Bar2) : ∀ us, Decidable (Reflects ref b us)
  | [] => inferInstanceAs (Decidable (_ ∧ _ ∧ _ ∧ _ ∧ _))
  | _ :: _ => inferInstanceAs (Decidable (_ ∧ _ ∧ _ ∧ _ ∧ _ ∧ _ ∧ _))

/-- Bar `b`, generated as `b0`, is the fold of its ticks. -/
def FoldOf (b0 : Bar2) (umds : List UnitedMarketData) (b : Bar2) : Prop :=
  match (earlier base b0 umds).getLast? with
  | none => False
  | some ref => Reflects ref b (inBar base b0 umds)

instance (b0 : Bar2) (umds : List UnitedMarketData) (b : Bar2) : Decidable (FoldOf base b0 umds b) := by
  unfold FoldOf
  split <;> infer_instance

/-! ## While the bar fills -/

/-- What `updateBar` has made of the ticks so far. -/
def Prices (b : Bar2) : List UnitedMarketData → Prop
  | [] => b.open_ = 0 ∧ b.high = 0 ∧ b.low = 0
  | u :: us =>
    b.open_ = u.lastPx ∧
    MaxOf b.high ((u :: us).map (·.lastPx)) ∧
    MinOf b.low ((u :: us).map (·.lastPx)) ∧
    b.close = (us.getLastD u).lastPx ∧ b.cumVol = (us.getLastD u).cumVol ∧
    b.cumTurnover = (us.getLastD u).cumTurnover

/-- The reference values of a bar. -/
structure RefOf (ref : UnitedMarketData) (b : Bar2) : Prop where
  preClose : b.preClose = ref.lastPx
  preCumVol : b.preCumVol = ref.cumVol
  preCumTurnover : b.preCumTurnover = ref.cumTurnover

theorem refOf_updatePre (b : Bar2) (u : UnitedMarketData) : RefOf u (b.updatePre base u) :=
  ⟨rfl, rfl, rfl⟩

structure Filling (b0 : Bar2) (us : List UnitedMarketData) (b : Bar2) : Prop where
  times : Bar2.SameTimes b0 b
  ref : ∀ r, (earlier base b0 us).getLast? = some r → RefOf r b
  prices : Prices b (inBar base b0 us)

theorem mem_of_mem_inBar {b0 : Bar2} {us : List UnitedMarketData} {u : UnitedMarketData}
    (h : u ∈ inBar base b0 us) : u ∈ us := List.mem_of_mem_filter h

theorem earlier_concat_of_lt {b0 : Bar2} {us : List UnitedMarketData} {u : UnitedMarketData}
    (h : u.sec base < b0.bob) : earlier base b0 (us ++ [u]) = earlier base b0 us ++ [u] := by
  simp [earlier, h]

theorem earlier_concat_of_le {b0 : Bar2} {us : List UnitedMarketData} {u : UnitedMarketData}
    (h : b0.bob ≤ u.sec base) : earlier base b0 (us ++ [u]) = earlier base b0 us := by
  simp [earlier, h]

theorem inBar_concat_of_mem {b0 : Bar2} {us : List UnitedMarketData} {u : UnitedMarketData}
    (h : b0.bob ≤ u.sec base ∧ u.sec base < b0.eob) :
    inBar base b0 (us ++ [u]) = inBar base b0 us ++ [u] := by
  simp [inBar, h]

theorem inBar_concat_of_not {b0 : Bar2} {us : List UnitedMarketData} {u : UnitedMarketData}
    (h : ¬(b0.bob ≤ u.sec base ∧ u.sec base < b0.eob)) :
    inBar base b0 (us ++ [u]) = inBar base b0 us := by
  have hu : decide (b0.bob ≤ u.sec base ∧ u.sec base < b0.eob) = false := by simpa using h
  simp only [inBar, List.filter_append, List.filter_cons, hu, List.filter_nil]
  simp

/-- A tick before the bar becomes its reference. -/
theorem Filling.outside {b0 b : Bar2} {us : List UnitedMarketData} {u : UnitedMarketData}
    (h : Filling base b0 us b) (hlt : u.sec base < b0.bob) :
    Filling base b0 (us ++ [u]) (b.updatePre base u) where
  times := h.times.trans (b.sameTimes_updatePre base u)
  ref r hr := by
    rw [earlier_concat_of_lt base hlt, List.getLast?_concat] at hr
    cases hr
    exact refOf_updatePre base b u
  prices := by
    rw [inBar_concat_of_not base (by omega)]
    have hp := h.prices
    cases hin : inBar base b0 us with
    | nil => rw [hin] at hp; exact hp
    | cons v vs => rw [hin] at hp; exact hp

/-- A bar in the middle of a session takes every tick in it, and none settles it. -/
theorem updateCur_inside {b : Bar2} {u : UnitedMarketData} (hcont : b.isAuction = false)
    (hin : b.bob ≤ u.sec base ∧ u.sec base < b.eob) (hpre : b.preClose ≠ 0) :
    BarMaker.updateCur base b u =
      (if b.open_ = 0 then b.updateOpen u else b).updateBar base u := by
  have hopen : b.isNeedUpdateOpen base u = decide (b.open_ = 0) := by
    simp [Bar2.isNeedUpdateOpen, hcont]
  have hsame : (if b.open_ = 0 then b.updateOpen u else b).preClose = b.preClose ∧
      Bar2.SameTimes b (if b.open_ = 0 then b.updateOpen u else b) := by
    split
    · exact ⟨rfl, b.sameTimes_updateOpen u⟩
    · exact ⟨rfl, Bar2.SameTimes.refl b⟩
  unfold BarMaker.updateCur
  simp only [hopen, decide_eq_true_eq]
  generalize (if b.open_ = 0 then b.updateOpen u else b) = b1 at hsame ⊢
  have hneed : b1.isNeedUpdatePre = false := by simpa [Bar2.isNeedUpdatePre, hsame.1] using hpre
  have hohlc : b1.isNeedUpdateOhlc base u = true := by
    simp only [Bar2.isNeedUpdateOhlc, hsame.2.bob, hsame.2.eob, Bool.or_eq_true]
    exact Or.inl (by simpa using hin)
  simp [hneed, hohlc]

/-- `updateBar` after the ticks `vs`, with the open price of the first. -/
theorem prices_concat {b : Bar2} {vs : List UnitedMarketData} {u : UnitedMarketData}
    (h : Prices b vs) (hpos : ∀ v ∈ vs ++ [u], 0 < v.lastPx) :
    Prices ((if b.open_ = 0 then b.updateOpen u else b).updateBar base u) (vs ++ [u]) := by
  have hu : 0 < u.lastPx := hpos u (by simp)
  cases vs with
  | nil =>
    obtain ⟨hopen, hhigh, hlow⟩ := h
    rw [if_pos hopen]
    simp [Prices, Bar2.updateBar, Bar2.updateOpen, hhigh, hlow, hu, MaxOf, MinOf]
  | cons v vs =>
    obtain ⟨hopen, hmax, hmin, _⟩ := h
    have hv : 0 < v.lastPx := hpos v (by simp)
    have hlow : b.low ≠ 0 := by
      obtain ⟨w, hw, heq⟩ := List.mem_map.mp hmin.1
      rw [← heq]
      exact ne_of_gt (hpos w (List.mem_append_left _ hw))
    have hmap : ((v :: vs) ++ [u]).map (·.lastPx) = (v :: vs).map (·.lastPx) ++ [u.lastPx] :=
      List.map_append
    have hlast : (vs ++ [u]).getLastD v = u := by simp
    rw [if_neg (by rw [hopen]; exact ne_of_gt hv)]
    refine ⟨hopen, ?_, ?_, congrArg (·.lastPx) hlast.symm, congrArg (·.cumVol) hlast.symm,
      congrArg (·.cumTurnover) hlast.symm⟩
    · exact hmap ▸ hmax.concat u.lastPx
    · exact hmap ▸ hmin.concat hlow u.lastPx

/-- A tick in the bar, once a tick has come before it. -/
theorem Filling.inside {b0 b : Bar2} {us : List UnitedMarketData} {u : UnitedMarketData}
    (h : Filling base b0 us b) (hcont : b0.isAuction = false)
    (hin : b0.bob ≤ u.sec base ∧ u.sec base < b0.eob) (hpre : b.preClose ≠ 0)
    (hpos : ∀ v ∈ us ++ [u], 0 < v.lastPx) :
    Filling base b0 (us ++ [u]) (BarMaker.updateCur base b u) := by
  have hin' : b.bob ≤ u.sec base ∧ u.sec base < b.eob := by
    rw [h.times.bob, h.times.eob]
    exact hin
  have hupd := updateCur_inside base (h.times.isAuction.trans hcont) hin' hpre
  refine ⟨h.times.trans (BarMaker.sameTimes_updateCur base b u), fun r hr => ?_, ?_⟩
  · rw [earlier_concat_of_le base hin.1] at hr
    have href := h.ref r hr
    rw [hupd]
    split
    · exact ⟨href.preClose, href.preCumVol, href.preCumTurnover⟩
    · exact ⟨href.preClose, href.preCumVol, href.preCumTurnover⟩
  · rw [hupd, inBar_concat_of_mem base hin]
    refine prices_concat base h.prices fun v hv => hpos v ?_
    rcases List.mem_append.mp hv with hv | hv
    · exact List.mem_append_left _ (mem_of_mem_inBar base hv)
    · exact List.mem_append_right _ hv

/-- Settling a filled bar that has a reference. -/
theorem Filling.settle {b0 b : Bar2} {us : List UnitedMarketData} (h : Filling base b0 us b)
    {r : UnitedMarketData} (hr : (earlier base b0 us).getLast? = some r)
    (hpos : ∀ v ∈ us, 0 < v.lastPx) (umd : UnitedMarketData) :
    FoldOf base b0 us (b.settle base umd) := by
  have href := h.ref r hr
  have hp := h.prices
  unfold FoldOf
  rw [hr]
  cases hin : inBar base b0 us with
  | nil =>
    rw [hin] at hp
    have hfill : b.fillEmpty base umd = _ := if_pos hp.1
    simp only [Reflects, Bar2.settle, hfill]
    exact ⟨href.preClose, href.preClose, href.preClose, href.preClose, sub_self _⟩
  | cons v vs =>
    rw [hin] at hp
    obtain ⟨hopen, hmax, hmin, hclose, hvol, hturn⟩ := hp
    have hmem : v ∈ inBar base b0 us := by
      rw [hin]
      exact List.mem_cons_self
    have hv : 0 < v.lastPx := hpos v (mem_of_mem_inBar base hmem)
    have hfill : b.fillEmpty base umd = b := if_neg (by rw [hopen]; exact ne_of_gt hv)
    simp only [Reflects, Bar2.settle, hfill]
    exact ⟨hopen, hmax, hmin, hclose, by rw [hvol, href.preCumVol],
      by rw [hturn, href.preCumTurnover], by rw [href.preClose]⟩

/-! ## Where the bar stands -/

namespace BarMaker

/-- The continuous bars of a vector follow each other. -/
def Consecutive (vecBar : List Bar2) : Prop :=
  (∀ b ∈ vecBar, b.isAuction = false → b.bob < b.eob) ∧
    (vecBar.filter fun b => b.isAuction = false).Pairwise fun b b' => b.eob ≤ b'.bob

/-- The ticks of one day of the maker's instrument, and bar `j` a continuous bar
that begins after the first of them, ends within a session and has been settled by
`OnTick`. -/
structure MidSession (vecCtts : List TimeSpan) (m0 : BarMaker) (umds : List UnitedMarketData)
    (j : Nat) : Prop where
  consecutive : Consecutive m0.vecBar
  instr : ∀ u ∈ umds, u.instrHash = m0.instrHash
  price : ∀ u ∈ umds, 0 < u.lastPx
  time : umds.Pairwise fun u v => u.exchTime ≤ v.exchTime
  day : ∀ u ∈ umds, ∀ v ∈ umds, getBaseSec base u.exchTime = getBaseSec base v.exchTime
  first : ∀ u, umds.head? = some u → u.sec base < (m0.bar j).bob
  continuous : (m0.bar j).isAuction = false
  inside : isEobOverlap (m0.bar j).eob vecCtts = false
  notLast : j + 1 < m0.size
  settled : (j : Int) < (m0.ticks base umds).barIdx

/-- No tick comes at or after the beginning of bar `j` while a bar before it in the
vector is not over. -/
def Clear (m0 : BarMaker) (umds : List UnitedMarketData) (j : Nat) : Prop :=
  ∀ u ∈ umds, ∀ i < j, ¬((m0.bar j).bob ≤ u.sec base ∧ u.sec base < (m0.bar i).adjustEob)

/-- `last_umd` after the ticks `us`. -/
def LastIs (us : List UnitedMarketData) (last : UnitedMarketData) : Prop :=
  match us.getLast? with
  | none => last.instrHash = 0
  | some v => last = v

/-- Bar `j` of `m0` after the ticks `us`; `Past` is what the ticks have reached once
the bar is over. -/
structure Tracks (m0 : BarMaker) (j : Nat) (us : List UnitedMarketData) (Past : Prop)
    (m : BarMaker) : Prop where
  size : m.size = m0.size
  hash : m.instrHash = m0.instrHash
  lower : -1 ≤ m.barIdx
  adjustEob : ∀ k, (m.bar k).adjustEob = (m0.bar k).adjustEob
  ahead : m.cursor < j → m.bar j = m0.bar j ∧ ∀ v ∈ us, v.sec base < (m0.bar j).bob
  current : m.cursor = j →
    Filling base (m0.bar j) us (m.bar j) ∧ ∀ v ∈ us, v.sec base < (m0.bar j).eob
  past : j < m.cursor → Past ∧ FoldOf base (m0.bar j) us (m.bar j)

/-- Bar `j` as it was generated. -/
structure Inside (m0 : BarMaker) (j : Nat) : Prop where
  unfilled : Unfilled (m0.bar j)
  continuous : (m0.bar j).isAuction = false
  times : (m0.bar j).bob < (m0.bar j).eob
  adjustBob : (m0.bar j).adjustBob = (m0.bar j).bob
  adjustEob : (m0.bar j).adjustEob = (m0.bar j).eob
  settleSec : (m0.bar j).settleSec = 0
  notLast : j + 1 < m0.size
  hash : m0.instrHash ≠ 0

/-- The tick `u` after the ticks `us`. -/
structure Arrival (m0 : BarMaker) (j : Nat) (us : List UnitedMarketData) (u : UnitedMarketData) :
    Prop where
  hash : u.instrHash = m0.instrHash
  pos : ∀ v ∈ us ++ [u], 0 < v.lastPx
  mono : ∀ v ∈ us, v.sec base ≤ u.sec base
  first : ∀ f, (us ++ [u]).head? = some f → f.sec base < (m0.bar j).bob
  hashes : ∀ v ∈ us, v.instrHash = m0.instrHash
  clear : ∀ i < j, ¬((m0.bar j).bob ≤ u.sec base ∧ u.sec base < (m0.bar i).adjustEob)

variable {base} {m0 : BarMaker} {j : Nat} {us : List UnitedMarketData} {u : UnitedMarketData}

theorem earlier_eq_self {b0 : Bar2} (h : ∀ v ∈ us, v.sec base < b0.bob) : earlier base b0 us = us :=
  List.filter_eq_self.mpr fun v hv => by simpa using h v hv

theorem inBar_eq_nil {b0 : Bar2} (h : ∀ v ∈ us, v.sec base < b0.bob) : inBar base b0 us = [] :=
  List.filter_eq_nil_iff.mpr fun v hv => by
    have := h v hv
    simp
    omega

/-- A bar that no tick has reached, with the last tick before it for its reference. -/
theorem filling_of_lt {b : Bar2} (hsame : Bar2.SameTimes (m0.bar j) b)
    (hopen : b.open_ = 0 ∧ b.high = 0 ∧ b.low = 0) (hbefore : ∀ v ∈ us, v.sec base < (m0.bar j).bob)
    (href : ∀ r, us.getLast? = some r → RefOf r b) : Filling base (m0.bar j) us b where
  times := hsame
  ref := by rwa [earlier_eq_self hbefore]
  prices := by rwa [inBar_eq_nil hbefore]

/-- Once a tick has come, one has come before bar `j`. -/
theorem Arrival.exists_ref (h : Arrival base m0 j us u) (hus : us ≠ []) :
    ∃ r, (earlier base (m0.bar j) us).getLast? = some r := by
  obtain ⟨f, rest, rfl⟩ := List.exists_cons_of_ne_nil hus
  have hf := h.first f rfl
  have hmem : f ∈ earlier base (m0.bar j) (f :: rest) :=
    List.mem_filter.mpr ⟨List.mem_cons_self, by simpa using hf⟩
  exact Option.ne_none_iff_exists'.mp fun hnone =>
    List.ne_nil_of_mem hmem (List.getLast?_eq_none_iff.mp hnone)

theorem foldOf_concat (hin : Inside m0 j) (hle : (m0.bar j).eob ≤ u.sec base) {b : Bar2} :
    FoldOf base (m0.bar j) (us ++ [u]) b ↔ FoldOf base (m0.bar j) us b := by
  have htimes := hin.times
  rw [FoldOf, earlier_concat_of_le base (by omega), inBar_concat_of_not base (by omega)]
  rfl

/-- What the loop of `OnTick` keeps while it looks for the bar of `u`. -/
def Seeking (base : Int) (m0 : BarMaker) (j : Nat) (us : List UnitedMarketData)
    (u : UnitedMarketData) (m : BarMaker) : Prop :=
  Tracks base m0 j us ((m0.bar j).eob ≤ u.sec base) m ∧ (m.cursor ≤ j → LastIs us m.lastUmd)

/-- Passing the current bar. -/
theorem Seeking.pass (hin : Inside m0 j) (harr : Arrival base m0 j us u) {m : BarMaker}
    (h : Seeking base m0 j us u m) (hat : m.AtBar)
    (hpos : (m.bar m.cursor).isInCurBar (u.sec base) = .next) :
    Seeking base m0 j us u (m.pass base u) := by
  obtain ⟨ht, hlast⟩ := h
  have hcursor := pass_cursor base hat u
  have hend := Bar2.isInCurBar_eq_next.mp hpos
  have hbar := pass_bar base hat u j
  refine ⟨⟨(pass_size base m u).trans ht.size, (pass_instrHash base m u).trans ht.hash, ?_,
    fun k => (pass_adjustEob base hat u k).trans (ht.adjustEob k), ?_, ?_, ?_⟩, ?_⟩
  · have := hat.nonneg
    rw [pass_barIdx]
    omega
  · intro hlt
    rw [if_neg (by omega), if_neg (by rintro ⟨heq, _⟩; omega)] at hbar
    rw [hbar]
    exact ht.ahead (by omega)
  · -- bar `j` becomes the current one, with the last tick for its reference
    intro heq
    have hahead := ht.ahead (by omega)
    have htimes := hin.times
    rw [if_neg (by omega), hahead.1] at hbar
    refine ⟨?_, fun v hv => by have := hahead.2 v hv; omega⟩
    have hl := hlast (by omega)
    unfold LastIs at hl
    have hnotLast := hin.notLast
    have hsize := ht.size
    cases hget : us.getLast? with
    | none =>
      rw [hget] at hl
      rw [if_neg (by rintro ⟨_, _, hne⟩; exact hne hl)] at hbar
      rw [hbar]
      exact filling_of_lt (Bar2.SameTimes.refl _)
        ⟨hin.unfilled.open_, hin.unfilled.high, hin.unfilled.low⟩ hahead.2
        (fun r hr => by rw [hget] at hr; cases hr)
    | some v =>
      rw [hget] at hl
      have hv : v.instrHash = m0.instrHash := harr.hashes v (List.mem_of_getLast? hget)
      rw [if_pos ⟨by omega, by omega, by rw [hl, hv]; exact hin.hash⟩, hl] at hbar
      rw [hbar]
      refine filling_of_lt (Bar2.sameTimes_updatePre base _ v)
        ⟨hin.unfilled.open_, hin.unfilled.high, hin.unfilled.low⟩ hahead.2 (fun r hr => ?_)
      rw [hget] at hr
      cases hr
      exact refOf_updatePre base _ v
  · intro hlt
    by_cases hj : j = m.cursor
    · -- bar `j` is passed: it is settled by a tick at or behind its end
      obtain ⟨hfill, _⟩ := ht.current hj.symm
      have heob : (m0.bar j).eob ≤ u.sec base := by
        rw [ht.adjustEob, ← hj, hin.adjustEob] at hend
        exact hend
      have hus : us ≠ [] := by
        rintro rfl
        have hfirst := harr.first u rfl
        have htimes := hin.times
        omega
      obtain ⟨r, hr⟩ := harr.exists_ref hus
      rw [if_pos hj] at hbar
      rw [hbar]
      exact ⟨heob, hfill.settle base hr (fun v hv => harr.pos v (List.mem_append_left _ hv)) u⟩
    · rw [if_neg hj, if_neg (by rintro ⟨heq, _⟩; omega)] at hbar
      rw [hbar]
      exact ht.past (by omega)
  · intro hle
    rw [pass_lastUmd]
    exact hlast (by omega)

/-- What is left behind the loop: the same for the ticks `us ++ [u]`. -/
def Found (base : Int) (m0 : BarMaker) (j : Nat) (us : List UnitedMarketData) (m : BarMaker) : Prop :=
  Tracks base m0 j us (∃ v ∈ us, (m0.bar j).eob ≤ v.sec base) m

theorem Seeking.past_concat (hin : Inside m0 j) {m : BarMaker} (h : Seeking base m0 j us u m)
    (hlt : j < m.cursor) : (∃ v ∈ us ++ [u], (m0.bar j).eob ≤ v.sec base) ∧
      FoldOf base (m0.bar j) (us ++ [u]) (m.bar j) := by
  obtain ⟨hle, hfold⟩ := h.1.past hlt
  exact ⟨⟨u, by simp, hle⟩, (foldOf_concat hin hle).mpr hfold⟩

/-- A tick before the end of a bar in front of `j` comes before bar `j`. -/
theorem Seeking.lt_of_ahead (harr : Arrival base m0 j us u) {m : BarMaker}
    (h : Seeking base m0 j us u m) (hlt : m.cursor < j)
    (hend : u.sec base < (m.bar m.cursor).adjustEob) :
    ∀ v ∈ us ++ [u], v.sec base < (m0.bar j).bob := by
  intro v hv
  rcases List.mem_append.mp hv with hv | hv
  · exact (h.1.ahead hlt).2 v hv
  · rw [List.mem_singleton.mp hv]
    have hclear := harr.clear m.cursor hlt
    rw [h.1.adjustEob] at hend
    omega

theorem Seeking.inCurBar (hin : Inside m0 j) (harr : Arrival base m0 j us u) {m : BarMaker}
    (h : Seeking base m0 j us u m) (hat : m.AtBar)
    (hpos : (m.bar m.cursor).isInCurBar (u.sec base) = .cur) :
    Found base m0 j (us ++ [u]) (m.inCurBar base u) := by
  obtain ⟨hbgn, hend⟩ := Bar2.isInCurBar_eq_cur.mp hpos
  have hcursor := inCurBar_cursor base hat u
  have hbar := inCurBar_bar base hat u j
  have hnonneg := inCurBar_nonneg base hat u
  have htimes := hin.times
  refine ⟨(inCurBar_size base hat u).trans h.1.size, (inCurBar_instrHash base hat u).trans h.1.hash,
    by omega, fun k => (inCurBar_adjustEob base hat u k).trans (h.1.adjustEob k), ?_, ?_, ?_⟩
  · intro hlt
    have hj : m.cursor < j := by
      split at hcursor <;> omega
    have hne : ¬(j = m.cursor + 1 ∧ j < m.size ∧ (m.bar m.cursor).isNeedSettle base u = true) := by
      rintro ⟨heq, _, hneed⟩
      rw [if_pos hneed] at hcursor
      omega
    rw [if_neg (by omega), if_neg hne] at hbar
    rw [hbar]
    exact ⟨(h.1.ahead hj).1, h.lt_of_ahead harr hj hend⟩
  · intro heq
    by_cases hj : m.cursor = j
    · -- the tick lies in bar `j`
      obtain ⟨hfill, hlts⟩ := h.1.current hj
      rw [hj, hfill.times.adjustBob, hin.adjustBob] at hbgn
      rw [hj, hfill.times.adjustEob, hin.adjustEob] at hend
      have hneed : (m.bar m.cursor).isNeedSettle base u = false := by
        rw [hj]
        simp [Bar2.isNeedSettle, hfill.times.isAuction, hin.continuous, hfill.times.settleSec,
          hin.settleSec]
      rw [if_pos hj.symm, hneed] at hbar
      have hus : us ≠ [] := by
        rintro rfl
        have hfirst := harr.first u rfl
        omega
      obtain ⟨r, hr⟩ := harr.exists_ref hus
      have hpre : (m.bar j).preClose ≠ 0 := by
        rw [(hfill.ref r hr).preClose]
        have hmem : r ∈ us := List.mem_of_mem_filter (List.mem_of_getLast? hr)
        exact ne_of_gt (harr.pos r (List.mem_append_left _ hmem))
      rw [hbar]
      refine ⟨hfill.inside base hin.continuous ⟨hbgn, hend⟩ hpre harr.pos, fun v hv => ?_⟩
      rcases List.mem_append.mp hv with hv | hv
      · exact hlts v hv
      · rw [List.mem_singleton.mp hv]
        exact hend
    · -- it settles the bar before and becomes the reference of bar `j`
      have hneed : (m.bar m.cursor).isNeedSettle base u = true := by
        by_contra hno
        rw [if_neg hno] at hcursor
        omega
      rw [if_pos hneed] at hcursor
      have hlts := h.lt_of_ahead harr (by omega) hend
      have hsize := h.1.size
      have hnotLast := hin.notLast
      rw [if_neg (by omega), if_pos ⟨by omega, by omega, hneed⟩, (h.1.ahead (by omega)).1] at hbar
      rw [hbar]
      refine ⟨filling_of_lt (Bar2.sameTimes_updatePre base _ u)
        ⟨hin.unfilled.open_, hin.unfilled.high, hin.unfilled.low⟩ hlts (fun r hr => ?_),
        fun v hv => by have := hlts v hv; omega⟩
      rw [List.getLast?_concat] at hr
      cases hr
      exact refOf_updatePre base _ u
  · intro hlt
    by_cases hj : m.cursor = j
    · obtain ⟨hfill, _⟩ := h.1.current hj
      have hneed : (m.bar m.cursor).isNeedSettle base u = false := by
        rw [hj]
        simp [Bar2.isNeedSettle, hfill.times.isAuction, hin.continuous, hfill.times.settleSec,
          hin.settleSec]
      rw [hneed] at hcursor
      simp at hcursor
      omega
    · have hj' : j < m.cursor := by
        split at hcursor <;> omega
      rw [if_neg (by omega), if_neg (by rintro ⟨heq, _⟩; omega)] at hbar
      rw [hbar]
      exact h.past_concat hin hj'

theorem Seeking.inPreBar (hin : Inside m0 j) (harr : Arrival base m0 j us u) {m : BarMaker}
    (h : Seeking base m0 j us u m) (hat : m.AtBar)
    (hpos : (m.bar m.cursor).isInCurBar (u.sec base) = .pre) :
    Found base m0 j (us ++ [u]) (m.inPreBar base u) := by
  obtain ⟨hbgn, hend⟩ := Bar2.isInCurBar_eq_pre.mp hpos
  have hnonneg := hat.nonneg
  have htimes := hin.times
  have hne : ∀ k, k ≠ m.cursor → (m.inPreBar base u).bar k = m.bar k :=
    fun k hk => bar_modifyBar_ne _ (Ne.symm hk)
  refine ⟨(modifyBar_size _ _ _).trans h.1.size, h.1.hash, h.1.lower,
    fun k => (bar_modifyBar_adjustEob m m.cursor k (f := (·.updatePre base u))
      fun _ => rfl).trans (h.1.adjustEob k), ?_, ?_, ?_⟩
  · intro hlt
    change m.cursor < j at hlt
    rw [hne j (by omega)]
    exact ⟨(h.1.ahead hlt).1, h.lt_of_ahead harr hlt hend⟩
  · intro heq
    change m.cursor = j at heq
    obtain ⟨hfill, hlts⟩ := h.1.current heq
    rw [heq, hfill.times.adjustBob, hin.adjustBob] at hbgn
    have hbar : (m.inPreBar base u).bar j = (m.bar j).updatePre base u := by
      rw [← heq]
      exact bar_modifyBar_self _ hat.lt
    rw [hbar]
    refine ⟨hfill.outside base hbgn, fun v hv => ?_⟩
    rcases List.mem_append.mp hv with hv | hv
    · exact hlts v hv
    · rw [List.mem_singleton.mp hv]
      omega
  · intro hlt
    change j < m.cursor at hlt
    rw [hne j (by omega)]
    exact h.past_concat hin hlt

/-- Bar `j` is not the last, so the last one is settled behind it. -/
theorem Seeking.settleLast (hin : Inside m0 j) {m : BarMaker} (h : Seeking base m0 j us u m)
    (hlast : m.cursor + 1 = m.size) : Found base m0 j (us ++ [u]) (m.settleAt base m.cursor u) := by
  have hsize := h.1.size
  have hnotLast := hin.notLast
  have hbar : (m.settleAt base m.cursor u).bar j = m.bar j := bar_settleAt_ne base u (by omega)
  refine ⟨(settleAt_size base m _ u).trans h.1.size, h.1.hash, h.1.lower,
    fun k => (bar_settleAt_adjustEob base m _ k u).trans (h.1.adjustEob k), fun hlt => ?_,
    fun heq => ?_, fun hlt => ?_⟩
  · change m.cursor < j at hlt
    omega
  · change m.cursor = j at heq
    omega
  · rw [hbar]
    exact h.past_concat hin hlt

/-- Between two ticks. -/
def Resting (base : Int) (m0 : BarMaker) (j : Nat) (us : List UnitedMarketData) (m : BarMaker) : Prop :=
  Found base m0 j us m ∧ (m.cursor ≤ j → LastIs us m.lastUmd)

theorem Resting.seeking (harr : Arrival base m0 j us u) {m : BarMaker}
    (h : Resting base m0 j us m) : Seeking base m0 j us u m := by
  refine ⟨{ h.1 with past := fun hlt => ?_ }, h.2⟩
  obtain ⟨⟨v, hv, hle⟩, hfold⟩ := h.1.past hlt
  exact ⟨hle.trans (harr.mono v hv), hfold⟩

theorem Resting.start {m : BarMaker} (h : Resting base m0 j us m) : Resting base m0 j us m.start := by
  have hlower := start_nonneg h.1.lower
  unfold Resting Found
  rw [start_cursor]
  refine ⟨⟨(start_size m).trans h.1.size, ?_, by omega,
    fun k => (congrArg _ (start_bar m k)).trans (h.1.adjustEob k), ?_, ?_, ?_⟩, ?_⟩
  · have hhash := h.1.hash
    unfold BarMaker.start
    split <;> exact hhash
  · rw [start_cursor, start_bar]
    exact h.1.ahead
  · rw [start_cursor, start_bar]
    exact h.1.current
  · rw [start_cursor, start_bar]
    exact h.1.past
  · intro hle
    have hlast := h.2 hle
    unfold BarMaker.start
    split <;> exact hlast

theorem Resting.onTick (hin : Inside m0 j) (harr : Arrival base m0 j us u) {m : BarMaker}
    (h : Resting base m0 j us m) : Resting base m0 j (us ++ [u]) (m.onTick base u) := by
  have hstart := h.start
  refine onTick_ind base (P := Seeking base m0 j us u) (Q := Found base m0 j (us ++ [u]))
    (R := Resting base m0 j (us ++ [u])) ?_ ?_ ?_ ?_ h.1.lower ?_ ?_ ?_ ?_
  · exact fun m' hm hat _ hpos => hm.pass hin harr hat hpos
  · exact fun m' hm _ hlast _ => hm.settleLast hin hlast
  · exact fun m' hm hat hpos => hm.inCurBar hin harr hat hpos
  · exact fun m' hm hat hpos => hm.inPreBar hin harr hat hpos
  · intro hne
    exact absurd (harr.hash.trans h.1.hash.symm) hne
  · -- the day is over: bar `j` is behind
    intro hdone
    have hsize := h.1.size
    have hnotLast := hin.notLast
    have hlt : j < m.start.cursor := by
      simp only [cursor]
      omega
    exact ⟨{ hstart.1 with
      ahead := fun hlt' => by omega
      current := fun heq => by omega
      past := fun _ => (hstart.seeking harr).past_concat hin hlt }, fun hle => by omega⟩
  · exact fun _ => hstart.seeking harr
  · intro m' hm
    refine ⟨⟨hm.size, hm.hash, hm.lower, hm.adjustEob, hm.ahead, hm.current, hm.past⟩, fun _ => ?_⟩
    rw [LastIs, List.getLast?_concat]

/-! ## The day -/

theorem resting_ticks (hin : Inside m0 j) (h0 : Resting base m0 j [] m0)
    {umds : List UnitedMarketData} (harr : AtEach (Arrival base m0 j) umds) :
    Resting base m0 j umds (m0.ticks base umds) := by
  induction umds using List.reverseRecOn with
  | nil => exact h0
  | append_singleton us u ih =>
    rw [atEach_concat] at harr
    rw [ticks, List.foldl_append]
    exact (ih harr.1).onTick hin harr.2

/-- Before the first tick. -/
theorem resting_new (hin : Inside m0 j) (hidx : m0.barIdx = -1) (hlast : m0.lastUmd = {}) :
    Resting base m0 j [] m0 := by
  have hcursor : m0.cursor = 0 := by
    simp only [cursor]
    omega
  refine ⟨⟨rfl, rfl, by omega, fun _ => rfl, fun _ => ⟨rfl, by simp⟩, fun _ => ?_, fun hlt => by omega⟩,
    fun _ => by rw [hlast]; rfl⟩
  refine ⟨filling_of_lt (Bar2.SameTimes.refl _)
    ⟨hin.unfilled.open_, hin.unfilled.high, hin.unfilled.low⟩ (by simp) (by simp), by simp⟩

/-- Ticks of one day in the order of their times are in the order of their seconds. -/
theorem sec_le_sec {v : UnitedMarketData} (hday : getBaseSec base v.exchTime = getBaseSec base u.exchTime)
    (hle : v.exchTime ≤ u.exchTime) : v.sec base ≤ u.sec base := by
  have hdiv := Int.tdiv_le_tdiv (by decide : (0 : Int) < 1000000000) hle
  simp only [UnitedMarketData.sec, getBaseIntervalFromNano]
  omega

theorem MidSession.arrival {vecCtts : List TimeSpan} {umds : List UnitedMarketData}
    (h : MidSession base vecCtts m0 umds j) (hclear : Clear base m0 umds j) :
    AtEach (Arrival base m0 j) umds := by
  rintro us u post rfl
  have hsub : ∀ v ∈ us ++ [u], v ∈ us ++ u :: post := fun v hv => by
    rcases List.mem_append.mp hv with hv | hv
    · exact List.mem_append_left _ hv
    · rw [List.mem_singleton.mp hv]
      simp
  refine ⟨h.instr u (by simp), fun v hv => h.price v (hsub v hv), fun v hv => ?_, fun f hf => ?_,
    fun v hv => h.instr v (by simp [hv]), fun i hi => hclear u (by simp) i hi⟩
  · have htime := (List.pairwise_append.mp h.time).2.2 v hv u List.mem_cons_self
    exact sec_le_sec (h.day v (by simp [hv]) u (by simp)) htime
  · refine h.first f ?_
    cases us with
    | nil => exact hf
    | cons w ws => exact hf

/-- A bar in the middle of a session, when it is settled, is the fold of its ticks:
where the hash of the instrument is not 0, and no tick of the bar comes before the
end of a bar that stands before it in the vector. -/
theorem fold_of_ticks (base : Int) (info : InstrumentInfo) (exch : Exch) (cycleSec : Int)
    (umds : List UnitedMarketData) (j : Nat)
    (h : MidSession base (getTradingTimespan base info.product)
      (BarMaker.new base info exch cycleSec) umds j)
    (hhash : info.instrHash ≠ 0) (hclear : Clear base (BarMaker.new base info exch cycleSec) umds j) :
    FoldOf base ((BarMaker.new base info exch cycleSec).bar j) umds
      (((BarMaker.new base info exch cycleSec).ticks base umds).bar j) := by
  have hj : j < (generateVecBar base info exch cycleSec).length := Nat.lt_of_succ_lt h.notLast
  have hmem : (BarMaker.new base info exch cycleSec).bar j ∈ generateVecBar base info exch cycleSec := by
    change (generateVecBar base info exch cycleSec).getD j {} ∈ _
    rw [List.getD_eq_getElem _ _ hj]
    exact List.getElem_mem hj
  have hdaily : cycleSec ≠ dailyCycle := by
    rintro rfl
    have hnotLast := h.notLast
    simp [BarMaker.new, generateVecBar, barsOf, size] at hnotLast
  obtain ⟨hbob, heob, hsettle⟩ := inside_barsOf hdaily hmem h.continuous h.inside
  have hin : Inside (BarMaker.new base info exch cycleSec) j :=
    ⟨unfilled_bar_new base info exch cycleSec j, h.continuous,
      h.consecutive.1 _ hmem h.continuous, hbob, heob, hsettle, h.notLast, hhash⟩
  have hrest := resting_ticks hin (resting_new hin rfl rfl) (h.arrival hclear)
  refine (hrest.1.past ?_).2
  have hsettled := h.settled
  simp only [cursor]
  omega

/-- Half-hour bars of an index future; the bar from 9:30 is over at 10:05. -/
theorem fold_of_ticks_if :
    FoldOf intraDayBaseSec
      ((BarMaker.new intraDayBaseSec (contract "IF1803" "IF") .cffex 1800).bar 1)
      [tickAt 9 29 30 4000 10, tickAt 9 45 0 4001 20, tickAt 9 50 0 3999 25, tickAt 10 5 0 4002 30]
      (((BarMaker.new intraDayBaseSec (contract "IF1803" "IF") .cffex 1800).ticks intraDayBaseSec
        [tickAt 9 29 30 4000 10, tickAt 9 45 0 4001 20, tickAt 9 50 0 3999 25,
          tickAt 10 5 0 4002 30]).bar 1) := by
  refine fold_of_ticks intraDayBaseSec (contract "IF1803" "IF") .cffex 1800 _ 1
    ⟨⟨by decide +kernel, by decide +kernel⟩, by decide +kernel, by decide +kernel,
      by decide +kernel, by decide +kernel, ?_, by decide +kernel, by decide +kernel,
      by decide +kernel, by decide +kernel⟩ (by decide) (by unfold Clear; decide +kernel)
  rintro u ⟨rfl⟩
  decide +kernel

/-- The night session of silver, bars of an hour: the bar from 2:00 to 9:30 stands in
the vector behind the auction of 8:59, which is current until then, so that the tick
of 2:10 is not in it. -/
def agTicks : List UnitedMarketData :=
  [tickAt 20 59 30 3600 10, tickAt 1 30 0 3601 20, tickAt 2 10 0 3650 30, tickAt 9 10 0 3602 40,
    tickAt 9 40 0 3603 50]

/-- An instrument whose hash is 0. -/
def zeroHash : InstrumentInfo := { contract "IF1803" "IF" with instrHash := 0 }

def zeroTicks : List UnitedMarketData :=
  [tickAt 9 29 30 4000 10, tickAt 9 45 0 4001 20, tickAt 10 5 0 4002 30, tickAt 10 20 0 4003 40,
    tickAt 10 31 0 4004 50].map ({ · with instrHash := 0 })

theorem ticks_lost :
    (MidSession intraDayBaseSec (getTradingTimespan intraDayBaseSec "ag")
        (BarMaker.new intraDayBaseSec (contract "ag1806" "ag") .shfe 3600) agTicks 7 ∧
      ¬FoldOf intraDayBaseSec
        ((BarMaker.new intraDayBaseSec (contract "ag1806" "ag") .shfe 3600).bar 7) agTicks
        (((BarMaker.new intraDayBaseSec (contract "ag1806" "ag") .shfe 3600).ticks intraDayBaseSec
          agTicks).bar 7)) ∧
    (MidSession intraDayBaseSec (getTradingTimespan intraDayBaseSec "IF")
        (BarMaker.new intraDayBaseSec zeroHash .cffex 1800) zeroTicks 2 ∧
      ¬FoldOf intraDayBaseSec
        ((BarMaker.new intraDayBaseSec zeroHash .cffex 1800).bar 2) zeroTicks
        (((BarMaker.new intraDayBaseSec zeroHash .cffex 1800).ticks intraDayBaseSec
          zeroTicks).bar 2)) := by
  refine ⟨⟨⟨⟨by decide +kernel, by decide +kernel⟩, by decide +kernel, by decide +kernel,
      by decide +kernel, by decide +kernel, ?_, by decide +kernel, by decide +kernel,
      by decide +kernel, by decide +kernel⟩, by decide +kernel⟩,
    ⟨⟨⟨by decide +kernel, by decide +kernel⟩, by decide +kernel, by decide +kernel,
      by decide +kernel, by decide +kernel, ?_, by decide +kernel, by decide +kernel,
      by decide +kernel, by decide +kernel⟩, by decide +kernel⟩⟩
  · rintro u ⟨rfl⟩
    decide +kernel
  · rintro u ⟨rfl⟩
    decide +kernel

end BarMaker

end NatFramework.Bar
