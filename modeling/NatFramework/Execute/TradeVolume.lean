import Mathlib.Algebra.Order.Field.Basic
import Mathlib.Algebra.Order.Field.Rat
import Mathlib.Tactic.FieldSimp
import Mathlib.Tactic.Linarith
import Mathlib.Tactic.Ring
import NatFramework.Execute.CBaseSignal

/-!
# The traded volume is divided

* `met_byQuote`: wherever the average price lies between or outside the quotes, some
  case is met.
* `mem_span`: a case that solves a line is met only between the two quotes of it, so
  `share_mem` bounds the result.
* `divided_iff`: the volume is divided into two parts, whatever an earlier tick left,
  exactly when no line that is solved overflows an `int`.
-/
namespace NatFramework.Execute

open Lib

/-! ## Lines -/

/-- The sums of `solvelinear` are in the range of `int`. -/
def Span.Fits (q : Span) (tradevol : Int) : Prop :=
  InInt (q.high * tradevol) ∧ InInt (-q.high) ∧ InInt (-q.high + q.low)

instance Span.Fits.decidable (q : Span) (tradevol : Int) : Decidable (q.Fits tradevol) := by
  delta Span.Fits
  infer_instance

theorem solvelinear_eq_ok {lastvol turnover low high : Int} {x : ℚ} :
    solvelinear lastvol turnover low high = .ok x ↔
      InInt (high * lastvol) ∧ InInt (-high) ∧ InInt (-high + low) ∧
        div (0 + turnover - (high * lastvol : Int)) (-high + low : Int) = .ok x := by
  unfold solvelinear
  rw [int32_bind_eq_ok, int32_bind_eq_ok, int32_bind_eq_ok]

/-- The share of the volume that a line gives to the bid. -/
theorem share_mem {lastvol turnover low high : Int} {avg x : ℚ} (hvol : 0 ≤ lastvol)
    (havg : avg * lastvol = turnover) (hlow : low ≤ avg) (hhigh : avg ≤ high)
    (h : solvelinear lastvol turnover low high = .ok x) : 0 ≤ x ∧ x ≤ lastvol := by
  obtain ⟨-, -, -, hdiv⟩ := solvelinear_eq_ok.mp h
  obtain ⟨hne, rfl⟩ := div_eq_ok.mp hdiv
  have hle : (low : ℚ) ≤ high := le_trans hlow hhigh
  have hvol' : (0 : ℚ) ≤ lastvol := by exact_mod_cast hvol
  push_cast at hne ⊢
  have hpos : (0 : ℚ) < high - low := by
    rcases lt_or_eq_of_le hle with hlt | heq
    · linarith
    · exact absurd (by linarith) hne
  have hshare : (0 + (turnover : ℚ) - high * lastvol) / (-high + low) =
      lastvol * ((high - avg) / (high - low)) := by
    rw [← havg, div_eq_iff hne]
    field_simp
    ring
  have hpart : 0 ≤ (high - avg) / (high - low) ∧ (high - avg) / (high - low) ≤ 1 :=
    ⟨div_nonneg (by linarith) hpos.le, (div_le_one hpos).mpr (by linarith)⟩
  rw [hshare]
  exact ⟨mul_nonneg hvol' hpart.1, mul_le_of_le_one_right hvol' hpart.2⟩

namespace CMarketStruct

variable {ms : CMarketStruct}

/-- A line is solved only for an average price between its two quotes. -/
theorem mem_span (hms : ms.Quoted) {q : Span} (hq : q ∈ ms.risen ++ ms.fallen) (hmet : q.guard) :
    q.low < q.high ∧ (q.low : ℚ) ≤ ms.avgprice ∧ ms.avgprice ≤ q.high := by
  have hlast : (ms.lastbidp[0] : ℚ) < ms.lastaskp[0] := Int.cast_lt.mpr hms.last
  have hcur : (ms.bidp[0] : ℚ) < ms.askp[0] := Int.cast_lt.mpr hms.cur
  suffices h : (q.low : ℚ) < q.high ∧ (q.low : ℚ) ≤ ms.avgprice ∧ ms.avgprice ≤ q.high from
    ⟨Int.cast_lt.mp h.1, h.2⟩
  simp only [risen, fallen, List.cons_append, List.nil_append, List.mem_cons, List.not_mem_nil,
    or_false] at hq
  rcases hq with rfl | rfl | rfl | rfl | rfl | rfl | rfl | rfl | rfl | rfl | rfl | rfl <;>
    simp only [decide_eq_true_eq, ← Int.cast_le (R := ℚ)] at hmet ⊢ <;>
    refine ⟨?_, ?_, ?_⟩ <;> linarith

/-- The quotes cross between the two ticks, or the average price is outside of them, or
it falls in one of the three parts that the four quotes cut their range into. -/
theorem met_byQuote (hms : ms.Quoted) : ∃ c ∈ ms.byQuote, c.guard := by
  by_contra hnone
  have hlast : (ms.lastbidp[0] : ℚ) < ms.lastaskp[0] := Int.cast_lt.mpr hms.last
  have hcur : (ms.bidp[0] : ℚ) < ms.askp[0] := Int.cast_lt.mpr hms.cur
  simp only [byQuote, outer, risen, fallen, solve, bidReachedAsk, askReachedBid, not_exists, not_and,
    List.mem_append, List.mem_cons, List.not_mem_nil, or_false, List.map_cons, List.map_nil, or_imp,
    forall_and, forall_eq, decide_eq_true_eq, ← Int.cast_le (R := ℚ)] at hnone
  obtain ⟨⟨⟨⟨⟨n1, n2⟩, n3, n4, n5, n6, n7, n8⟩, n9⟩, n10, n11, n12, n13, n14, n15⟩, n16⟩ := hnone
  generalize (ms.lastbidp[0] : ℚ) = Bt at *
  generalize (ms.lastaskp[0] : ℚ) = At at *
  generalize (ms.bidp[0] : ℚ) = Bt1 at *
  generalize (ms.askp[0] : ℚ) = At1 at *
  generalize ms.avgprice = avg at *
  rw [not_le] at n9 n16
  rcases le_total Bt Bt1 with hb | hb
  · have hlow : Bt ≤ avg := by
      by_contra hout
      exact n1 (not_le.mp hout) (lt_of_lt_of_le (not_le.mp hout) hb)
    rcases le_total At1 At with ha | ha
    · have hhigh : avg ≤ At := by
        by_contra hout
        exact n2 (not_le.mp hout) (lt_of_le_of_lt ha (not_le.mp hout))
      rcases le_or_gt avg Bt1 with h | h
      · exact n4 hlow h ha
      · rcases le_total avg At1 with h' | h'
        · exact n3 hb h h' ha
        · exact n5 hb h' hhigh
    · have hhigh : avg ≤ At1 := by
        by_contra hout
        exact n2 (lt_of_le_of_lt ha (not_le.mp hout)) (not_le.mp hout)
      rcases le_total avg Bt1 with h | h
      · exact n7 hlow h n9.le ha
      · rcases lt_or_ge avg At with h' | h'
        · exact n6 hb h h' ha
        · exact n8 hb n9.le h' hhigh
  · have hlow : Bt1 ≤ avg := by
      by_contra hout
      exact n1 (lt_of_lt_of_le (not_le.mp hout) hb) (not_le.mp hout)
    rcases le_total At At1 with ha | ha
    · have hhigh : avg ≤ At1 := by
        by_contra hout
        exact n2 (lt_of_le_of_lt ha (not_le.mp hout)) (not_le.mp hout)
      rcases le_or_gt avg Bt with h | h
      · exact n11 hlow h ha
      · rcases le_total avg At with h' | h'
        · exact n10 hb h h' ha
        · exact n12 hb h' hhigh
    · have hhigh : avg ≤ At := by
        by_contra hout
        exact n2 (not_le.mp hout) (lt_of_le_of_lt ha (not_le.mp hout))
      rcases le_total avg Bt with h | h
      · exact n14 hlow h n16.le ha
      · rcases lt_or_ge avg At1 with h' | h'
        · exact n13 hb h h' ha
        · exact n15 hb n16.le h' hhigh

/-- A bid volume that the tick can have, and a case that was met. -/
def Share (ms : CMarketStruct) (b : ℚ × Int) : Prop := 0 ≤ b.1 ∧ b.1 ≤ ms.tradevol ∧ b.2 ≠ -1

/-- Where the average price is outside all quotes, the two distances divide the volume. -/
theorem share_outer (hvol : 0 ≤ ms.tradevol) {c : Guarded Undefined (ℚ × Int)} (hc : c ∈ ms.outer)
    (hmet : c.guard) : ∃ b, c.value = .ok b ∧ ms.Share b := by
  have hvol' : (0 : ℚ) ≤ ms.tradevol := by exact_mod_cast hvol
  simp only [outer, List.mem_cons, List.not_mem_nil, or_false] at hc
  rcases hc with rfl | rfl
  · simp only [decide_eq_true_eq] at hmet
    obtain ⟨h, h'⟩ := hmet
    have hneg : ms.avgprice - ms.lastbidp[0] + ms.avgprice - ms.bidp[0] < (0 : ℚ) := by linarith
    refine ⟨_, by rw [div_of_ne hneg.ne]; rfl, ?_, ?_, (by decide : (1 : Int) ≠ -1)⟩
    · exact mul_nonneg (div_nonneg_of_nonpos (by linarith) hneg.le) hvol'
    · exact mul_le_of_le_one_left hvol' ((div_le_one_of_neg hneg).mpr (by linarith))
  · simp only [decide_eq_true_eq] at hmet
    obtain ⟨h, h'⟩ := hmet
    have hpos : (0 : ℚ) < ms.avgprice - ms.lastaskp[0] + ms.avgprice - ms.askp[0] := by linarith
    refine ⟨_, by rw [div_of_ne hpos.ne']; rfl, ?_, ?_, (by decide : (2 : Int) ≠ -1)⟩
    · exact mul_nonneg (sub_nonneg.mpr ((div_le_one hpos).mpr (by linarith))) hvol'
    · exact mul_le_of_le_one_left hvol' (sub_le_self 1 (div_nonneg (by linarith) hpos.le))

theorem span_type {q : Span} (hq : q ∈ ms.risen ++ ms.fallen) : q.type ≠ -1 := by
  have htypes : (ms.risen ++ ms.fallen).map Span.type = [3, 4, 5, 6, 7, 8, 10, 11, 12, 13, 14, 15] := rfl
  have hmem := List.mem_map_of_mem (f := Span.type) hq
  intro h
  rw [htypes, h] at hmem
  revert hmem
  decide

theorem solve_eq_ok {q : Span} {b : ℚ × Int} : (ms.solve q).value = .ok b ↔
    ∃ x, solvelinear ms.tradevol ms.turnover q.low q.high = .ok x ∧ (x, q.type) = b := by
  unfold solve
  cases solvelinear ms.tradevol ms.turnover q.low q.high with
  | ok x => simp [Bind.bind, Except.bind, Pure.pure, Except.pure]
  | error e => simp [Bind.bind, Except.bind]

/-- A line between two quotes has a result where its sums do not overflow. -/
theorem solve_ok_iff {q : Span} (hlt : q.low < q.high) :
    (∃ b, (ms.solve q).value = .ok b) ↔ q.Fits ms.tradevol := by
  have hne : ((-q.high + q.low : Int) : ℚ) ≠ 0 := by
    rw [Int.cast_ne_zero]
    omega
  constructor
  · intro ⟨b, hb⟩
    obtain ⟨x, hx, -⟩ := solve_eq_ok.mp hb
    obtain ⟨h₁, h₂, h₃, -⟩ := solvelinear_eq_ok.mp hx
    exact ⟨h₁, h₂, h₃⟩
  · intro ⟨h₁, h₂, h₃⟩
    exact ⟨_, solve_eq_ok.mpr ⟨_, solvelinear_eq_ok.mpr ⟨h₁, h₂, h₃, div_of_ne hne⟩, rfl⟩⟩

/-- The trade of a tick: its average price is its turnover over its volume. -/
structure Traded (ms : CMarketStruct) : Prop where
  vol : 0 ≤ ms.tradevol
  avg : 0 < ms.tradevol → ms.avgprice * ms.tradevol = ms.turnover

theorem mem_byQuote {c : Guarded Undefined (ℚ × Int)} (hc : c ∈ ms.byQuote) :
    c ∈ ms.outer ∨ (∃ q ∈ ms.risen ++ ms.fallen, c = ms.solve q) ∨ c = ms.bidReachedAsk ∨
      c = ms.askReachedBid := by
  simp only [byQuote, List.mem_append, List.mem_map, List.mem_singleton] at hc
  rcases hc with (((h | ⟨q, hq, rfl⟩) | h) | ⟨q, hq, rfl⟩) | h
  · exact .inl h
  · exact .inr (.inl ⟨q, List.mem_append_left _ hq, rfl⟩)
  · exact .inr (.inr (.inl h))
  · exact .inr (.inl ⟨q, List.mem_append_right _ hq, rfl⟩)
  · exact .inr (.inr (.inr h))

theorem share_byQuote (hms : ms.Quoted) (ht : ms.Traded) (hpos : 0 < ms.tradevol)
    {c : Guarded Undefined (ℚ × Int)} (hc : c ∈ ms.byQuote) (hmet : c.guard) {b : ℚ × Int}
    (hb : c.value = .ok b) : ms.Share b := by
  have hvol' : (0 : ℚ) ≤ ms.tradevol := by exact_mod_cast ht.vol
  rcases mem_byQuote hc with h | ⟨q, hq, rfl⟩ | rfl | rfl
  · obtain ⟨b', hb', hshare⟩ := share_outer ht.vol h hmet
    rw [hb, Except.ok.injEq] at hb'
    rw [hb']
    exact hshare
  · obtain ⟨x, hx, rfl⟩ := solve_eq_ok.mp hb
    obtain ⟨-, hlow, hhigh⟩ := mem_span hms hq hmet
    obtain ⟨h₀, h₁⟩ := share_mem ht.vol (ht.avg hpos) hlow hhigh hx
    exact ⟨h₀, h₁, span_type hq⟩
  · cases hb
    exact ⟨le_rfl, hvol', by decide⟩
  · cases hb
    exact ⟨hvol', le_rfl, (by decide : (16 : Int) ≠ -1)⟩

theorem share_behind (ht : ms.Traded) {c : Guarded Undefined (ℚ × Int)}
    (hc : c ∈ ms.noTrade :: ms.atQuote) {b : ℚ × Int} (hb : c.value = .ok b) : ms.Share b := by
  have hvol' : (0 : ℚ) ≤ ms.tradevol := by exact_mod_cast ht.vol
  simp only [noTrade, atQuote, List.mem_cons, List.not_mem_nil, or_false] at hc
  rcases hc with rfl | rfl | rfl | rfl <;> cases hb
  · exact ⟨le_rfl, hvol', by decide⟩
  · exact ⟨le_rfl, hvol', by decide⟩
  · exact ⟨hvol', le_rfl, (by decide : (18 : Int) ≠ -1)⟩
  · exact ⟨le_rfl, hvol', by decide⟩

/-- Without a trade the cases of the quotes do not matter. -/
theorem share_cases (hms : ms.Quoted) (ht : ms.Traded) {a b : ℚ × Int}
    (h : Guarded.run ms.cases a = .ok b) : ms.Share b := by
  rcases Int.lt_or_eq_of_le ht.vol with hpos | hzero
  · obtain ⟨c, hc, hmet⟩ := met_byQuote hms
    refine Guarded.run_met (fun d hd hmet b hb => ?_) ⟨c, List.mem_append_left _ hc, hmet⟩ h
    rcases List.mem_append.mp hd with hd | hd
    · exact share_byQuote hms ht hpos hd hmet hb
    · exact share_behind ht hd hb
  · rw [cases, Guarded.run_append] at h
    cases hfront : Guarded.run ms.byQuote a with
    | error e =>
      rw [hfront] at h
      cases h
    | ok m =>
      rw [hfront] at h
      refine Guarded.run_met (fun d hd _ b hb => share_behind ht hd hb)
        ⟨ms.noTrade, List.mem_cons_self, ?_⟩ h
      exact decide_eq_true hzero.symm

/-- The cases have a result where no line that is solved overflows. -/
theorem cases_ok_iff (hms : ms.Quoted) (ht : ms.Traded) (a : ℚ × Int) :
    (∃ b, Guarded.run ms.cases a = .ok b) ↔
      ∀ q ∈ ms.risen ++ ms.fallen, q.guard → q.Fits ms.tradevol := by
  rw [Guarded.run_ok_iff]
  constructor
  · intro h q hq hmet
    refine (solve_ok_iff (mem_span hms hq hmet).1).mp (h (ms.solve q) ?_ hmet)
    simp only [cases, byQuote, List.mem_append, List.mem_map]
    rcases List.mem_append.mp hq with hq | hq
    · exact .inl (.inl (.inl (.inl (.inr ⟨q, hq, rfl⟩))))
    · exact .inl (.inl (.inr ⟨q, hq, rfl⟩))
  · intro h c hc hmet
    rcases List.mem_append.mp hc with hc | hc
    · rcases mem_byQuote hc with hc | ⟨q, hq, rfl⟩ | rfl | rfl
      · obtain ⟨b, hb, -⟩ := share_outer ht.vol hc hmet
        exact ⟨b, hb⟩
      · exact (solve_ok_iff (mem_span hms hq hmet).1).mpr (h q hq hmet)
      · exact ⟨_, rfl⟩
      · exact ⟨_, rfl⟩
    · simp only [noTrade, atQuote, List.mem_cons, List.not_mem_nil, or_false] at hc
      rcases hc with rfl | rfl | rfl | rfl <;> exact ⟨_, rfl⟩

end CMarketStruct

/-! ## The division -/

/-- Some case is met, and the volume is divided in two parts that do not depend on
what an earlier tick has left. -/
def Divided (ms : CMarketStruct) : Prop :=
  ∃ (bidvol askvol : ℚ) (type : Int), type ≠ -1 ∧ 0 ≤ bidvol ∧ bidvol ≤ ms.tradevol ∧
    bidvol + askvol = ms.tradevol ∧
    ∀ s : CBaseSignal, s.getRealTradeVol ms =
      .ok { s with realtradebidvol := bidvol, realtradeaskvol := askvol, type := type }

theorem divided_iff {ms : CMarketStruct} (hms : ms.Quoted) (ht : ms.Traded) :
    Divided ms ↔ ∀ q ∈ ms.risen ++ ms.fallen, q.guard → q.Fits ms.tradevol := by
  constructor
  · rintro ⟨bidvol, askvol, type, -, -, -, -, hs⟩
    refine (CMarketStruct.cases_ok_iff hms ht (0, -1)).mp ?_
    have hrun := hs ⟨0, 0, 0, .zero, .zero⟩
    unfold CBaseSignal.getRealTradeVol at hrun
    cases hcases : Guarded.run ms.cases (0, -1) with
    | ok b => exact ⟨b, rfl⟩
    | error e =>
      dsimp only at hrun
      rw [hcases] at hrun
      cases hrun
  · intro hfits
    obtain ⟨⟨bidvol, type⟩, hrun⟩ := (CMarketStruct.cases_ok_iff hms ht (0, -1)).mpr hfits
    obtain ⟨c, hc, hmet⟩ := CMarketStruct.met_byQuote hms
    have hany : ∀ s : CBaseSignal, Guarded.run ms.cases (s.realtradebidvol, -1) = .ok (bidvol, type) := by
      intro s
      rw [← hrun]
      exact Guarded.run_of_met ⟨c, List.mem_append_left _ hc, hmet⟩ _ _
    obtain ⟨h₀, h₁, htype⟩ := CMarketStruct.share_cases hms ht hrun
    by_cases hbid : |ms.avgprice - ms.lastbidp[0]| < eps ∧ |ms.avgprice - ms.bidp[0]| < eps
    · refine ⟨bidvol, ms.tradevol - bidvol, 20, by decide, h₀, h₁, add_sub_cancel _ _, fun s => ?_⟩
      unfold CBaseSignal.getRealTradeVol
      rw [hany s]
      dsimp only [bind, Except.bind]
      rw [if_pos hbid]
      rfl
    · refine ⟨bidvol, ms.tradevol - bidvol, type, htype, h₀, h₁, add_sub_cancel _ _, fun s => ?_⟩
      unfold CBaseSignal.getRealTradeVol
      rw [hany s]
      dsimp only [bind, Except.bind]
      rw [if_neg hbid]
      rfl

/-- A tick of one level, with the same quotes before and after. -/
def quietTick (bid ask tradevol turnover : Int) (avg : ℚ) : CMarketStruct :=
  { askv := .replicate 5 20, askp := .replicate 5 ask, bidv := .replicate 5 30
    bidp := .replicate 5 bid, lastaskp := .replicate 5 ask, lastaskv := .replicate 5 20
    lastbidp := .replicate 5 bid, lastbidv := .replicate 5 30
    tradevol := tradevol, turnover := turnover, avgprice := avg }

/-- Ten lots at 49999.5 between 49998 and 50000. -/
theorem divided_quietTick : Divided (quietTick 49998 50000 10 499995 (99999 / 2)) :=
  (divided_iff ⟨by decide, by decide⟩ ⟨by decide, fun _ => by decide +kernel⟩).mpr (by decide +kernel)

/-- 42950 lots at 49999 between 49998 and 50000: `50000 * 42950` is past the range of
`int`, though the turnover is not. -/
theorem not_divided_overflow :
    ¬∀ ms : CMarketStruct, ms.Quoted → ms.Traded → Divided ms := by
  intro h
  obtain ⟨bidvol, askvol, type, -, -, -, -, hs⟩ := h (quietTick 49998 50000 42950 2147457050 49999)
    ⟨by decide, by decide⟩ ⟨by decide, fun _ => by decide +kernel⟩
  have hok : (CBaseSignal.getRealTradeVol ⟨0, 0, 0, .zero, .zero⟩
      (quietTick 49998 50000 42950 2147457050 49999)).isOk = true :=
    congrArg Except.isOk (hs ⟨0, 0, 0, .zero, .zero⟩)
  revert hok
  decide +kernel

end NatFramework.Execute
