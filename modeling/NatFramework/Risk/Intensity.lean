import Mathlib.Data.List.Induction
import NatFramework.Lib.Run
import NatFramework.Risk.RiskInstr

/-!
# The order intensity limit

`RiskInstr::IsIntensityNormal` and `onNew`: a counter of the orders of a cycle
and the time of the order that began it. `onNew` begins a cycle on the order
that follows a full one, so that the first cycle has no such order and is
measured from the initial 0.

* `Cycle`: where the counter and the time stand after a number of orders.
* `spaced_iff`: cycles are apart by the span exactly when the second begins so
  long after the first order.
-/
namespace NatFramework.Risk

open Lib Account

/-- A request that passes its check and is booked, with the account as the
check finds it. -/
structure Placed where
  acc : AccBase
  dir : Dir
  off : Off
  vol : Int
  nano : Int

/-- Orders of one instrument. -/
def intensitySys : Lib.Sys RiskInstr Placed where
  start r := r.intensityCycleOrderCount = 0 ∧ r.intensityCycleTimeRecord = 0
  ok r o := r.check o.acc o.dir o.off o.vol o.nano = 0
  next r o := r.onNew o.nano

instance (r : RiskInstr) (o : Placed) : Decidable (intensitySys.ok r o) :=
  inferInstanceAs (Decidable (r.check o.acc o.dir o.off o.vol o.nano = 0))

/-- Every order that begins a cycle of `n` is followed by the one that begins
the next after the span `s` or later. -/
def Spaced (n : Nat) (s : ℚ) (ts : List Int) : Prop :=
  ∀ j a b, ts[j * n]? = some a → ts[(j + 1) * n]? = some b → s ≤ ((b - a : Int) : ℚ)

/-- The order behind the first `n` comes no sooner than the span after the first. -/
def FirstCycleSpaced (n : Nat) (s : ℚ) (ts : List Int) : Prop :=
  ∀ a b, ts[0]? = some a → ts[n]? = some b → s ≤ ((b - a : Int) : ℚ)

/-- After the times `ts`: `q` full cycles, and `k` orders of the next. -/
structure Cycle (n : Nat) (r : RiskInstr) (ts : List Int) (q k : Nat) : Prop where
  length : ts.length = q * n + k
  count : r.intensityCycleOrderCount = k
  threshold : r.intensityCycleOrderCountThreshold = n
  le : k ≤ n
  begun : q ≠ 0 → 1 ≤ k
  record : q ≠ 0 → ts[q * n]? = some r.intensityCycleTimeRecord

variable {n : Nat} {r : RiskInstr} {ts : List Int} {q k : Nat}

theorem RiskInstr.onNew_span (r : RiskInstr) (nano : Int) :
    (r.onNew nano).intensityCycleTimeSpanThreshold = r.intensityCycleTimeSpanThreshold := by
  unfold RiskInstr.onNew
  dsimp only
  split <;> rfl

theorem RiskInstr.isIntensityNormal_of_check {o : Placed}
    (h : r.check o.acc o.dir o.off o.vol o.nano = 0) : r.isIntensityNormal o.nano = true := by
  unfold RiskInstr.check at h
  dsimp only at h
  split at h
  · cases h
  split at h
  · cases h
  split at h
  · cases h
  rename_i hn
  simpa using hn

/-- An order within a cycle is counted. -/
theorem Cycle.within (h : Cycle n r ts q k) (hk : k < n) (t : Int) :
    Cycle n (r.onNew t) (ts ++ [t]) q (k + 1) := by
  have hcount := h.count
  have hthr := h.threshold
  have hsame : r.onNew t =
      { r with intensityCycleOrderCount := r.intensityCycleOrderCount + 1 } := by
    unfold RiskInstr.onNew
    dsimp only
    rw [if_neg (by omega)]
  rw [hsame]
  refine ⟨?_, ?_, hthr, hk, fun _ => Nat.le_add_left 1 k, fun hq => ?_⟩
  · rw [List.length_append, h.length, List.length_singleton, Nat.add_assoc]
  · dsimp only
    omega
  · have hlt : q * n < ts.length := by
      have := h.length
      have := h.begun hq
      omega
    rw [List.getElem?_append_left hlt]
    exact h.record hq

/-- The order behind a full cycle begins the next. -/
theorem Cycle.begin (h : Cycle n r ts q n) (hn : 1 ≤ n) (t : Int) :
    Cycle n (r.onNew t) (ts ++ [t]) (q + 1) 1 := by
  have hcount := h.count
  have hthr := h.threshold
  have hlen : (q + 1) * n = ts.length := by rw [h.length, Nat.succ_mul]
  have hnew : r.onNew t =
      { r with intensityCycleOrderCount := 1, intensityCycleTimeRecord := t } := by
    unfold RiskInstr.onNew
    dsimp only
    rw [if_pos (by omega)]
  rw [hnew]
  refine ⟨?_, rfl, hthr, hn, fun _ => Nat.le_refl 1, fun _ => ?_⟩
  · rw [hlen, List.length_append, List.length_singleton]
  · rw [hlen]
    exact List.getElem?_concat_length

/-- Only the order behind a full cycle is compared with an earlier one. -/
theorem spaced_within (h : Cycle n r ts q k) (hk : k < n) (s : ℚ) (t : Int) :
    Spaced n s (ts ++ [t]) ↔ Spaced n s ts := by
  have hlast : ∀ j, (j + 1) * n ≠ ts.length := by
    intro j hj
    rw [h.length] at hj
    rcases Nat.eq_zero_or_pos k with rfl | hpos
    · have hq : q = 0 := by
        by_contra hq
        have := h.begun hq
        omega
      subst hq
      have hle : n ≤ (j + 1) * n := Nat.le_mul_of_pos_left n (Nat.succ_pos j)
      omega
    · -- `k` is no multiple of `n`
      have hmod := congrArg (· % n) hj
      simp only [Nat.mul_mod_left, Nat.mul_add_mod_self_right, Nat.mod_eq_of_lt hk] at hmod
      omega
  constructor
  · intro hs j a b ha hb
    have h1 := (List.getElem?_eq_some_iff.mp ha).1
    have h2 := (List.getElem?_eq_some_iff.mp hb).1
    exact hs j a b (by rwa [List.getElem?_append_left h1]) (by rwa [List.getElem?_append_left h2])
  · intro hs j a b ha hb
    have h2 := (List.getElem?_eq_some_iff.mp hb).1
    have hne := hlast j
    have hle : j * n ≤ (j + 1) * n := Nat.mul_le_mul_right n (Nat.le_succ j)
    simp only [List.length_append, List.length_singleton] at h2
    rw [List.getElem?_append_left (by omega)] at ha hb
    exact hs j a b ha hb

/-- The order behind a full cycle is compared with the one that began it. -/
theorem spaced_begin (h : Cycle n r ts q n) (hn : 1 ≤ n) (s : ℚ) (t : Int) :
    Spaced n s (ts ++ [t]) ↔
      Spaced n s ts ∧ ∀ a, ts[q * n]? = some a → s ≤ ((t - a : Int) : ℚ) := by
  have hlen : (q + 1) * n = ts.length := by rw [h.length, Nat.succ_mul]
  constructor
  · intro hs
    constructor
    · intro j a b ha hb
      have h1 := (List.getElem?_eq_some_iff.mp ha).1
      have h2 := (List.getElem?_eq_some_iff.mp hb).1
      exact hs j a b (by rwa [List.getElem?_append_left h1]) (by rwa [List.getElem?_append_left h2])
    · intro a ha
      have h1 := (List.getElem?_eq_some_iff.mp ha).1
      refine hs q a t (by rwa [List.getElem?_append_left h1]) ?_
      rw [hlen]
      exact List.getElem?_concat_length
  · rintro ⟨hs, hlast⟩ j a b ha hb
    have h2 := (List.getElem?_eq_some_iff.mp hb).1
    simp only [List.length_append, List.length_singleton] at h2
    rcases Nat.lt_or_ge ((j + 1) * n) ts.length with hlt | hge
    · have hle : j * n ≤ (j + 1) * n := Nat.mul_le_mul_right n (Nat.le_succ j)
      rw [List.getElem?_append_left (by omega)] at ha hb
      exact hs j a b ha hb
    · have hj : j = q := by
        have heq : (j + 1) * n = (q + 1) * n := by omega
        have := Nat.eq_of_mul_eq_mul_right hn heq
        omega
      subst hj
      rw [hlen, List.getElem?_concat_length, Option.some.injEq] at hb
      subst hb
      refine hlast a ?_
      rwa [List.getElem?_append_left (by rw [h.length]; omega)] at ha

/-- What a passed check says of the order behind a full cycle. -/
theorem Cycle.normal (h : Cycle n r ts q n) (hq : q ≠ 0) {t : Int}
    (hc : r.isIntensityNormal t = true) {a : Int} (ha : ts[q * n]? = some a) :
    r.intensityCycleTimeSpanThreshold ≤ ((t - a : Int) : ℚ) := by
  have hrec := h.record hq
  rw [ha, Option.some.injEq] at hrec
  have hfull : r.intensityCycleOrderCount ≥ r.intensityCycleOrderCountThreshold := by
    rw [h.count, h.threshold]
  unfold RiskInstr.isIntensityNormal at hc
  rw [decide_eq_true hfull, Bool.true_and, Bool.not_eq_true', decide_eq_false_iff_not, not_lt,
    ← hrec] at hc
  exact hc

theorem FirstCycleSpaced.of_append {s : ℚ} {us : List Int} (h : FirstCycleSpaced n s (ts ++ us)) :
    FirstCycleSpaced n s ts := by
  intro a b ha hb
  have h1 := (List.getElem?_eq_some_iff.mp ha).1
  have h2 := (List.getElem?_eq_some_iff.mp hb).1
  exact h a b (by rwa [List.getElem?_append_left h1]) (by rwa [List.getElem?_append_left h2])

/-- Where the record stands after a run, and that all later cycles are spaced. -/
theorem cycle_of_run (hn : 1 ≤ n) (hstart : intensitySys.start r)
    (hthr : r.intensityCycleOrderCountThreshold = n) (os : List Placed)
    (ha : intensitySys.Admits r os) :
    (∃ q k, Cycle n (intensitySys.exec r os) (os.map (·.nano)) q k) ∧
      (intensitySys.exec r os).intensityCycleTimeSpanThreshold = r.intensityCycleTimeSpanThreshold ∧
      (FirstCycleSpaced n r.intensityCycleTimeSpanThreshold (os.map (·.nano)) →
        Spaced n r.intensityCycleTimeSpanThreshold (os.map (·.nano))) := by
  induction os using List.reverseRecOn with
  | nil =>
    refine ⟨⟨0, 0, ?_, hstart.1, hthr, Nat.zero_le n, fun h => absurd rfl h, fun h => absurd rfl h⟩,
      rfl, fun _ j a b ha => ?_⟩
    · simp
    · simp at ha
  | append_singleton os o ih =>
    rw [Sys.admits_append] at ha
    obtain ⟨hadm, hok, -⟩ := ha
    obtain ⟨⟨q, k, hcyc⟩, hspan, hs⟩ := ih hadm
    have hnormal := RiskInstr.isIntensityNormal_of_check hok
    rw [List.map_append, List.map_singleton, Sys.exec_append, Sys.exec_cons, Sys.exec_nil]
    rw [← hspan] at hs ⊢
    generalize intensitySys.exec r os = r' at hcyc hs hnormal ⊢
    refine ⟨?_, RiskInstr.onNew_span r' o.nano, fun hfirst => ?_⟩
    · rcases Nat.lt_or_ge k n with hk | hk
      · exact ⟨q, k + 1, hcyc.within hk o.nano⟩
      · obtain rfl := Nat.le_antisymm hcyc.le hk
        exact ⟨q + 1, 1, hcyc.begin hn o.nano⟩
    · have hbefore := hs hfirst.of_append
      rcases Nat.lt_or_ge k n with hk | hk
      · exact (spaced_within hcyc hk _ _).mpr hbefore
      · obtain rfl := Nat.le_antisymm hcyc.le hk
        refine (spaced_begin hcyc hn _ _).mpr ⟨hbefore, fun a haq => ?_⟩
        rcases Nat.eq_zero_or_pos q with rfl | hq
        · -- the first cycle is the one the record does not know of
          rw [Nat.zero_mul] at haq
          have hlen : (os.map (·.nano)).length = k := by simpa using hcyc.length
          refine hfirst a o.nano ?_ ?_
          · rwa [List.getElem?_append_left (by omega)]
          · rw [← hlen]
            exact List.getElem?_concat_length
        · exact hcyc.normal (Nat.ne_of_gt hq) hnormal haq

/-- **The intensity limit holds from the second cycle on**: in every run of
orders that pass the check, cycles are apart by the span exactly when the order
behind the first cycle is. -/
theorem spaced_iff (hn : 1 ≤ n) (hstart : intensitySys.start r)
    (hthr : r.intensityCycleOrderCountThreshold = n) (os : List Placed)
    (ha : intensitySys.Admits r os) :
    Spaced n r.intensityCycleTimeSpanThreshold (os.map (·.nano)) ↔
      FirstCycleSpaced n r.intensityCycleTimeSpanThreshold (os.map (·.nano)) := by
  constructor
  · intro hs a b ha hb
    exact hs 0 a b (by rwa [Nat.zero_mul]) (by rwa [Nat.zero_add, Nat.one_mul])
  · exact (cycle_of_run hn hstart hthr os ha).2.2

/-- An account that knows the contract. -/
def rbAccount : AccBase := (({} : AccBase).regInstr .rb "rb1810").1

/-- One order in ten seconds. -/
def oneInTen : RiskInstr where
  pUnitVol := some (rbAccount.mapInstr.addr 1)
  intensityCycleOrderCountThreshold := 1
  intensityCycleTimeSpanThreshold := 10 * 1000000000
  isAllowed := true
  allowedOrderSizeThreshold := 5
  longVolumeThreshold := 5
  netVolumeThreshold := 5

def buyAtNano (nano : Int) : Placed := ⟨rbAccount, .buy, .opn, 1, nano⟩

theorem spaced_oneInTen :
    Spaced 1 oneInTen.intensityCycleTimeSpanThreshold
        ([buyAtNano 1525000000000000000, buyAtNano 1525000010000000000].map (·.nano)) ↔
      FirstCycleSpaced 1 oneInTen.intensityCycleTimeSpanThreshold
        ([buyAtNano 1525000000000000000, buyAtNano 1525000010000000000].map (·.nano)) :=
  spaced_iff (by decide) ⟨rfl, rfl⟩ rfl _ ⟨by decide +kernel, by decide +kernel, trivial⟩

/-- Two orders in one nanosecond are let through. -/
theorem not_spaced_oneInTen :
    ¬∀ (n : Nat) (r : RiskInstr) (os : List Placed), 1 ≤ n → intensitySys.start r →
      r.intensityCycleOrderCountThreshold = n → intensitySys.Admits r os →
      (os.map (·.nano)).Pairwise (· ≤ ·) →
      Spaced n r.intensityCycleTimeSpanThreshold (os.map (·.nano)) := by
  intro h
  have hs := h 1 oneInTen [buyAtNano 1525000000000000000, buyAtNano 1525000000000000001]
    (by decide) ⟨rfl, rfl⟩ rfl ⟨by decide +kernel, by decide +kernel, trivial⟩ (by decide)
    0 1525000000000000000 1525000000000000001 rfl rfl
  exact absurd hs (by decide +kernel)

end NatFramework.Risk
