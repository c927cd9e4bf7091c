import Mathlib.Algebra.Ring.GrindInstances
import Mathlib.Algebra.Ring.Int.Defs
import Mathlib.Data.Int.Order.Basic
import Mathlib.Data.List.Basic
import Mathlib.Data.List.Count

/-!
# Intervals and the time they leave

Half-open intervals of integers, in order and disjoint. `clock S x` counts the
integers below `x` that lie in an interval of `S`; it runs through an interval of
`S` at speed one and stands still between two of them.

* `overlap_eq`: what an interval shares with `S` is the advance of the clock over it.
* `Chain`: intervals laid end to end by a clock, each beginning where the one
  before it has stopped.
* `countP_chain`: where the clock moves on, exactly one interval of a chain lies.
-/
namespace NatFramework.Lib.Intervals

abbrev Interval := Int × Int

/-- Intervals in order and disjoint. -/
def Ordered (S : List Interval) : Prop :=
  (∀ s ∈ S, s.1 < s.2) ∧ S.Pairwise fun s t => s.2 ≤ t.1

/-- The length of all intervals. -/
def total (S : List Interval) : Int := (S.map fun s => s.2 - s.1).sum

/-- The integers below `x` in the intervals. -/
def clock (S : List Interval) (x : Int) : Int := (S.map fun s => min x s.2 - min x s.1).sum

/-- The integers of `b` in the intervals. -/
def overlap (S : List Interval) (b : Interval) : Int :=
  (S.map fun s => max 0 (min b.2 s.2 - max b.1 s.1)).sum

@[simp] theorem total_nil : total [] = 0 := rfl

@[simp] theorem total_cons (s : Interval) (S : List Interval) :
    total (s :: S) = s.2 - s.1 + total S := by
  simp [total]

@[simp] theorem total_append (S T : List Interval) : total (S ++ T) = total S + total T := by
  simp [total]

theorem total_nonneg {S : List Interval} (h : ∀ s ∈ S, s.1 < s.2) : 0 ≤ total S := by
  induction S with
  | nil => simp
  | cons s S ih =>
    have hs := h s List.mem_cons_self
    have hS := ih fun t ht => h t (List.mem_cons_of_mem s ht)
    rw [total_cons]
    omega

theorem clock_cons (s : Interval) (S : List Interval) (x : Int) :
    clock (s :: S) x = min x s.2 - min x s.1 + clock S x := by
  simp [clock]

theorem clock_append (S T : List Interval) (x : Int) : clock (S ++ T) x = clock S x + clock T x := by
  simp [clock]

theorem clock_mono {S : List Interval} (h : ∀ s ∈ S, s.1 < s.2) {x y : Int} (hxy : x ≤ y) :
    clock S x ≤ clock S y := by
  induction S with
  | nil => simp [clock]
  | cons s S ih =>
    have hs := h s List.mem_cons_self
    have hS := ih fun t ht => h t (List.mem_cons_of_mem s ht)
    rw [clock_cons, clock_cons]
    omega

theorem overlap_eq {S : List Interval} (h : ∀ s ∈ S, s.1 < s.2) {b : Interval} (hb : b.1 ≤ b.2) :
    overlap S b = clock S b.2 - clock S b.1 := by
  induction S with
  | nil => simp [overlap, clock]
  | cons s S ih =>
    have hs := h s List.mem_cons_self
    have hS := ih fun t ht => h t (List.mem_cons_of_mem s ht)
    have hcons : overlap (s :: S) b = max 0 (min b.2 s.2 - max b.1 s.1) + overlap S b := by
      simp [overlap]
    rw [hcons, clock_cons, clock_cons, hS]
    omega

/-- The clock behind all intervals. -/
theorem clock_of_ge {S : List Interval} (h : ∀ s ∈ S, s.1 < s.2) {x : Int} (hx : ∀ s ∈ S, s.2 ≤ x) :
    clock S x = total S := by
  induction S with
  | nil => simp [clock]
  | cons s S ih =>
    have hs := h s List.mem_cons_self
    have hxs := hx s List.mem_cons_self
    rw [clock_cons, total_cons,
      ih (fun t ht => h t (List.mem_cons_of_mem s ht)) fun t ht => hx t (List.mem_cons_of_mem s ht)]
    omega

/-- The clock in front of all intervals. -/
theorem clock_of_le {S : List Interval} (h : ∀ s ∈ S, s.1 < s.2) {x : Int} (hx : ∀ s ∈ S, x ≤ s.1) :
    clock S x = 0 := by
  induction S with
  | nil => simp [clock]
  | cons s S ih =>
    have hs := h s List.mem_cons_self
    have hxs := hx s List.mem_cons_self
    rw [clock_cons,
      ih (fun t ht => h t (List.mem_cons_of_mem s ht)) fun t ht => hx t (List.mem_cons_of_mem s ht)]
    omega

/-- The clock within an interval. -/
theorem clock_at {D R : List Interval} {s : Interval} (h : Ordered (D ++ s :: R)) {x : Int}
    (hbgn : s.1 ≤ x) (hend : x ≤ s.2) : clock (D ++ s :: R) x = total D + (x - s.1) := by
  obtain ⟨hD, hsR, hcross⟩ := List.pairwise_append.mp h.2
  have hpos := h.1
  have hR := (List.pairwise_cons.mp hsR).1
  have hs := hpos s (by simp)
  have hbefore : clock D x = total D :=
    clock_of_ge (fun t ht => hpos t (by simp [ht])) fun t ht => by
      have := hcross t ht s List.mem_cons_self
      omega
  have hafter : clock R x = 0 :=
    clock_of_le (fun t ht => hpos t (by simp [ht])) fun t ht => by
      have := hR t ht
      omega
  rw [clock_append, clock_cons, hbefore, hafter]
  omega

/-- The first interval begins before every other. -/
theorem Ordered.head_le {D R : List Interval} {s t : Interval} (h : Ordered (D ++ s :: R))
    (ht : (D ++ s :: R).head? = some t) : t.1 ≤ s.1 := by
  cases D with
  | nil =>
    simp only [List.nil_append, List.head?_cons, Option.some.injEq] at ht
    rw [ht]
  | cons d D =>
    simp only [List.cons_append, List.head?_cons, Option.some.injEq] at ht
    subst ht
    have hpos := h.1 d (by simp)
    have hcross := (List.pairwise_append.mp h.2).2.2 d List.mem_cons_self s List.mem_cons_self
    omega

/-- The last interval ends behind every other. -/
theorem Ordered.le_last {S : List Interval} (h : Ordered S) {t : Interval} (ht : S.getLast? = some t) :
    ∀ s ∈ S, s.2 ≤ t.2 := by
  obtain ⟨D, rfl⟩ := List.getLast?_eq_some_iff.mp ht
  have hpos := h.1 t (by simp)
  have hcross := (List.pairwise_append.mp h.2).2.2
  intro s hs
  rcases List.mem_append.mp hs with hs | hs
  · have := hcross s hs t (List.mem_singleton_self t)
    omega
  · rw [List.mem_singleton.mp hs]

/-! ## Chains -/

/-- Intervals end to end by the clock `C`, from `a` to `z`. -/
def Chain (C : Int → Int) : Int → List Interval → Int → Prop
  | a, [], z => a = z
  | a, b :: bs, z => C b.1 = a ∧ b.1 < b.2 ∧ Chain C (C b.2) bs z

variable {C : Int → Int}

theorem chain_concat : ∀ (bs : List Interval) {a z : Int} (b : Interval),
    Chain C a (bs ++ [b]) z ↔ Chain C a bs (C b.1) ∧ b.1 < b.2 ∧ C b.2 = z
  | [], a, z, b => by
    simp only [List.nil_append, Chain]
    constructor
    · rintro ⟨rfl, hlt, hz⟩
      exact ⟨rfl, hlt, hz⟩
    · rintro ⟨rfl, hlt, hz⟩
      exact ⟨rfl, hlt, hz⟩
  | b' :: bs, a, z, b => by
    simp only [List.cons_append, Chain, chain_concat bs]
    tauto

/-- The clock over a chain of equal steps. -/
theorem chain_mul {w : Int} : ∀ {bs : List Interval} {a z : Int}, Chain C a bs z →
    (∀ b ∈ bs, C b.2 - C b.1 = w) → z = a + w * bs.length
  | [], a, z, h, _ => by
    have : a = z := h
    simp [this]
  | b :: bs, a, z, ⟨ha, _, hrest⟩, hw => by
    have hb := hw b List.mem_cons_self
    have := chain_mul hrest fun c hc => hw c (List.mem_cons_of_mem b hc)
    rw [this, List.length_cons]
    push_cast
    rw [Int.mul_add]
    omega

/-- `x` is in the intervals that `C x` is in by the clock, if the clock moves on at
`x`. -/
theorem mem_iff_clock (hC : ∀ x y, x ≤ y → C x ≤ C y) {x : Int} (hx : C (x + 1) = C x + 1)
    (b : Interval) : b.1 ≤ x ∧ x < b.2 ↔ C b.1 ≤ C x ∧ C x + 1 ≤ C b.2 := by
  have hbgn : b.1 ≤ x ↔ C b.1 ≤ C x := by
    refine ⟨hC _ _, fun hle => ?_⟩
    by_contra hlt
    have := hC (x + 1) b.1 (by omega)
    omega
  have hend : x < b.2 ↔ C x + 1 ≤ C b.2 := by
    refine ⟨fun hlt => hx ▸ hC _ _ hlt, fun hle => ?_⟩
    by_contra hge
    have := hC b.2 x (by omega)
    omega
  rw [hbgn, hend]

/-- A chain that begins behind `x` does not contain it. -/
theorem countP_chain_of_lt (hC : ∀ x y, x ≤ y → C x ≤ C y) {x : Int} (hx : C (x + 1) = C x + 1) :
    ∀ {bs : List Interval} {a z : Int}, Chain C a bs z → C x + 1 ≤ a →
      bs.countP (fun b => b.1 ≤ x ∧ x < b.2) = 0
  | [], _, _, _, _ => rfl
  | b :: bs, a, z, ⟨ha, hlt, hrest⟩, hax => by
    have hstep := hC b.1 b.2 (Int.le_of_lt hlt)
    have hnot : ¬(b.1 ≤ x ∧ x < b.2) := by
      rw [mem_iff_clock hC hx]
      omega
    rw [List.countP_cons_of_neg (by simpa using hnot)]
    exact countP_chain_of_lt hC hx hrest (by omega)

/-- Where the clock moves on, one interval of the chain lies. -/
theorem countP_chain (hC : ∀ x y, x ≤ y → C x ≤ C y) {x : Int} (hx : C (x + 1) = C x + 1) :
    ∀ {bs : List Interval} {a z : Int}, Chain C a bs z → a ≤ C x → C x + 1 ≤ z →
      bs.countP (fun b => b.1 ≤ x ∧ x < b.2) = 1
  | [], _, _, h, ha, hz => by
    have := h.symm
    omega
  | b :: bs, a, z, ⟨ha, hlt, hrest⟩, hax, hxz => by
    by_cases hin : C x + 1 ≤ C b.2
    · have hmem : b.1 ≤ x ∧ x < b.2 := (mem_iff_clock hC hx b).mpr ⟨by omega, hin⟩
      rw [List.countP_cons_of_pos (by simpa using hmem), countP_chain_of_lt hC hx hrest hin]
    · have hnot : ¬(b.1 ≤ x ∧ x < b.2) := by
        rw [mem_iff_clock hC hx]
        omega
      rw [List.countP_cons_of_neg (by simpa using hnot)]
      exact countP_chain hC hx hrest (by omega) hxz

end NatFramework.Lib.Intervals
