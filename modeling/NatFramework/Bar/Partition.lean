import NatFramework.Lib.Intervals
import NatFramework.Bar.Generate

/-!
# Intraday bars and the trading time

What the continuous bars of `generateVecBar` make of the trading periods, by the
clock of the continuous periods (`Lib.Intervals`).

* `Partition`: the bars cover the trading time once, each with `cycle_sec` seconds
  of it but the last.
* Between two periods the state is one of three: `Exact` (the last bar ended with
  the period, `leave` is 0), `Pending` (a bar is open and lacks `leave` seconds) or
  `Stale` (the last bar ended with the period, but `leave` still holds what an
  earlier bar lacked). A `Stale` state takes the next bar for one that lacks
  `leave` seconds and has none yet.
* `partition_iff`: the bars are a partition if and only if no period leaves a stale
  `leave`, or what follows it is too short for anyone to notice (`Fits`).
-/
namespace NatFramework.Bar

open Lib.Intervals

/-! ## What a partition is -/

/-- The continuous trading periods. -/
def continuous (spans : List TimeSpan) : List Interval :=
  (spans.filter fun s => !s.isAuction).map fun s => (s.bgnSec, s.endSec)

/-- Periods in order and disjoint. -/
def WellFormed (spans : List TimeSpan) : Prop :=
  (∀ s ∈ spans, s.bgnSec < s.endSec) ∧ spans.Pairwise fun s t => s.endSec ≤ t.bgnSec

/-- The times of the continuous bars. -/
def slots (vecBar : List Bar2) : List Interval :=
  (vecBar.filter fun b => !b.isAuction).map fun b => (b.bob, b.eob)

structure Partition (S : List Interval) (cycleSec : Int) (bars : List Interval) : Prop where
  ordered : bars.Pairwise fun b b' => b.2 ≤ b'.1
  cover : ∀ s ∈ S, ∀ x, s.1 ≤ x → x < s.2 → bars.countP (fun b => b.1 ≤ x ∧ x < b.2) = 1
  full : ∀ b ∈ bars.dropLast, overlap S b = cycleSec
  last : ∀ b, bars.getLast? = some b → 1 ≤ overlap S b ∧ overlap S b ≤ cycleSec
  within : ∀ s t, S.head? = some s → S.getLast? = some t → ∀ b ∈ bars,
    s.1 ≤ b.1 ∧ b.1 ≤ t.2 ∧ s.1 ≤ b.2 ∧ b.2 ≤ t.2

/-- No period ends a bar exactly where an earlier one did not, or the periods after
it are shorter than what the earlier bar lacked. -/
def Fits (S : List Interval) (cycleSec : Int) : Prop :=
  ∀ D s R, S = D ++ s :: R → ¬cycleSec ∣ total D → cycleSec ∣ total (D ++ [s]) →
    0 < total R ∧ total R < cycleSec - total D % cycleSec

/-! ## The inner loop -/

theorem slots_append (v w : List Bar2) : slots (v ++ w) = slots v ++ slots w := by
  simp [slots]

theorem slots_single {b : Bar2} (h : b.isAuction = false) : slots [b] = [(b.bob, b.eob)] := by
  simp [slots, h]

theorem slots_auction {b : Bar2} (h : b.isAuction = true) : slots [b] = [] := by
  simp [slots, h]

namespace GenState

variable {cycleSec : Int}

theorem slots_push (g : GenState) :
    slots (g.push cycleSec).vecBar = slots g.vecBar ++ [(g.bar.bob, g.bar.eob)] := by
  change slots (g.vecBar ++ [_]) = _
  rw [slots_append, slots_single rfl]

/-- What a round of the inner loop keeps, the loop keeps, and it ends behind the
period or with a bar that does not. -/
theorem pushFull_ind (hcycle : 1 ≤ cycleSec) {P : GenState → Prop} {endSec : Int}
    (hpush : ∀ g, P g → g.bar.bob < endSec → g.bar.eob ≤ endSec → P (g.push cycleSec)) :
    ∀ (n : Nat) (g : GenState), P g → endSec - g.bar.eob < n →
      P (g.pushFull cycleSec endSec n) ∧ ((g.pushFull cycleSec endSec n).bar.bob < endSec →
        endSec < (g.pushFull cycleSec endSec n).bar.eob) ∧
      (g.pushFull cycleSec endSec n).leave = g.leave
  | 0, g, hg, hn => ⟨hg, fun _ => by simp only [pushFull]; omega, rfl⟩
  | n + 1, g, hg, hn => by
    unfold pushFull
    split
    · rename_i hin
      have hnext : endSec - (g.push cycleSec).bar.eob < n := by
        change endSec - (g.bar.eob + cycleSec) < n
        omega
      exact pushFull_ind hcycle hpush n _ (hpush g hg hin.1 hin.2) hnext
    · rename_i hout
      exact ⟨hg, fun hlt => by omega, rfl⟩

end GenState

/-! ## Within a period -/

namespace GenState

variable {S D R : List Interval} {cycleSec : Int} {s : Interval}

/-- The bar being composed in period `s` will have `cycleSec` seconds, as all bars
before it have. -/
structure Composing (S : List Interval) (cycleSec : Int) (s : Interval) (g : GenState) : Prop where
  chain : Chain (clock S) 0 (slots g.vecBar) (clock S g.bar.bob)
  full : ∀ b ∈ slots g.vecBar, clock S b.2 - clock S b.1 = cycleSec
  ordered : (slots g.vecBar).Pairwise fun b b' => b.2 ≤ b'.1
  upto : ∀ b ∈ slots g.vecBar, b.2 ≤ g.bar.bob
  lower : ∀ t, S.head? = some t → t.1 ≤ g.bar.bob ∧ ∀ b ∈ slots g.vecBar, t.1 ≤ b.1
  bob_le : g.bar.bob ≤ s.2
  bob_lt : g.bar.bob < g.bar.eob
  eob_gt : s.1 < g.bar.eob
  due : clock S s.1 + (g.bar.eob - s.1) - clock S g.bar.bob = cycleSec

theorem Composing.push (hS : Ordered S) (hsplit : S = D ++ s :: R) (hcycle : 1 ≤ cycleSec)
    {g : GenState} (h : Composing S cycleSec s g) (hle : g.bar.eob ≤ s.2) :
    Composing S cycleSec s (g.push cycleSec) := by
  have heob := h.eob_gt
  have hbob := h.bob_lt
  have hdue := h.due
  have hpos := hS.1 s (by simp [hsplit])
  have hclock : clock S g.bar.eob = clock S s.1 + (g.bar.eob - s.1) := by
    subst hsplit
    rw [clock_at hS heob.le hle, clock_at hS (le_refl _) hpos.le]
    omega
  have hmem : ∀ {P : Interval → Prop}, (∀ b ∈ slots g.vecBar, P b) → P (g.bar.bob, g.bar.eob) →
      ∀ b ∈ slots (g.push cycleSec).vecBar, P b := by
    intro P hold hnew b hb
    rw [slots_push] at hb
    rcases List.mem_append.mp hb with hb | hb
    · exact hold b hb
    · rw [List.mem_singleton.mp hb]
      exact hnew
  refine ⟨?_, hmem h.full (by dsimp only; omega), ?_, hmem (fun b hb => ?_) (le_refl _),
    fun t ht => ⟨?_, hmem (h.lower t ht).2 (h.lower t ht).1⟩, hle, ?_, ?_, ?_⟩
  · rw [slots_push, chain_concat]
    exact ⟨h.chain, hbob, rfl⟩
  · rw [slots_push, List.pairwise_append]
    refine ⟨h.ordered, List.pairwise_singleton _ _, fun b hb c hc => ?_⟩
    rw [List.mem_singleton.mp hc]
    exact h.upto b hb
  · have := h.upto b hb
    change b.2 ≤ g.bar.eob
    omega
  · have := (h.lower t ht).1
    change t.1 ≤ g.bar.eob
    omega
  · change g.bar.eob < g.bar.eob + cycleSec
    omega
  · change s.1 < g.bar.eob + cycleSec
    omega
  · change clock S s.1 + (g.bar.eob + cycleSec - s.1) - clock S g.bar.eob = cycleSec
    omega

/-! ## Between two periods -/

/-- The bars made of the periods `D`, up to `stop`, where `R` are left. -/
structure Made (S D R : List Interval) (stop : Int) (bars : List Interval) : Prop where
  split : S = D ++ R
  stop_eq : ∀ d, D.getLast? = some d → stop = d.2
  stop_le : ∀ r ∈ R, stop ≤ r.1
  ordered : bars.Pairwise fun b b' => b.2 ≤ b'.1
  upto : ∀ b ∈ bars, b.2 ≤ stop
  lower : ∀ t, S.head? = some t → ∀ b ∈ bars, t.1 ≤ b.1

/-- The last bar has ended with the last period. -/
structure Exact (S : List Interval) (cycleSec : Int) (D R : List Interval) (stop : Int)
    (g : GenState) : Prop where
  made : Made S D R stop (slots g.vecBar)
  leave : g.leave = 0
  chain : Chain (clock S) 0 (slots g.vecBar) (total D)
  full : ∀ b ∈ slots g.vecBar, clock S b.2 - clock S b.1 = cycleSec

/-- A bar is open. It lacks `leave` seconds and will then have `w`. -/
structure Pending (S : List Interval) (cycleSec w : Int) (D R : List Interval) (stop : Int)
    (g : GenState) : Prop where
  made : Made S D R stop (slots g.vecBar)
  leave : 0 < g.leave
  chain : Chain (clock S) 0 (slots g.vecBar) (clock S g.bar.bob)
  full : ∀ b ∈ slots g.vecBar, clock S b.2 - clock S b.1 = cycleSec
  upto : ∀ b ∈ slots g.vecBar, b.2 ≤ g.bar.bob
  lower : ∀ t, S.head? = some t → t.1 ≤ g.bar.bob
  bob_le : g.bar.bob ≤ stop
  due : total D - clock S g.bar.bob + g.leave = w

/-- The open bar has seconds already, and will be full. -/
structure Inexact (S : List Interval) (cycleSec : Int) (D R : List Interval) (stop : Int)
    (g : GenState) : Prop extends Pending S cycleSec cycleSec D R stop g where
  bob_lt : g.bar.bob < stop
  eob : g.bar.eob = stop + g.leave
  begun : clock S g.bar.bob < total D

/-- The last bar has ended with the last period, and `leave` is not 0. -/
structure Stale (S : List Interval) (cycleSec : Int) (D R : List Interval) (stop : Int)
    (g : GenState) : Prop extends Pending S cycleSec g.leave D R stop g where
  bob_eq : g.bar.bob = stop
  eob : g.bar.eob = stop + cycleSec
  short : g.leave < cycleSec

/-- The clock at the beginning and at the end of the next period. -/
theorem Made.clock_bgn (hS : Ordered S) {stop : Int} {bars : List Interval}
    (h : Made S D (s :: R) stop bars) : clock S s.1 = total D := by
  have hpos := hS.1 s (by simp [h.split])
  have hS' := hS
  rw [h.split] at hS' ⊢
  rw [clock_at hS' (le_refl _) hpos.le]
  omega

theorem Made.clock_end (hS : Ordered S) {stop : Int} {bars : List Interval}
    (h : Made S D (s :: R) stop bars) : clock S s.2 = total (D ++ [s]) := by
  have hpos := hS.1 s (by simp [h.split])
  have hS' := hS
  rw [h.split] at hS' ⊢
  rw [clock_at hS' hpos.le (le_refl _), total_append, total_cons, total_nil]
  omega

theorem Made.lower_bgn (hS : Ordered S) {stop : Int} {bars : List Interval}
    (h : Made S D (s :: R) stop bars) {t : Interval} (ht : S.head? = some t) : t.1 ≤ s.1 := by
  have hS' := hS
  rw [h.split] at hS' ht
  exact hS'.head_le ht

/-- The same bars once a period has been gone through that none of them reaches
behind. -/
theorem Made.step (hS : Ordered S) {stop : Int} {bars bars' : List Interval}
    (h : Made S D (s :: R) stop bars) (hordered : bars'.Pairwise fun b b' => b.2 ≤ b'.1)
    (hupto : ∀ b ∈ bars', b.2 ≤ s.2) (hlower : ∀ t, S.head? = some t → ∀ b ∈ bars', t.1 ≤ b.1) :
    Made S (D ++ [s]) R s.2 bars' where
  split := by rw [h.split]; simp
  stop_eq d hd := by
    rw [List.getLast?_concat] at hd
    cases hd
    rfl
  stop_le r hr := by
    have hS' := hS.2
    rw [h.split] at hS'
    exact (List.pairwise_cons.mp (List.pairwise_append.mp hS').2.1).1 r hr
  ordered := hordered
  upto := hupto
  lower := hlower

theorem Exact.enter (hS : Ordered S) (hcycle : 1 ≤ cycleSec) {stop : Int} {g : GenState}
    (h : Exact S cycleSec D (s :: R) stop g) {it : TimeSpan} (hit : s = (it.bgnSec, it.endSec)) :
    Composing S cycleSec s (g.enter cycleSec it) := by
  have hpos := hS.1 s (by simp [h.made.split])
  have hclock := h.made.clock_bgn hS
  have hstop := h.made.stop_le s List.mem_cons_self
  have hbob : (g.enter cycleSec it).bar.bob = s.1 := by
    rw [GenState.enter, if_pos h.leave, hit]
  have heob : (g.enter cycleSec it).bar.eob = s.1 + cycleSec := by
    rw [GenState.enter, if_pos h.leave, hit]
  have hvec : (g.enter cycleSec it).vecBar = g.vecBar := by
    rw [GenState.enter, if_pos h.leave]
  generalize g.enter cycleSec it = g' at hbob heob hvec ⊢
  refine ⟨by rw [hvec, hbob, hclock]; exact h.chain, by rw [hvec]; exact h.full,
    by rw [hvec]; exact h.made.ordered, fun b hb => ?_, fun t ht => ⟨?_, ?_⟩, by omega, by omega,
    by omega, by rw [hbob, heob]; omega⟩
  · rw [hvec] at hb
    have := h.made.upto b hb
    omega
  · rw [hbob]
    exact h.made.lower_bgn hS ht
  · rw [hvec]
    exact h.made.lower t ht

/-- The open bar goes on in the next period. -/
theorem Pending.enter_eq {w stop : Int} {g : GenState} (h : Pending S cycleSec w D (s :: R) stop g)
    {it : TimeSpan} (hit : s = (it.bgnSec, it.endSec)) :
    (g.enter cycleSec it).bar.bob = g.bar.bob ∧
      (g.enter cycleSec it).bar.eob = s.1 + g.leave ∧ (g.enter cycleSec it).vecBar = g.vecBar ∧
      (g.enter cycleSec it).leave = g.leave := by
  have hne := h.leave
  rw [GenState.enter, if_neg (by omega), hit]
  exact ⟨rfl, rfl, rfl, rfl⟩

theorem Inexact.enter (hS : Ordered S) {stop : Int} {g : GenState}
    (h : Inexact S cycleSec D (s :: R) stop g) {it : TimeSpan} (hit : s = (it.bgnSec, it.endSec)) :
    Composing S cycleSec s (g.enter cycleSec it) := by
  obtain ⟨hbob, heob, hvec, _⟩ := h.enter_eq hit
  have hpos := hS.1 s (by simp [h.made.split])
  have hclock := h.made.clock_bgn hS
  have hstop := h.made.stop_le s List.mem_cons_self
  have hle := h.bob_le
  have hleave := h.leave
  have hdue := h.due
  generalize g.enter cycleSec it = g' at hbob heob hvec ⊢
  refine ⟨by rw [hvec, hbob]; exact h.chain, by rw [hvec]; exact h.full,
    by rw [hvec]; exact h.made.ordered, by rw [hvec, hbob]; exact h.upto, fun t ht => ⟨?_, ?_⟩,
    by omega, by omega, by omega, by rw [hbob, heob]; omega⟩
  · rw [hbob]
    exact h.lower t ht
  · rw [hvec]
    exact h.made.lower t ht

/-! ## From one period to the next -/

/-- The period `it`, once its bar has been opened. -/
theorem span_eq (g : GenState) {it : TimeSpan} (hcont : it.isAuction = false) :
    g.span cycleSec it =
      let g' := (g.enter cycleSec it).pushFull cycleSec it.endSec
        ((it.endSec - (g.enter cycleSec it).bar.eob).toNat + 1)
      if g'.bar.bob ≠ it.endSec then { g' with leave := g'.bar.eob - it.endSec } else g' := by
  rw [span, if_neg (by simp [hcont])]

/-- The inner loop, run on full bars. -/
theorem Composing.loop (hS : Ordered S) (hsplit : S = D ++ s :: R) (hcycle : 1 ≤ cycleSec)
    {g : GenState} (h : Composing S cycleSec s g) :
    ∃ g', g.pushFull cycleSec s.2 ((s.2 - g.bar.eob).toNat + 1) = g' ∧ Composing S cycleSec s g' ∧
      (g'.bar.bob < s.2 → s.2 < g'.bar.eob) ∧ g'.leave = g.leave :=
  ⟨_, rfl, pushFull_ind hcycle (fun _ hg _ hle => hg.push hS hsplit hcycle hle) _ g h (by omega)⟩

/-- A bar is open at the end of the period. -/
theorem Composing.inexact (hS : Ordered S) {stop : Int} {bars : List Interval}
    (hmade : Made S D (s :: R) stop bars) {g : GenState} (h : Composing S cycleSec s g)
    (hlt : g.bar.bob < s.2) (hend : s.2 < g.bar.eob) :
    Inexact S cycleSec (D ++ [s]) R s.2 { g with leave := g.bar.eob - s.2 } := by
  have hbgn := hmade.clock_bgn hS
  have hclock := hmade.clock_end hS
  have hdue := h.due
  have htotal : total (D ++ [s]) = total D + (s.2 - s.1) := by simp
  have hpos := hS.1 s (by simp [hmade.split])
  have hmono : clock S g.bar.bob < clock S s.2 := by
    by_cases hle : g.bar.bob ≤ s.1
    · have := clock_mono hS.1 hle
      omega
    · have hS' := hS
      have hat : clock S g.bar.bob = total D + (g.bar.bob - s.1) := by
        rw [hmade.split] at hS' ⊢
        exact clock_at hS' (by omega) hlt.le
      omega
  exact {
    made := hmade.step hS h.ordered (fun b hb => by
      have := h.upto b hb
      omega) fun t ht => (h.lower t ht).2
    leave := by dsimp only; omega
    chain := h.chain
    full := h.full
    upto := h.upto
    lower := fun t ht => (h.lower t ht).1
    bob_le := hlt.le
    due := by dsimp only; omega
    bob_lt := hlt
    eob := by dsimp only; omega
    begun := by dsimp only; omega }

/-- The last bar ends with the period. -/
theorem Composing.exact (hS : Ordered S) {stop : Int} {bars : List Interval}
    (hmade : Made S D (s :: R) stop bars) {g : GenState} (h : Composing S cycleSec s g)
    (heq : g.bar.bob = s.2) : Made S (D ++ [s]) R s.2 (slots g.vecBar) ∧
      Chain (clock S) 0 (slots g.vecBar) (total (D ++ [s])) ∧ g.bar.eob = s.2 + cycleSec := by
  have hclock := hmade.clock_end hS
  have hbgn := hmade.clock_bgn hS
  have hdue := h.due
  have htotal : total (D ++ [s]) = total D + (s.2 - s.1) := by simp
  have hchain := h.chain
  rw [heq] at hdue hchain
  refine ⟨hmade.step hS h.ordered (fun b hb => ?_) fun t ht => (h.lower t ht).2, ?_, by omega⟩
  · have := h.upto b hb
    omega
  · rw [← hclock]
    exact hchain

/-- The state after a period that began with every bar full. -/
def Next (S : List Interval) (cycleSec : Int) (D R : List Interval) (stop : Int) (g : GenState) :
    Prop := Exact S cycleSec D R stop g ∨ Inexact S cycleSec D R stop g

theorem span_of_composing (hS : Ordered S) (hcycle : 1 ≤ cycleSec) {stop : Int}
    {bars : List Interval} (hmade : Made S D (s :: R) stop bars) {g : GenState} {it : TimeSpan}
    (hit : s = (it.bgnSec, it.endSec)) (hcont : it.isAuction = false)
    (h : Composing S cycleSec s (g.enter cycleSec it)) :
    Inexact S cycleSec (D ++ [s]) R s.2 (g.span cycleSec it) ∨
      (g.span cycleSec it).bar.bob = s.2 ∧ (g.span cycleSec it).leave = (g.enter cycleSec it).leave ∧
        Composing S cycleSec s (g.span cycleSec it) := by
  obtain ⟨g', hloop, hg', hend, hleave⟩ := h.loop hS hmade.split hcycle
  have hs : it.endSec = s.2 := by rw [hit]
  rw [span_eq g hcont, hs, hloop]
  dsimp only
  by_cases hbob : g'.bar.bob = s.2
  · rw [if_neg (not_not.mpr hbob)]
    exact Or.inr ⟨hbob, hleave, hg'⟩
  · rw [if_pos hbob]
    have hle := hg'.bob_le
    exact Or.inl (hg'.inexact hS hmade (by omega) (hend (by omega)))

theorem Exact.span (hS : Ordered S) (hcycle : 1 ≤ cycleSec) {stop : Int} {g : GenState}
    (h : Exact S cycleSec D (s :: R) stop g) {it : TimeSpan} (hit : s = (it.bgnSec, it.endSec))
    (hcont : it.isAuction = false) : Next S cycleSec (D ++ [s]) R s.2 (g.span cycleSec it) := by
  have henter : (g.enter cycleSec it).leave = 0 := by
    rw [GenState.enter, if_pos h.leave]
    exact h.leave
  rcases span_of_composing hS hcycle h.made hit hcont (h.enter hS hcycle hit) with hin | hout
  · exact Or.inr hin
  · obtain ⟨hbob, hleave, hcomp⟩ := hout
    obtain ⟨hmade, hchain, _⟩ := hcomp.exact hS h.made hbob
    exact Or.inl ⟨hmade, hleave.trans henter, hchain, hcomp.full⟩

theorem Inexact.span (hS : Ordered S) (hcycle : 1 ≤ cycleSec) {stop : Int} {g : GenState}
    (h : Inexact S cycleSec D (s :: R) stop g) {it : TimeSpan} (hit : s = (it.bgnSec, it.endSec))
    (hcont : it.isAuction = false) :
    Inexact S cycleSec (D ++ [s]) R s.2 (g.span cycleSec it) ∨
      Stale S cycleSec (D ++ [s]) R s.2 (g.span cycleSec it) ∧
        (g.span cycleSec it).leave = g.leave := by
  obtain ⟨_, _, _, henter⟩ := h.enter_eq hit
  rcases span_of_composing hS hcycle h.made hit hcont (h.enter hS hit) with hin | hout
  · exact Or.inl hin
  · obtain ⟨hbob, hleave, hcomp⟩ := hout
    obtain ⟨hmade, hchain, heob⟩ := hcomp.exact hS h.made hbob
    have hclock := h.made.clock_end hS
    have hdue := h.due
    have hbegun := h.begun
    have hpos := h.leave
    rw [henter] at hleave
    refine Or.inr ⟨⟨⟨hmade, by omega, hcomp.chain, hcomp.full, hcomp.upto, fun t ht =>
      (hcomp.lower t ht).1, by omega, ?_⟩, hbob, heob, by omega⟩, hleave⟩
    rw [hbob, hclock]
    omega

/-! ## An open bar of any length -/

/-- The open bar outlasts the period. -/
theorem Pending.span_short (hS : Ordered S) {w stop : Int} {g : GenState}
    (h : Pending S cycleSec w D (s :: R) stop g) {it : TimeSpan} (hit : s = (it.bgnSec, it.endSec))
    (hcont : it.isAuction = false) (hlt : s.2 - s.1 < g.leave) :
    Pending S cycleSec w (D ++ [s]) R s.2 (g.span cycleSec it) ∧
      (g.span cycleSec it).bar.bob = g.bar.bob ∧
      (g.span cycleSec it).bar.eob = s.2 + (g.span cycleSec it).leave ∧
      (g.span cycleSec it).leave = g.leave - (s.2 - s.1) := by
  obtain ⟨hbob, heob, hvec, hleave⟩ := h.enter_eq hit
  have hs : it.endSec = s.2 := by rw [hit]
  have hpos := hS.1 s (by simp [h.made.split])
  have hstop := h.made.stop_le s List.mem_cons_self
  have hle := h.bob_le
  have hdue := h.due
  have htotal : total (D ++ [s]) = total D + (s.2 - s.1) := by simp
  have hstay : (g.enter cycleSec it).pushFull cycleSec it.endSec
      ((it.endSec - (g.enter cycleSec it).bar.eob).toNat + 1) = g.enter cycleSec it := by
    rw [pushFull, if_neg (by omega)]
  have hspan : g.span cycleSec it =
      { g.enter cycleSec it with leave := (g.enter cycleSec it).bar.eob - s.2 } := by
    rw [span_eq g hcont]
    dsimp only
    rw [hstay, if_pos (by omega), hs]
  rw [hspan]
  generalize g.enter cycleSec it = g' at hbob heob hvec hleave
  refine ⟨⟨?_, by dsimp only; omega, by dsimp only; rw [hvec, hbob]; exact h.chain,
    by dsimp only; rw [hvec]; exact h.full, by dsimp only; rw [hvec, hbob]; exact h.upto,
    by dsimp only; rw [hbob]; exact h.lower, by dsimp only; omega, ?_⟩, hbob, by dsimp only; omega,
    by dsimp only; omega⟩
  · dsimp only
    rw [hvec]
    exact h.made.step hS h.made.ordered (fun b hb => by have := h.made.upto b hb; omega) h.made.lower
  · dsimp only
    rw [hbob]
    omega

/-- A bar of another length than `cycleSec` has been made, and one is still open. -/
structure Spoiled (S : List Interval) (cycleSec : Int) (stop : Int) (g : GenState) : Prop where
  leave : 0 < g.leave
  bob_le : g.bar.bob ≤ stop
  bad : ∃ b ∈ slots g.vecBar, b.1 < b.2 ∧ clock S b.2 - clock S b.1 ≠ cycleSec

/-- What is left of a period in which a bar of another length has been made. -/
theorem spoiled_of_loop {g' : GenState} {s : Interval} (hbob : g'.bar.bob ≤ s.2)
    (hend : g'.bar.bob < s.2 → s.2 < g'.bar.eob) (hleave : 0 < g'.leave)
    (hbad : ∃ b ∈ slots g'.vecBar, b.1 < b.2 ∧ clock S b.2 - clock S b.1 ≠ cycleSec) :
    Spoiled S cycleSec s.2
      (if g'.bar.bob ≠ s.2 then { g' with leave := g'.bar.eob - s.2 } else g') := by
  split
  · have := hend (by omega)
    exact ⟨by dsimp only; omega, hbob, hbad⟩
  · exact ⟨hleave, hbob, hbad⟩

theorem bad_push {g : GenState}
    (h : ∃ b ∈ slots g.vecBar, b.1 < b.2 ∧ clock S b.2 - clock S b.1 ≠ cycleSec) :
    ∃ b ∈ slots (g.push cycleSec).vecBar, b.1 < b.2 ∧ clock S b.2 - clock S b.1 ≠ cycleSec := by
  obtain ⟨b, hb, hlt, hne⟩ := h
  exact ⟨b, by rw [slots_push]; exact List.mem_append_left _ hb, hlt, hne⟩

/-- The open bar ends within the period, or at its end. -/
theorem Pending.span_long (hS : Ordered S) (hcycle : 1 ≤ cycleSec) {w stop : Int} {g : GenState}
    (h : Pending S cycleSec w D (s :: R) stop g) {it : TimeSpan} (hit : s = (it.bgnSec, it.endSec))
    (hcont : it.isAuction = false) (hge : g.leave ≤ s.2 - s.1) (hw : w ≠ cycleSec) :
    Spoiled S cycleSec s.2 (g.span cycleSec it) := by
  obtain ⟨hbob, heob, hvec, hleave⟩ := h.enter_eq hit
  have hs : it.endSec = s.2 := by rw [hit]
  have hpos := hS.1 s (by simp [h.made.split])
  have hstop := h.made.stop_le s List.mem_cons_self
  have hle := h.bob_le
  have hleave' := h.leave
  have hdue := h.due
  -- the first round pushes the open bar, with `w` seconds
  have hclock : clock S (s.1 + g.leave) = total D + g.leave := by
    have hS' := hS
    rw [h.made.split] at hS' ⊢
    rw [clock_at hS' (by omega) (by omega)]
    omega
  obtain ⟨⟨hup, hcase⟩, hend, hkeep⟩ := @pushFull_ind cycleSec hcycle
    (fun g' => g'.bar.bob ≤ s.2 ∧ (g'.bar.bob = g.bar.bob ∧ g'.bar.eob = s.1 + g.leave ∨
      ∃ b ∈ slots g'.vecBar, b.1 < b.2 ∧ clock S b.2 - clock S b.1 ≠ cycleSec)) s.2
    (fun g' hg' hlt hfit => by
      refine ⟨hfit, Or.inr ?_⟩
      rcases hg'.2 with ⟨hb, he⟩ | hbad
      · refine ⟨(g'.bar.bob, g'.bar.eob), by rw [slots_push]; simp, by dsimp only; omega, ?_⟩
        dsimp only
        rw [hb, he, hclock]
        omega
      · exact bad_push hbad)
    ((it.endSec - (g.enter cycleSec it).bar.eob).toNat + 1) (g.enter cycleSec it)
    ⟨by omega, Or.inl ⟨hbob, heob⟩⟩ (by omega)
  rw [span_eq g hcont, hs] at *
  refine spoiled_of_loop hup hend (by omega) ?_
  rcases hcase with ⟨hb, he⟩ | hbad
  · have := hend (by omega)
    omega
  · exact hbad

theorem Spoiled.span (hcycle : 1 ≤ cycleSec) {stop : Int} {g : GenState}
    (h : Spoiled S cycleSec stop g) {it : TimeSpan} (hit : s = (it.bgnSec, it.endSec))
    (hcont : it.isAuction = false) (hpos : s.1 < s.2) (hstop : stop ≤ s.1) :
    Spoiled S cycleSec s.2 (g.span cycleSec it) := by
  have hs : it.endSec = s.2 := by rw [hit]
  have hleave := h.leave
  have hle := h.bob_le
  have henter : (g.enter cycleSec it).bar.bob = g.bar.bob ∧
      (g.enter cycleSec it).vecBar = g.vecBar ∧ (g.enter cycleSec it).leave = g.leave := by
    rw [GenState.enter, if_neg (by omega)]
    exact ⟨rfl, rfl, rfl⟩
  obtain ⟨⟨hup, hbad⟩, hend, hkeep⟩ := @pushFull_ind cycleSec hcycle
    (fun g' => g'.bar.bob ≤ s.2 ∧
      ∃ b ∈ slots g'.vecBar, b.1 < b.2 ∧ clock S b.2 - clock S b.1 ≠ cycleSec) s.2
    (fun g' hg' _ hfit => ⟨hfit, bad_push hg'.2⟩)
    ((it.endSec - (g.enter cycleSec it).bar.eob).toNat + 1) (g.enter cycleSec it)
    ⟨by omega, by rw [henter.2.1]; exact h.bad⟩ (by omega)
  rw [span_eq g hcont, hs] at *
  exact spoiled_of_loop hup hend (by omega) hbad

/-! ## Auctions, and the end of the day -/

theorem span_auction (g : GenState) {it : TimeSpan} (hauction : it.isAuction = true) :
    (g.span cycleSec it).bar = g.bar ∧ (g.span cycleSec it).leave = g.leave ∧
      slots (g.span cycleSec it).vecBar = slots g.vecBar := by
  rw [span, if_pos hauction]
  refine ⟨rfl, rfl, ?_⟩
  dsimp only
  rw [slots_append, slots_auction rfl, List.append_nil]

/-- A chain over the whole clock covers each second of the periods once. -/
theorem cover_of_chain (hS : Ordered S) {bars : List Interval}
    (hchain : Chain (clock S) 0 bars (total S)) :
    ∀ s ∈ S, ∀ x, s.1 ≤ x → x < s.2 → bars.countP (fun b => b.1 ≤ x ∧ x < b.2) = 1 := by
  intro s hs x hbgn hend
  obtain ⟨D, R, rfl⟩ := List.append_of_mem hs
  have hat := clock_at hS hbgn hend.le
  have hnext := clock_at hS (by omega : s.1 ≤ x + 1) (by omega)
  have hD := total_nonneg fun t ht => hS.1 t (List.mem_append_left _ ht)
  have hR := total_nonneg fun t ht => hS.1 t (List.mem_append_right _ (List.mem_cons_of_mem s ht))
  refine countP_chain (fun _ _ => clock_mono hS.1) (by omega) hchain (by omega) ?_
  rw [total_append, total_cons]
  omega

theorem overlap_of_lt (hS : Ordered S) {b : Interval} (hb : b.1 < b.2) :
    overlap S b = clock S b.2 - clock S b.1 := overlap_eq hS.1 hb.le

/-- The bars of a chain begin before they end. -/
theorem lt_of_chain {C : Int → Int} : ∀ {bars : List Interval} {a z : Int}, Chain C a bars z →
    ∀ b ∈ bars, b.1 < b.2
  | [], _, _, _, _, hb => absurd hb (List.not_mem_nil)
  | c :: bars, _, _, ⟨_, hlt, hrest⟩, b, hb => by
    rcases List.mem_cons.mp hb with rfl | hb
    · exact hlt
    · exact lt_of_chain hrest b hb

/-- The bars lie between the first and the last period. -/
theorem Made.within {stop : Int} {bars : List Interval} (h : Made S S [] stop bars)
    (hlt : ∀ b ∈ bars, b.1 < b.2) : ∀ s t, S.head? = some s → S.getLast? = some t → ∀ b ∈ bars,
    s.1 ≤ b.1 ∧ b.1 ≤ t.2 ∧ s.1 ≤ b.2 ∧ b.2 ≤ t.2 := by
  intro s t hs ht b hb
  have hlower := h.lower s hs b hb
  have hupto := h.upto b hb
  have hstop := h.stop_eq t ht
  have := hlt b hb
  omega

theorem Exact.partition (hS : Ordered S) (hcycle : 1 ≤ cycleSec) {stop : Int} {g : GenState}
    (h : Exact S cycleSec S [] stop g) : Partition S cycleSec (slots g.finish) := by
  have hfinish : g.finish = g.vecBar := by
    rw [GenState.finish, if_neg (by rw [h.leave]; omega)]
  have hlt := lt_of_chain h.chain
  have hfull : ∀ b ∈ slots g.vecBar, overlap S b = cycleSec := fun b hb => by
    rw [overlap_of_lt hS (hlt b hb)]
    exact h.full b hb
  rw [hfinish]
  refine ⟨h.made.ordered, cover_of_chain hS h.chain, fun b hb => hfull b (List.mem_of_mem_dropLast hb),
    fun b hb => ?_, h.made.within hlt⟩
  rw [hfull b (List.mem_of_getLast? hb)]
  omega

/-- The bar `finish` makes of the open one. -/
theorem slots_finish {g : GenState} (h : 0 < g.leave) :
    slots g.finish = slots g.vecBar ++ [(g.bar.bob, g.bar.eob - g.leave)] := by
  rw [GenState.finish, if_pos h, slots_append, slots_single rfl]

/-- The last bar is cut off at the end of the last period. -/
theorem Pending.partition (hS : Ordered S) {w stop : Int} {g : GenState}
    (h : Pending S cycleSec w S [] stop g) (hw : w ≤ cycleSec) (heob : g.bar.eob = stop + g.leave)
    (hbegun : clock S g.bar.bob < total S) : Partition S cycleSec (slots g.finish) := by
  have hleave := h.leave
  have hdue := h.due
  obtain ⟨t, ht⟩ : ∃ t, S.getLast? = some t := by
    refine Option.ne_none_iff_exists'.mp fun hnone => ?_
    rw [List.getLast?_eq_none_iff.mp hnone] at hbegun
    simp [clock] at hbegun
  have hstop := h.made.stop_eq t ht
  have hend : clock S stop = total S :=
    clock_of_ge hS.1 fun s hs => hstop ▸ hS.le_last ht s hs
  have hlt : g.bar.bob < stop := by
    by_contra hge
    have := clock_mono hS.1 (not_lt.mp hge)
    omega
  have hlast : g.bar.eob - g.leave = stop := by omega
  have hold := lt_of_chain h.chain
  have hchain : Chain (clock S) 0 (slots g.vecBar ++ [(g.bar.bob, stop)]) (total S) :=
    (chain_concat _ _).mpr ⟨h.chain, hlt, hend⟩
  have hmade : Made S S [] stop (slots g.vecBar ++ [(g.bar.bob, stop)]) := {
    split := by simp
    stop_eq := h.made.stop_eq
    stop_le := by simp
    ordered := by
      refine List.pairwise_append.mpr ⟨h.made.ordered, List.pairwise_singleton _ _, fun b hb c hc => ?_⟩
      rw [List.mem_singleton.mp hc]
      exact h.upto b hb
    upto := fun b hb => by
      rcases List.mem_append.mp hb with hb | hb
      · exact h.made.upto b hb
      · rw [List.mem_singleton.mp hb]
    lower := fun s hs b hb => by
      rcases List.mem_append.mp hb with hb | hb
      · exact h.made.lower s hs b hb
      · rw [List.mem_singleton.mp hb]
        exact h.lower s hs }
  rw [slots_finish hleave, hlast]
  refine ⟨hmade.ordered, cover_of_chain hS hchain, fun b hb => ?_, fun b hb => ?_,
    hmade.within (lt_of_chain hchain)⟩
  · rw [List.dropLast_concat] at hb
    rw [overlap_of_lt hS (hold b hb)]
    exact h.full b hb
  · rw [List.getLast?_concat] at hb
    cases hb
    rw [overlap_of_lt hS hlt, hend]
    dsimp only
    omega

theorem Spoiled.not_partition (hS : Ordered S) {stop : Int} {g : GenState}
    (h : Spoiled S cycleSec stop g) : ¬Partition S cycleSec (slots g.finish) := by
  intro hp
  obtain ⟨b, hb, hlt, hne⟩ := h.bad
  rw [slots_finish h.leave] at hp
  have hfull := hp.full b (by rw [List.dropLast_concat]; exact hb)
  rw [overlap_of_lt hS hlt] at hfull
  exact hne hfull

/-- A stale `leave` after the last period makes a bar behind it. -/
theorem Stale.not_partition {stop : Int} {g : GenState} (h : Stale S cycleSec S [] stop g)
    {t : Interval} (ht : S.getLast? = some t) : ¬Partition S cycleSec (slots g.finish) := by
  intro hp
  have hstop := h.made.stop_eq t ht
  have hshort := h.short
  have heob := h.eob
  obtain ⟨s, hs⟩ : ∃ s, S.head? = some s := by
    refine Option.ne_none_iff_exists'.mp fun hnone => ?_
    rw [List.head?_eq_none_iff.mp hnone] at ht
    cases ht
  rw [slots_finish h.leave] at hp
  have hwithin := (hp.within s t hs ht (g.bar.bob, g.bar.eob - g.leave) (by simp)).2.2.2
  dsimp only at hwithin
  omega

/-! ## Runs over the periods -/

theorem continuous_cons_auction {it : TimeSpan} (h : it.isAuction = true) (spans : List TimeSpan) :
    continuous (it :: spans) = continuous spans := by
  simp [continuous, h]

theorem continuous_cons {it : TimeSpan} (h : it.isAuction = false) (spans : List TimeSpan) :
    continuous (it :: spans) = (it.bgnSec, it.endSec) :: continuous spans := by
  simp [continuous, h]

theorem Spoiled.congr {stop : Int} {g g' : GenState} (h : Spoiled S cycleSec stop g)
    (hbar : g'.bar = g.bar) (hleave : g'.leave = g.leave)
    (hslots : slots g'.vecBar = slots g.vecBar) : Spoiled S cycleSec stop g' :=
  ⟨by rw [hleave]; exact h.leave, by rw [hbar]; exact h.bob_le, by rw [hslots]; exact h.bad⟩

theorem Pending.congr {w stop : Int} {g g' : GenState} (h : Pending S cycleSec w D R stop g)
    (hbar : g'.bar = g.bar) (hleave : g'.leave = g.leave)
    (hslots : slots g'.vecBar = slots g.vecBar) : Pending S cycleSec w D R stop g' := by
  refine ⟨?_, ?_, ?_, ?_, ?_, ?_, ?_, ?_⟩
  · rw [hslots]; exact h.made
  · rw [hleave]; exact h.leave
  · rw [hslots, hbar]; exact h.chain
  · rw [hslots]; exact h.full
  · rw [hslots, hbar]; exact h.upto
  · rw [hbar]; exact h.lower
  · rw [hbar]; exact h.bob_le
  · rw [hbar, hleave]; exact h.due

theorem spoiled_run (hcycle : 1 ≤ cycleSec) : ∀ (spans : List TimeSpan) {stop : Int} {g : GenState},
    Spoiled S cycleSec stop g → Ordered (continuous spans) → (∀ r ∈ continuous spans, stop ≤ r.1) →
    ∃ stop', Spoiled S cycleSec stop' (spans.foldl (GenState.span cycleSec) g)
  | [], stop, g, h, _, _ => ⟨stop, h⟩
  | it :: spans, stop, g, h, hord, hstop => by
    rw [List.foldl_cons]
    cases hit : it.isAuction with
    | true =>
      rw [continuous_cons_auction hit] at hord hstop
      obtain ⟨hbar, hleave, hslots⟩ := span_auction g hit
      exact spoiled_run hcycle spans (h.congr hbar hleave hslots) hord hstop
    | false =>
      rw [continuous_cons hit] at hord hstop
      have hnext := h.span hcycle rfl hit (hord.1 _ List.mem_cons_self) (hstop _ List.mem_cons_self)
      have htail := List.pairwise_cons.mp hord.2
      exact spoiled_run hcycle spans hnext
        ⟨fun r hr => hord.1 r (List.mem_cons_of_mem _ hr), htail.2⟩ htail.1

/-- An open bar that will have less than `cycleSec` seconds. Either the day goes on
long enough for it to end, or it is the last bar. -/
theorem pending_run (hS : Ordered S) (hcycle : 1 ≤ cycleSec) {w : Int} (hw : w ≠ cycleSec) :
    ∀ (spans : List TimeSpan) {D : List Interval} {stop : Int} {g : GenState},
    Pending S cycleSec w D (continuous spans) stop g →
    (g.leave ≤ total (continuous spans) →
      ∃ stop', Spoiled S cycleSec stop' (spans.foldl (GenState.span cycleSec) g)) ∧
    (total (continuous spans) < g.leave → continuous spans ≠ [] ∨ g.bar.eob = stop + g.leave →
      ∃ stop', Pending S cycleSec w S [] stop' (spans.foldl (GenState.span cycleSec) g) ∧
        (spans.foldl (GenState.span cycleSec) g).bar.eob =
          stop' + (spans.foldl (GenState.span cycleSec) g).leave ∧
        (spans.foldl (GenState.span cycleSec) g).bar.bob = g.bar.bob)
  | [], D, stop, g, h => by
    have hleave := h.leave
    have hsplit : S = D := by simpa [continuous] using h.made.split
    subst hsplit
    refine ⟨fun hle => ?_, fun _ heob => ⟨stop, h, ?_, rfl⟩⟩
    · simp [continuous] at hle
      omega
    · exact heob.resolve_left (by simp [continuous])
  | it :: spans, D, stop, g, h => by
    rw [List.foldl_cons]
    cases hit : it.isAuction with
    | true =>
      rw [continuous_cons_auction hit] at h ⊢
      obtain ⟨hbar, hleave, hslots⟩ := span_auction g hit
      have ih := pending_run hS hcycle hw spans (h.congr hbar hleave hslots)
      rw [hleave, hbar] at ih
      exact ih
    | false =>
      rw [continuous_cons hit] at h ⊢
      have hpos := hS.1 (it.bgnSec, it.endSec) (by simp [h.made.split])
      have hord : Ordered (continuous spans) := by
        have hS' := hS
        rw [h.made.split] at hS'
        exact ⟨fun r hr => hS'.1 r (by simp [hr]),
          (List.pairwise_cons.mp (List.pairwise_append.mp hS'.2).2.1).2⟩
      have hrest := total_nonneg hord.1
      rw [total_cons]
      by_cases hlt : it.endSec - it.bgnSec < g.leave
      · obtain ⟨hnext, hbob, heob, hleave⟩ := h.span_short hS rfl hit hlt
        have ih := pending_run hS hcycle hw spans hnext
        refine ⟨fun hle => ih.1 (by dsimp only at hleave hle; omega), fun hlt' _ => ?_⟩
        obtain ⟨stop', hp, he, hb⟩ := ih.2 (by dsimp only at hleave hlt'; omega) (Or.inr heob)
        exact ⟨stop', hp, he, hb.trans hbob⟩
      · have hspoil := h.span_long hS hcycle rfl hit (not_lt.mp hlt) hw
        refine ⟨fun _ => ?_, fun hlt' _ => by dsimp only at hlt'; omega⟩
        have hstop : ∀ r ∈ continuous spans, it.endSec ≤ r.1 := by
          have hS' := hS.2
          rw [h.made.split] at hS'
          exact (List.pairwise_cons.mp (List.pairwise_append.mp hS').2.1).1
        exact spoiled_run hcycle spans hspoil hord hstop

/-! ## Which periods end a bar -/

/-- `Fits`, for the periods `R` after `D`. -/
def FitsFrom (cycleSec : Int) (D R : List Interval) : Prop :=
  ∀ E s R', R = E ++ s :: R' → ¬cycleSec ∣ total (D ++ E) → cycleSec ∣ total (D ++ E ++ [s]) →
    0 < total R' ∧ total R' < cycleSec - total (D ++ E) % cycleSec

theorem fitsFrom_nil (D : List Interval) : FitsFrom cycleSec D [] := by
  intro E s R' h
  simp at h

theorem fitsFrom_cons : FitsFrom cycleSec D (s :: R) ↔
    (¬cycleSec ∣ total D → cycleSec ∣ total (D ++ [s]) →
      0 < total R ∧ total R < cycleSec - total D % cycleSec) ∧ FitsFrom cycleSec (D ++ [s]) R := by
  constructor
  · intro h
    refine ⟨fun hno hdvd => ?_, fun E t R' hR hno hdvd => ?_⟩
    · have := h [] s R rfl
      simp only [List.append_nil] at this
      exact this hno hdvd
    · subst hR
      have := h (s :: E) t R' rfl
      simp only [List.append_assoc, List.cons_append, List.nil_append] at this hno hdvd ⊢
      exact this hno hdvd
  · rintro ⟨hs, hR⟩ E t R' heq hno hdvd
    cases E with
    | nil =>
      simp only [List.nil_append, List.cons.injEq] at heq
      obtain ⟨rfl, rfl⟩ := heq
      simp only [List.append_nil] at hno hdvd ⊢
      exact hs hno hdvd
    | cons e E =>
      simp only [List.cons_append, List.cons.injEq] at heq
      obtain ⟨rfl, rfl⟩ := heq
      have := hR E t R' rfl
      simp only [List.append_assoc, List.cons_append, List.nil_append] at this hno hdvd ⊢
      exact this hno hdvd

/-- Less than a cycle after a multiple of it there is no other one. -/
theorem fitsFrom_of_short (hR : ∀ r ∈ R, r.1 < r.2) (hdvd : cycleSec ∣ total D)
    (hshort : total R < cycleSec) : FitsFrom cycleSec D R := by
  rintro E s R' rfl _ hdvd'
  exfalso
  have hs := hR s (by simp)
  have hE := total_nonneg fun r hr => hR r (List.mem_append_left _ hr)
  have hR' := total_nonneg fun r hr =>
    hR r (List.mem_append_right _ (List.mem_cons_of_mem s hr))
  simp only [total_append, total_cons, total_nil] at hdvd' hshort
  have hrest : cycleSec ∣ total E + (s.2 - s.1) := by
    rw [show total D + total E + (s.2 - s.1 + 0) = total D + (total E + (s.2 - s.1)) by omega] at hdvd'
    exact (Int.dvd_add_right hdvd).mp hdvd'
  have := Int.le_of_dvd (by omega) hrest
  omega

theorem Exact.dvd {stop : Int} {g : GenState} (h : Exact S cycleSec D R stop g) :
    cycleSec ∣ total D := ⟨_, (chain_mul h.chain h.full).trans (Int.zero_add _)⟩

theorem Stale.dvd {stop : Int} {g : GenState} (h : Stale S cycleSec D R stop g) :
    cycleSec ∣ total D := by
  have hdue := h.due
  have hmul := chain_mul h.chain h.full
  exact ⟨(slots g.vecBar).length, by omega⟩

/-- What an open bar lacks, by the clock. -/
theorem Inexact.mod {stop : Int} {g : GenState} (h : Inexact S cycleSec D R stop g) :
    ¬cycleSec ∣ total D ∧ g.leave = cycleSec - total D % cycleSec := by
  have hdue := h.due
  have hleave := h.leave
  have hbegun := h.begun
  have hmul := chain_mul h.chain h.full
  have hmod : total D % cycleSec = cycleSec - g.leave := by
    have htotal : total D = (cycleSec - g.leave) + cycleSec * (slots g.vecBar).length := by omega
    rw [htotal, Int.add_mul_emod_self_left]
    exact Int.emod_eq_of_lt (by omega) (by omega)
  refine ⟨fun hdvd => ?_, by omega⟩
  have := Int.emod_eq_zero_of_dvd hdvd
  omega

/-- With auctions only, nothing happens to the continuous bars. -/
theorem run_auctions : ∀ (spans : List TimeSpan) (g : GenState), continuous spans = [] →
    (spans.foldl (GenState.span cycleSec) g).bar = g.bar ∧
    (spans.foldl (GenState.span cycleSec) g).leave = g.leave ∧
    slots (spans.foldl (GenState.span cycleSec) g).vecBar = slots g.vecBar
  | [], _, _ => ⟨rfl, rfl, rfl⟩
  | it :: spans, g, h => by
    cases hit : it.isAuction with
    | true =>
      rw [continuous_cons_auction hit] at h
      obtain ⟨hbar, hleave, hslots⟩ := span_auction g hit
      obtain ⟨hbar', hleave', hslots'⟩ := run_auctions spans (g.span cycleSec it) h
      exact ⟨hbar'.trans hbar, hleave'.trans hleave, hslots'.trans hslots⟩
    | false =>
      rw [continuous_cons hit] at h
      cases h

/-- After a stale `leave` the rest of the day decides. -/
theorem Stale.run (hS : Ordered S) (hcycle : 1 ≤ cycleSec) {stop : Int} {spans : List TimeSpan}
    {g : GenState} (h : Stale S cycleSec D (continuous spans) stop g) (hD : D ≠ []) :
    Partition S cycleSec (slots (spans.foldl (GenState.span cycleSec) g).finish) ↔
      0 < total (continuous spans) ∧ total (continuous spans) < g.leave := by
  have hshort := h.short
  have hrun := pending_run hS hcycle (by omega) spans h.toPending
  have hrest : ∀ r ∈ continuous spans, r.1 < r.2 := fun r hr => hS.1 r (by simp [h.made.split, hr])
  have hnonneg := total_nonneg hrest
  constructor
  · intro hp
    by_contra hno
    by_cases hle : g.leave ≤ total (continuous spans)
    · obtain ⟨_, hspoil⟩ := hrun.1 hle
      exact hspoil.not_partition hS hp
    · -- no period is left
      have hnil : continuous spans = [] := by
        by_contra hne
        obtain ⟨r, R, heq⟩ := List.exists_cons_of_ne_nil hne
        have hr := hrest r (by rw [heq]; simp)
        have hR := total_nonneg fun t (ht : t ∈ R) => hrest t (by rw [heq]; simp [ht])
        rw [heq, total_cons] at hno hle
        omega
      obtain ⟨hbar, hleave, hslots⟩ := @run_auctions cycleSec spans g hnil
      obtain ⟨t, ht⟩ : ∃ t, D.getLast? = some t :=
        Option.ne_none_iff_exists'.mp fun hnone => hD (List.getLast?_eq_none_iff.mp hnone)
      have hsplit : D = S := by simpa [hnil] using h.made.split.symm
      subst hsplit
      rw [hnil] at h
      have hstale : Stale D cycleSec D [] stop (spans.foldl (GenState.span cycleSec) g) :=
        ⟨⟨by rw [hslots]; exact h.made, by rw [hleave]; exact h.leave,
          by rw [hslots, hbar]; exact h.chain, by rw [hslots]; exact h.full,
          by rw [hslots, hbar]; exact h.upto, by rw [hbar]; exact h.lower,
          by rw [hbar]; exact h.bob_le, by rw [hbar, hleave]; exact h.due⟩,
          by rw [hbar]; exact h.bob_eq, by rw [hbar]; exact h.eob, by rw [hleave]; exact h.short⟩
      exact hstale.not_partition ht hp
  · rintro ⟨hpos, hlt⟩
    have hne : continuous spans ≠ [] := by
      rintro heq
      rw [heq] at hpos
      simp at hpos
    obtain ⟨stop', hpend, heob, hbob⟩ := hrun.2 hlt (Or.inl hne)
    refine hpend.partition hS (by omega) heob ?_
    have hdue := h.due
    rw [hbob, h.made.split, total_append]
    rw [h.made.split] at hdue
    omega

/-- Periods from which every bar so far came out full. -/
theorem Next.run (hS : Ordered S) (hcycle : 1 ≤ cycleSec) : ∀ (spans : List TimeSpan)
    {D : List Interval} {stop : Int} {g : GenState},
    Next S cycleSec D (continuous spans) stop g →
    (Partition S cycleSec (slots (spans.foldl (GenState.span cycleSec) g).finish) ↔
      FitsFrom cycleSec D (continuous spans))
  | [], D, stop, g, h => by
    refine iff_of_true ?_ (fitsFrom_nil D)
    rcases h with h | h
    · have hsplit : D = S := by simpa [continuous] using h.made.split.symm
      subst hsplit
      exact h.partition hS hcycle
    · have hsplit : D = S := by simpa [continuous] using h.made.split.symm
      subst hsplit
      exact h.toPending.partition hS (le_refl _) h.eob h.begun
  | it :: spans, D, stop, g, h => by
    rw [List.foldl_cons]
    cases hit : it.isAuction with
    | true =>
      rw [continuous_cons_auction hit] at h ⊢
      obtain ⟨hbar, hleave, hslots⟩ := span_auction g hit
      refine Next.run hS hcycle spans (?_ : Next S cycleSec D (continuous spans) stop _)
      rcases h with h | h
      · exact Or.inl ⟨by rw [hslots]; exact h.made, hleave.trans h.leave,
          by rw [hslots]; exact h.chain, by rw [hslots]; exact h.full⟩
      · exact Or.inr ⟨h.toPending.congr hbar hleave hslots, by rw [hbar]; exact h.bob_lt,
          by rw [hbar, hleave]; exact h.eob, by rw [hbar]; exact h.begun⟩
    | false =>
      rw [continuous_cons hit] at h ⊢
      rw [fitsFrom_cons]
      rcases h with h | h
      · -- the bars before ended with the periods before
        rw [Next.run hS hcycle spans (h.span hS hcycle rfl hit)]
        exact ⟨fun hfits => ⟨fun hno => absurd h.dvd hno, hfits⟩, fun hfits => hfits.2⟩
      · obtain ⟨hno, hlack⟩ := h.mod
        rcases h.span hS hcycle rfl hit with hnext | ⟨hstale, hleave⟩
        · rw [Next.run hS hcycle spans (Or.inr hnext)]
          exact ⟨fun hfits => ⟨fun _ hdvd => absurd hdvd hnext.mod.1, hfits⟩, fun hfits => hfits.2⟩
        · -- this period leaves a stale `leave`
          rw [hstale.run hS hcycle (by simp), hleave, hlack]
          have hrest : ∀ r ∈ continuous spans, r.1 < r.2 := fun r hr =>
            hS.1 r (by simp [h.made.split, hr])
          have hshort := hstale.short
          rw [hleave, hlack] at hshort
          exact ⟨fun hfits => ⟨fun _ _ => hfits, fitsFrom_of_short hrest hstale.dvd (by omega)⟩,
            fun hfits => hfits.1 hno hstale.dvd⟩

end GenState

/-! ## The vector of a day -/

theorem slots_cons (b : Bar2) (v : List Bar2) : slots (b :: v) = slots [b] ++ slots v :=
  slots_append [b] v

/-- The last pass leaves the times alone. -/
theorem slots_adjust (vecCtts : List TimeSpan) (b : Bar2) (idx : Nat) :
    slots [adjust vecCtts b idx] = slots [b] := by
  unfold adjust
  dsimp only
  split
  · simp [slots, *]
  · split <;> simp [slots, *]

theorem slots_mapIdx (vecCtts : List TimeSpan) : ∀ (v : List Bar2) (n : Nat),
    slots (v.mapIdx fun i b => adjust vecCtts b (i + n)) = slots v
  | [], _ => rfl
  | b :: v, n => by
    have ih := slots_mapIdx vecCtts v (n + 1)
    rw [List.mapIdx_cons, slots_cons, slots_adjust, slots_cons b v]
    simp only [Nat.add_assoc, Nat.add_comm 1 n]
    rw [ih]

theorem WellFormed.ordered {spans : List TimeSpan} (h : WellFormed spans) :
    Ordered (continuous spans) := by
  refine ⟨fun r hr => ?_, ?_⟩
  · obtain ⟨it, hit, rfl⟩ := List.mem_map.mp hr
    exact h.1 it (List.mem_of_mem_filter hit)
  · rw [continuous, List.pairwise_map]
    exact h.2.filter _

/-- The intraday bars of any periods and any cycle: a partition of the trading time
if and only if no stale `leave` shows. -/
theorem partition_iff (info : InstrumentInfo) (exch : Exch) (cycleSec : Int) (spans : List TimeSpan)
    (hcycle : 1 ≤ cycleSec) (hwf : WellFormed spans) :
    Partition (continuous spans) cycleSec (slots (barsOf info exch cycleSec spans)) ↔
      Fits (continuous spans) cycleSec := by
  have hS := hwf.ordered
  obtain ⟨stop, hstop⟩ : ∃ stop, ∀ r ∈ continuous spans, stop ≤ r.1 := by
    cases hR : continuous spans with
    | nil => exact ⟨0, by simp⟩
    | cons s R =>
      rw [hR] at hS
      refine ⟨s.1, fun r hr => ?_⟩
      rcases List.mem_cons.mp hr with rfl | hr
      · exact le_refl _
      · have hlt := hS.1 s List.mem_cons_self
        have hle := (List.pairwise_cons.mp hS.2).1 r hr
        omega
  have hbars : slots (barsOf info exch cycleSec spans) =
      slots (spans.foldl (GenState.span cycleSec)
        { bar := { cycleSec := cycleSec, instrHash := info.instrHash, instr := info.instr },
          bar2 := { cycleSec := cycleSec, instrHash := info.instrHash, instr := info.instr } }).finish := by
    unfold barsOf
    dsimp only
    rw [if_neg (by simp only [dailyCycle]; omega), if_neg (by simp only [sessionCycle]; omega)]
    exact slots_mapIdx spans _ 0
  have hstart : ∀ bar : Bar2, GenState.Exact (continuous spans) cycleSec [] (continuous spans) stop
      { bar := bar, bar2 := bar } := fun bar =>
    ⟨⟨rfl, by simp, hstop, List.Pairwise.nil, by simp [slots], by simp [slots]⟩, rfl, rfl,
      by simp [slots]⟩
  rw [hbars]
  exact GenState.Next.run hS hcycle spans (Or.inl (hstart _))

/-- Bars of two hours on an index future. -/
theorem partition_iff_if :
    Partition (continuous (getTradingTimespan intraDayBaseSec "IF")) 7200
        (slots (barsOf (contract "IF1803" "IF") .cffex 7200 (getTradingTimespan intraDayBaseSec "IF"))) ↔
      Fits (continuous (getTradingTimespan intraDayBaseSec "IF")) 7200 :=
  partition_iff (contract "IF1803" "IF") .cffex 7200 (getTradingTimespan intraDayBaseSec "IF")
    (by decide) ⟨by decide +kernel, by decide +kernel⟩

/-- Corn, bars of 45 minutes. The first session ends in a bar that lacks 15 minutes;
the second gives it these and ends with a full bar; the bar after that has 15
minutes. -/
theorem corn_not_partition :
    ¬Partition (continuous (getTradingTimespan intraDayBaseSec "c")) 2700
      (slots (barsOf (contract "c1809" "c") .dce 2700 (getTradingTimespan intraDayBaseSec "c"))) := by
  intro h
  have hfull := h.full (63000, 71100) (by decide +kernel)
  revert hfull
  decide +kernel

end NatFramework.Bar
