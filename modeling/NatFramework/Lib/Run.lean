import Mathlib.Data.List.Basic

/-!
# Runs of a guarded step function

`Sys σ ε`: a deterministic `next`, a guard `ok` saying which events the
environment may deliver in a state, and the set of start states. `exec` runs a
list of events, `Admits` says that every guard on the way holds, `Reachable`
is the set of end states.

* `Sys.invariant_run`: what one admitted step preserves, an admitted run preserves.
* `Sys.invariant`: the same for every reachable state.
* `Sys.related_run`: what relates two states of a run, step by step.
* `Sys.forall_prefix_iff`: what holds in every state of a run, step by step.
* `AtEach`, `AtSome`: what holds of each event, of some event of a run and the
  events before it.
-/
namespace NatFramework.Lib

structure Sys (σ ε : Type) where
  start : σ → Prop
  ok : σ → ε → Prop
  next : σ → ε → σ

namespace Sys

variable {σ ε : Type} (S : Sys σ ε)

def exec (s : σ) (es : List ε) : σ := es.foldl S.next s

/-- Every event of the list is admitted in the state it meets. -/
def Admits : σ → List ε → Prop
  | _, [] => True
  | s, e :: es => S.ok s e ∧ Admits (S.next s e) es

instance admitsDecidable [∀ s e, Decidable (S.ok s e)] : ∀ (es : List ε) (s : σ),
    Decidable (S.Admits s es)
  | [], _ => isTrue trivial
  | e :: es, s =>
    have := admitsDecidable es (S.next s e)
    inferInstanceAs (Decidable (S.ok s e ∧ S.Admits (S.next s e) es))

def Reachable (s : σ) : Prop := ∃ s0 es, S.start s0 ∧ S.Admits s0 es ∧ S.exec s0 es = s

@[simp] theorem exec_nil (s : σ) : S.exec s [] = s := rfl

@[simp] theorem exec_cons (s : σ) (e : ε) (es : List ε) :
    S.exec s (e :: es) = S.exec (S.next s e) es := rfl

theorem exec_append (s : σ) (es fs : List ε) : S.exec s (es ++ fs) = S.exec (S.exec s es) fs :=
  List.foldl_append

theorem admits_append (s : σ) (es fs : List ε) :
    S.Admits s (es ++ fs) ↔ S.Admits s es ∧ S.Admits (S.exec s es) fs := by
  induction es generalizing s with
  | nil => simp [Admits]
  | cons e es ih => simp only [List.cons_append, Admits, exec_cons, ih, and_assoc]

theorem Reachable.next {S : Sys σ ε} {s : σ} {e : ε} (h : S.Reachable s) (he : S.ok s e) :
    S.Reachable (S.next s e) := by
  obtain ⟨s0, es, hstart, hadm, rfl⟩ := h
  exact ⟨s0, es ++ [e], hstart, (S.admits_append s0 es [e]).mpr ⟨hadm, he, trivial⟩,
    S.exec_append s0 es [e]⟩

/-- A guard that the state has no part in. -/
theorem admits_of_forall {es : List ε} (h : ∀ e ∈ es, ∀ s, S.ok s e) (s : σ) : S.Admits s es := by
  induction es generalizing s with
  | nil => trivial
  | cons e es ih =>
    exact ⟨h e List.mem_cons_self s, ih (fun f hf => h f (List.mem_cons_of_mem e hf)) _⟩

/-- What one admitted step preserves, an admitted run preserves. -/
theorem invariant_run {I : σ → Prop} (hstep : ∀ s e, I s → S.ok s e → I (S.next s e)) (s : σ)
    (es : List ε) (hs : I s) (ha : S.Admits s es) : I (S.exec s es) := by
  induction es generalizing s with
  | nil => exact hs
  | cons e es ih => exact ih (S.next s e) (hstep s e hs ha.1) ha.2

/-- What the start states have and one admitted step preserves, every
reachable state has. -/
theorem invariant {I : σ → Prop} (h0 : ∀ s, S.start s → I s)
    (hstep : ∀ s e, I s → S.ok s e → I (S.next s e)) {s : σ} (hs : S.Reachable s) : I s := by
  obtain ⟨s0, es, hstart, hadm, rfl⟩ := hs
  exact S.invariant_run hstep s0 es (h0 s0 hstart) hadm

end Sys

/-! ## Moments of a run -/

/-- `P` holds of every event of a run and the events before it. -/
def AtEach {ε : Type} (P : List ε → ε → Prop) (es : List ε) : Prop :=
  ∀ pre e post, es = pre ++ e :: post → P pre e

theorem atEach_nil {ε : Type} (P : List ε → ε → Prop) : AtEach P [] := fun pre e post h => by
  cases pre <;> cases h

theorem atEach_concat {ε : Type} {P : List ε → ε → Prop} {es : List ε} {e : ε} :
    AtEach P (es ++ [e]) ↔ AtEach P es ∧ P es e := by
  constructor
  · intro h
    refine ⟨?_, h es e [] rfl⟩
    rintro pre x post rfl
    exact h pre x (post ++ [e]) (by simp)
  · rintro ⟨h, he⟩ pre x post heq
    rcases List.eq_nil_or_concat post with rfl | ⟨post, y, rfl⟩
    · obtain ⟨rfl, hx⟩ := List.append_inj' heq rfl
      cases hx
      exact he
    · refine h pre x post ?_
      rw [List.concat_eq_append, ← List.cons_append, ← List.append_assoc] at heq
      exact (List.append_inj' heq rfl).1

theorem AtEach.of_append {ε : Type} {P : List ε → ε → Prop} {es fs : List ε}
    (h : AtEach P (es ++ fs)) : AtEach P es := by
  rintro pre e post rfl
  exact h pre e (post ++ fs) (by simp)

/-- What the invariant gives of one admitted step holds of each step of an
admitted run. -/
theorem Sys.atEach_run {σ ε : Type} (S : Sys σ ε) {I : σ → Prop} {P : σ → ε → Prop}
    (hstep : ∀ s e, I s → S.ok s e → I (S.next s e)) (hP : ∀ s e, I s → S.ok s e → P s e) (s : σ)
    (es : List ε) (hs : I s) (ha : S.Admits s es) : AtEach (fun pre e => P (S.exec s pre) e) es := by
  rintro pre e post rfl
  obtain ⟨hpre, he, -⟩ := (S.admits_append s pre (e :: post)).mp ha
  exact hP _ e (S.invariant_run hstep s pre hs hpre) he

/-- What an admitted step preserves that meets `P`, an admitted run preserves
whose steps all meet `P`. -/
theorem Sys.invariant_atEach {σ ε : Type} (S : Sys σ ε) {I : σ → Prop} {P : σ → ε → Prop}
    (hstep : ∀ s e, I s → S.ok s e → P s e → I (S.next s e)) (s : σ) (es : List ε) (hs : I s)
    (ha : S.Admits s es) (hp : AtEach (fun pre e => P (S.exec s pre) e) es) : I (S.exec s es) := by
  induction es generalizing s with
  | nil => exact hs
  | cons e es ih =>
    refine ih (S.next s e) (hstep s e hs ha.1 (hp [] e es rfl)) ha.2 ?_
    intro pre f post h
    exact hp (e :: pre) f post (by rw [h]; rfl)

/-- Where each step leads to a state related to the one before, any two states of a
run are, the later one to the earlier one. -/
theorem Sys.related_run {σ ε : Type} (S : Sys σ ε) {I : σ → Prop} {P : σ → ε → Prop} {R : σ → σ → Prop}
    (hrefl : ∀ s, R s s) (htrans : ∀ {s t u}, R s t → R t u → R s u)
    (hstep : ∀ s e, I s → S.ok s e → P s e → I (S.next s e) ∧ R s (S.next s e)) (s : σ) (es : List ε)
    (hs : I s) (ha : S.Admits s es) (hp : AtEach (fun pre e => P (S.exec s pre) e) es) :
    I (S.exec s es) ∧ ∀ pre post, es = pre ++ post → R (S.exec s pre) (S.exec s es) := by
  have hI : ∀ pre post, es = pre ++ post → I (S.exec s pre) := by
    rintro pre post rfl
    exact S.invariant_atEach (fun s e hs ho hP => (hstep s e hs ho hP).1) s pre hs
      ((S.admits_append s pre post).mp ha).1 hp.of_append
  refine ⟨hI es [] (List.append_nil es).symm, fun pre post heq => ?_⟩
  induction post generalizing pre with
  | nil =>
    rw [heq, List.append_nil]
    exact hrefl _
  | cons e post ih =>
    have hok : S.ok (S.exec s pre) e := ((S.admits_append s pre (e :: post)).mp (heq ▸ ha)).2.1
    have hlast := ih (pre ++ [e]) (by rw [heq, List.append_assoc]; rfl)
    rw [S.exec_append] at hlast
    exact htrans (hstep _ e (hI pre _ heq) hok (hp pre e post heq)).2 hlast

/-- Where what a step preserves is known exactly, so is what a run preserves. -/
theorem Sys.forall_prefix_iff {σ ε : Type} (S : Sys σ ε) {I : σ → Prop} {P : σ → ε → Prop}
    (hstep : ∀ s e, I s → S.ok s e → (I (S.next s e) ↔ P s e)) (s : σ) (es : List ε) (hs : I s)
    (ha : S.Admits s es) : (∀ pre post, es = pre ++ post → I (S.exec s pre)) ↔
      AtEach (fun pre e => P (S.exec s pre) e) es := by
  constructor
  · rintro h pre e post rfl
    obtain ⟨-, he, -⟩ := (S.admits_append s pre (e :: post)).mp ha
    have hnext := h (pre ++ [e]) post (by simp)
    rw [S.exec_append] at hnext
    exact (hstep _ e (h pre (e :: post) rfl) he).mp hnext
  · rintro h pre post rfl
    exact S.invariant_atEach (fun s e hI he hP => (hstep s e hI he).mpr hP) s pre hs
      ((S.admits_append s pre post).mp ha).1 h.of_append

/-- The same by positions, for runs that are given. -/
theorem atEach_iff_getElem {ε : Type} {P : List ε → ε → Prop} {es : List ε} :
    AtEach P es ↔ ∀ (i : Nat) (h : i < es.length), P (es.take i) es[i] := by
  constructor
  · intro h i hi
    refine h _ _ (es.drop (i + 1)) ?_
    rw [← List.drop_eq_getElem_cons hi, List.take_append_drop]
  · rintro h pre e post rfl
    have hat := h pre.length (by simp)
    simpa using hat

/-- `P` holds of some event of a run and the events before it. -/
def AtSome {ε : Type} (P : List ε → ε → Prop) (es : List ε) : Prop :=
  ∃ pre e post, es = pre ++ e :: post ∧ P pre e

theorem atSome_iff {ε : Type} {P : List ε → ε → Prop} {es : List ε} :
    AtSome P es ↔ ¬AtEach (fun pre e => ¬P pre e) es := by
  simp only [AtSome, AtEach]
  push Not
  rfl

theorem atSome_nil {ε : Type} {P : List ε → ε → Prop} : ¬AtSome P [] := by
  rw [atSome_iff, not_not]
  exact atEach_nil _

theorem atSome_concat {ε : Type} {P : List ε → ε → Prop} {es : List ε} {e : ε} :
    AtSome P (es ++ [e]) ↔ AtSome P es ∨ P es e := by
  rw [atSome_iff, atSome_iff, atEach_concat, not_and_or, not_not]

end NatFramework.Lib
