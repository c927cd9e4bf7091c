import Mathlib.Data.List.Basic

/-!
# Readers that can be resumed

A reader asks for some bytes of a stream and is given one or more of them, as
many as it asked for at most. Where a piece that is not all it asked for changes
nothing but how much is missing, it does not matter how the stream is cut.

* `Resumable`: a reader with this law.
* `bytewise`: the stream byte by byte; `Reaches`: where a cut stream has come to
  on the way.
* `Reaches.unique`: all cuts that are read to the end come to the same.
-/
namespace NatFramework.Lib

variable {α σ ε : Type}

/-- `want` is how much is asked for, 0 of a reader that has stopped; `step` is what
a piece leads to. -/
structure Resumable (α σ ε : Type) where
  want : σ → Nat
  step : List α → σ → σ × List ε
  /-- what holds between the pieces -/
  Good : σ → Prop
  good : ∀ {s a}, Good s → a ≠ [] → a.length ≤ want s → Good (step a s).1
  /-- a piece with more to come -/
  part : ∀ {s a b}, Good s → a ≠ [] → b ≠ [] → a.length + b.length ≤ want s →
    (step a s).2 = [] ∧ b.length ≤ want (step a s).1 ∧ step b (step a s).1 = step (a ++ b) s

namespace Resumable

variable (M : Resumable α σ ε)

/-- The reader at the end, what it has done, and what it has not read. -/
def bytewise : List α → σ → σ × List ε × List α
  | [], s => (s, [], [])
  | b :: bs, s =>
    if M.want s = 0 then (s, [], b :: bs)
    else
      let rest := bytewise bs (M.step [b] s).1
      (rest.1, (M.step [b] s).2 ++ rest.2.1, rest.2.2)

/-- With what is left from there on it comes to what it comes to from the start. -/
def Reaches (bs : List α) (s : σ) (out : σ × List ε × List α) : Prop :=
  M.Good out.1 ∧
    M.bytewise bs s = ((M.bytewise out.2.2 out.1).1, out.2.1 ++ (M.bytewise out.2.2 out.1).2.1,
      (M.bytewise out.2.2 out.1).2.2)

/-- Nothing is left, or nothing is asked for. -/
def Done (out : σ × List ε × List α) : Prop := out.2.2 = [] ∨ M.want out.1 = 0

variable {M} {s : σ} {bs : List α} {out out' : σ × List ε × List α}

theorem reaches_refl (h : M.Good s) (bs : List α) : M.Reaches bs s (s, [], bs) := ⟨h, rfl⟩

theorem Reaches.trans (h : M.Reaches bs s out) (h' : M.Reaches out.2.2 out.1 out') :
    M.Reaches bs s (out'.1, out.2.1 ++ out'.2.1, out'.2.2) := by
  refine ⟨h'.1, ?_⟩
  rw [h.2, h'.2]
  simp only [List.append_assoc]

/-- A piece is what its bytes are. -/
theorem reaches_step (h : M.Good s) {a : List α} (ha : a ≠ []) (hle : a.length ≤ M.want s) (bs : List α) :
    M.Reaches (a ++ bs) s ((M.step a s).1, (M.step a s).2, bs) := by
  refine ⟨M.good h ha hle, ?_⟩
  induction a generalizing s with
  | nil => exact absurd rfl ha
  | cons b a ih =>
    have hwant : ¬M.want s = 0 := by
      rw [List.length_cons] at hle
      omega
    rw [List.cons_append, bytewise, if_neg hwant]
    by_cases hnil : a = []
    · subst hnil
      rfl
    · have hone : [b].length + a.length ≤ M.want s := by
        rw [List.length_cons] at hle
        simpa [Nat.add_comm] using hle
      obtain ⟨h1, h2, h3⟩ := M.part h (List.cons_ne_nil b []) hnil hone
      have hgood := M.good h (List.cons_ne_nil b []) (Nat.le_trans (Nat.le_add_right _ _) hone)
      rw [ih hgood hnil h2, h1, h3]
      rfl

/-- A piece at the start of what is left. -/
theorem reaches_read (h : M.Good s) {a bs : List α} (ha : a ≠ []) (hle : a.length ≤ M.want s)
    (hpre : a <+: bs) : M.Reaches bs s ((M.step a s).1, (M.step a s).2, bs.drop a.length) := by
  have hstep := reaches_step h ha hle (bs.drop a.length)
  rwa [List.prefix_iff_eq_append.mp hpre] at hstep

theorem bytewise_done (h : M.Done out) : M.bytewise out.2.2 out.1 = (out.1, [], out.2.2) := by
  obtain ⟨s, es, bs⟩ := out
  cases bs with
  | nil => rfl
  | cons b bs =>
    obtain hnil | hwant := h
    · cases hnil
    · exact if_pos hwant

theorem Reaches.of_done (h : M.Reaches bs s out) (hd : M.Done out) : M.bytewise bs s = out := by
  rw [h.2, bytewise_done hd, List.append_nil]

/-- What has been done on the way is the start of what is done in the end. -/
theorem Reaches.prefix_of_done (h : M.Reaches bs s out) (h' : M.Reaches bs s out') (hd : M.Done out') :
    out.2.1 <+: out'.2.1 := by
  rw [← h'.of_done hd, h.2]
  exact List.prefix_append _ _

/-- However the stream is cut. -/
theorem Reaches.unique (h : M.Reaches bs s out) (h' : M.Reaches bs s out') (hd : M.Done out)
    (hd' : M.Done out') : out = out' :=
  (h.of_done hd).symm.trans (h'.of_done hd')

end Resumable

end NatFramework.Lib
