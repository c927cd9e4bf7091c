import Mathlib.Data.List.Count
import Mathlib.Logic.Function.Basic

/-!
# Counted handles

A table that has one handle for each key in use, and a count of who uses it. `acquire`
opens the key when nobody has, `release` closes it behind the last.

* `Holds`: the counts are those of the list of users, and what is open is in the table.
* `Holds.acquire`, `Holds.release`: one user more, one user fewer, and what somebody
  uses stays open.
-/
namespace NatFramework.Lib

/-- `opened` is what the system has open for the table. -/
structure Shared (K : Type) where
  cells : K → Option (Nat × Nat) := fun _ => none
  opened : Nat → Option K := fun _ => none

namespace Shared

variable {K : Type} [DecidableEq K]

/-- `fresh` is what opening `k` gives, if it comes to that. -/
def acquire (c : Shared K) (k : K) (fresh : Option Nat) : Shared K × Option Nat :=
  match c.cells k with
  | some (n, h) => ({ c with cells := Function.update c.cells k (some (n + 1, h)) }, some h)
  | none =>
    match fresh with
    | some h =>
      ({ cells := Function.update c.cells k (some (1, h)), opened := Function.update c.opened h (some k) }, some h)
    | none => (c, none)

def release (c : Shared K) (k : K) : Shared K :=
  match c.cells k with
  | some (n, h) =>
    if 1 < n then { c with cells := Function.update c.cells k (some (n - 1, h)) }
    else { cells := Function.update c.cells k none, opened := Function.update c.opened h none }
  | none => c

/-- The users are `us`, each with its key. -/
structure Holds (c : Shared K) (us : List K) : Prop where
  used : ∀ k ∈ us, ∃ h, c.cells k = some (us.count k, h) ∧ c.opened h = some k
  unused : ∀ k, k ∉ us → c.cells k = none
  opened : ∀ h k, c.opened h = some k → ∃ n, c.cells k = some (n, h)

variable {c : Shared K} {us us' : List K} {k : K} {fresh : Option Nat} {n h : Nat}

theorem holds_empty : Holds ({} : Shared K) [] where
  used k hk := by cases hk
  unused k _ := rfl
  opened h k hk := by cases hk

theorem Holds.perm (hc : c.Holds us) (hp : us.Perm us') : c.Holds us' where
  used k hk := by
    rw [← hp.count_eq]
    exact hc.used k (hp.mem_iff.mpr hk)
  unused k hk := hc.unused k fun hk' => hk (hp.mem_iff.mp hk')
  opened := hc.opened

theorem acquire_open (hcell : c.cells k = some (n, h)) :
    c.acquire k fresh = ({ c with cells := Function.update c.cells k (some (n + 1, h)) }, some h) := by
  simp [Shared.acquire, hcell]

theorem acquire_new (hcell : c.cells k = none) :
    c.acquire k (some h) =
      ({ cells := Function.update c.cells k (some (1, h)), opened := Function.update c.opened h (some k) },
        some h) := by
  rw [Shared.acquire, hcell]

theorem Holds.acquire_used (hc : c.Holds us) (hk : k ∈ us) :
    ∃ h, c.opened h = some k ∧ (c.acquire k fresh).2 = some h ∧ (c.acquire k fresh).1.Holds (k :: us) ∧
      (c.acquire k fresh).1.opened = c.opened := by
  obtain ⟨h, hcell, hopened⟩ := hc.used k hk
  rw [acquire_open hcell]
  refine ⟨h, hopened, rfl, ⟨fun k' hk' => ?_, fun k' hk' => ?_, fun h' k' ho => ?_⟩, rfl⟩
  · rcases eq_or_ne k' k with rfl | hne
    · exact ⟨h, by simp, hopened⟩
    · obtain ⟨h', hcell', ho⟩ := hc.used k' (List.mem_of_ne_of_mem hne hk')
      exact ⟨h', by simp [hne, hne.symm, hcell'], ho⟩
  · obtain ⟨hne, hk'⟩ : k' ≠ k ∧ k' ∉ us := by simpa using hk'
    simp [hne, hc.unused k' hk']
  · obtain ⟨n', hcell'⟩ := hc.opened h' k' ho
    rcases eq_or_ne k' k with rfl | hne
    · rw [hcell] at hcell'
      obtain ⟨-, rfl⟩ := Prod.mk.inj (Option.some.inj hcell')
      exact ⟨_, Function.update_self _ _ _⟩
    · exact ⟨n', by simp [hne, hcell']⟩

theorem Holds.acquire_unused (hc : c.Holds us) (hk : k ∉ us) (hfree : c.opened h = none) :
    (c.acquire k (some h)).2 = some h ∧ (c.acquire k (some h)).1.Holds (k :: us) ∧
      (c.acquire k (some h)).1.opened = Function.update c.opened h (some k) := by
  rw [acquire_new (hc.unused k hk)]
  have hne_open : ∀ {h' k'}, c.opened h' = some k' → h' ≠ h := by
    rintro h' k' ho rfl
    rw [hfree] at ho
    cases ho
  refine ⟨rfl, ⟨fun k' hk' => ?_, fun k' hk' => ?_, fun h' k' ho => ?_⟩, rfl⟩
  · rcases eq_or_ne k' k with rfl | hne
    · exact ⟨h, by simp [List.count_eq_zero_of_not_mem hk], by simp⟩
    · obtain ⟨h', hcell', ho⟩ := hc.used k' (List.mem_of_ne_of_mem hne hk')
      exact ⟨h', by simp [hne, hne.symm, hcell'], by simp [hne_open ho, ho]⟩
  · obtain ⟨hne, hk'⟩ : k' ≠ k ∧ k' ∉ us := by simpa using hk'
    simp [hne, hc.unused k' hk']
  · rcases eq_or_ne h' h with rfl | hne
    · obtain rfl : k = k' := by simpa using ho
      exact ⟨1, by simp⟩
    · simp only [Function.update_of_ne hne] at ho
      obtain ⟨n', hcell'⟩ := hc.opened h' k' ho
      have hne' : k' ≠ k := by
        rintro rfl
        rw [hc.unused k' hk] at hcell'
        cases hcell'
      exact ⟨n', by simp [hne', hcell']⟩

/-- One user more: its handle is the one of its key, and the others keep theirs. -/
theorem Holds.acquire (hc : c.Holds us) (hfresh : ∀ h, fresh = some h → c.opened h = none)
    (hsome : (c.acquire k fresh).2 = some h) :
    (c.acquire k fresh).1.Holds (k :: us) ∧ (c.acquire k fresh).1.opened h = some k ∧
      ∀ h' k', c.opened h' = some k' → (c.acquire k fresh).1.opened h' = some k' := by
  by_cases hk : k ∈ us
  · obtain ⟨h₁, ho, hres, hholds, hsame⟩ :
        ∃ h₁, c.opened h₁ = some k ∧ (c.acquire k fresh).2 = some h₁ ∧ _ := hc.acquire_used hk
    obtain rfl : h₁ = h := Option.some.inj (hres.symm.trans hsome)
    rw [hsame]
    exact ⟨hholds, ho, fun _ _ => id⟩
  · cases fresh with
    | none =>
      rw [Shared.acquire, hc.unused k hk] at hsome
      cases hsome
    | some h₁ =>
      have hfree := hfresh h₁ rfl
      obtain ⟨hres, hholds, hopened⟩ := hc.acquire_unused hk hfree
      obtain rfl : h₁ = h := Option.some.inj (hres.symm.trans hsome)
      rw [hopened]
      refine ⟨hholds, Function.update_self _ _ _, fun h' k' ho => ?_⟩
      rw [Function.update_of_ne, ho]
      rintro rfl
      rw [hfree] at ho
      cases ho

/-- One user fewer: what somebody still uses stays open. -/
theorem Holds.release (hc : c.Holds (k :: us)) :
    (c.release k).Holds us ∧ ∀ h' k', c.opened h' = some k' → k' ∈ us → (c.release k).opened h' = some k' := by
  obtain ⟨h, hcell, hopened⟩ := hc.used k List.mem_cons_self
  rw [List.count_cons_self] at hcell
  have hothers : ∀ {k' h'}, k' ≠ k → c.cells k' = some ((k :: us).count k', h') →
      c.cells k' = some (us.count k', h') := by
    intro k' h' hne hcell'
    rw [hcell', List.count_cons_of_ne hne.symm]
  rw [Shared.release, hcell]
  dsimp only
  split
  · rename_i hmany
    have hk : k ∈ us := List.count_pos_iff.mp (by omega)
    refine ⟨⟨fun k' hk' => ?_, fun k' hk' => ?_, fun h' k' ho => ?_⟩, fun h' k' ho _ => ho⟩
    · rcases eq_or_ne k' k with rfl | hne
      · exact ⟨h, by simp, hopened⟩
      · obtain ⟨h', hcell', ho⟩ := hc.used k' (List.mem_cons_of_mem k hk')
        exact ⟨h', by simp [hne, hothers hne hcell'], ho⟩
    · have hne : k' ≠ k := fun heq => hk' (heq ▸ hk)
      simp [hne, hc.unused k' (by simp [hne, hk'])]
    · obtain ⟨n', hcell'⟩ := hc.opened h' k' ho
      rcases eq_or_ne k' k with rfl | hne
      · rw [hcell] at hcell'
        obtain ⟨-, rfl⟩ := Prod.mk.inj (Option.some.inj hcell')
        exact ⟨_, Function.update_self _ _ _⟩
      · exact ⟨n', by simp [hne, hcell']⟩
  · rename_i hlast
    have hk : k ∉ us := List.count_eq_zero.mp (by omega)
    have hne_open : ∀ {h' k'}, c.opened h' = some k' → k' ≠ k → h' ≠ h := by
      rintro h' k' ho hne rfl
      rw [hopened] at ho
      exact hne (Option.some.inj ho).symm
    have hne_us : ∀ {k'}, k' ∈ us → k' ≠ k := fun hk' heq => hk (heq ▸ hk')
    refine ⟨⟨fun k' hk' => ?_, fun k' hk' => ?_, fun h' k' ho => ?_⟩, fun h' k' ho hk' => ?_⟩
    · have hne := hne_us hk'
      obtain ⟨h', hcell', ho⟩ := hc.used k' (List.mem_cons_of_mem k hk')
      exact ⟨h', by simp [hne, hothers hne hcell'], by simp [hne_open ho hne, ho]⟩
    · rcases eq_or_ne k' k with rfl | hne
      · simp
      · simp [hne, hc.unused k' (by simp [hne, hk'])]
    · rcases eq_or_ne h' h with rfl | hne
      · simp at ho
      · simp only [Function.update_of_ne hne] at ho
        obtain ⟨n', hcell'⟩ := hc.opened h' k' ho
        have hne' : k' ≠ k := by
          rintro rfl
          rw [hcell] at hcell'
          exact hne (Prod.mk.inj (Option.some.inj hcell')).2.symm
        exact ⟨n', by simp [hne', hcell']⟩
    · simp [hne_open ho (hne_us hk'), ho]

end Shared

end NatFramework.Lib
