import Mathlib.Logic.Function.Basic

/-!
# A finite map kept in cells

Each key has a path of cells it may lie in. `HoldsMap path c m`: the cells `c` hold
the map `m`, every key in one cell of its own path.

* `HoldsMap.overwrite`, `HoldsMap.fill`, `HoldsMap.free`: the three writes to a cell and
  what they do to the map.
-/
namespace NatFramework.Lib

variable {ι κ V : Type}

structure HoldsMap (path : κ → List ι) (c : ι → Option (κ × V)) (m : κ → Option V) : Prop where
  on_path : ∀ {i k v}, c i = some (k, v) → i ∈ path k
  unique : ∀ {i j k v w}, c i = some (k, v) → c j = some (k, w) → i = j
  maps : ∀ k v, m k = some v ↔ ∃ i, c i = some (k, v)

namespace HoldsMap

variable {path : κ → List ι} {c : ι → Option (κ × V)} {m : κ → Option V} {i : ι} {k : κ} {v w : V}

theorem empty (path : κ → List ι) : HoldsMap path (fun _ => none) (fun _ => (none : Option V)) where
  on_path h := nomatch h
  unique h := nomatch h
  maps k v := by simp

/-- A key outside its path is not in the map. -/
theorem eq_none (h : HoldsMap path c m) (hp : ∀ i ∈ path k, ∀ v, c i ≠ some (k, v)) : m k = none := by
  cases hm : m k with
  | none => rfl
  | some v =>
    obtain ⟨i, hi⟩ := (h.maps k v).mp hm
    exact absurd hi (hp i (h.on_path hi) v)

variable [DecidableEq ι] [DecidableEq κ]

/-- A write of the key `k` to a cell that holds `k` or is free, with `k` in no
other. -/
theorem write (h : HoldsMap path c m) (hi : i ∈ path k)
    (hc : c i = none ∨ ∃ w, c i = some (k, w)) (hk : ∀ j w, c j = some (k, w) → j = i) (v : V) :
    HoldsMap path (Function.update c i (some (k, v))) (Function.update m k (some v)) where
  on_path {j k' v'} hj := by
    by_cases hji : j = i
    · subst hji
      rw [Function.update_self] at hj
      cases hj
      exact hi
    · rw [Function.update_of_ne hji] at hj
      exact h.on_path hj
  unique {j j' k' v' w'} hj hj' := by
    by_cases hji : j = i <;> by_cases hji' : j' = i
    · rw [hji, hji']
    · subst hji
      rw [Function.update_self] at hj
      rw [Function.update_of_ne hji'] at hj'
      cases hj
      exact (hk j' w' hj').symm
    · subst hji'
      rw [Function.update_self] at hj'
      rw [Function.update_of_ne hji] at hj
      cases hj'
      exact hk j v' hj
    · rw [Function.update_of_ne hji] at hj
      rw [Function.update_of_ne hji'] at hj'
      exact h.unique hj hj'
  maps k' v' := by
    by_cases hkk : k' = k
    · subst hkk
      rw [Function.update_self]
      constructor
      · intro he
        exact ⟨i, by rw [Function.update_self, ← Option.some.inj he]⟩
      · intro he
        obtain ⟨j, hj⟩ := he
        by_cases hji : j = i
        · subst hji
          rw [Function.update_self] at hj
          cases hj
          rfl
        · rw [Function.update_of_ne hji] at hj
          exact absurd (hk j v' hj) hji
    · rw [Function.update_of_ne hkk, h.maps]
      constructor
      · intro he
        obtain ⟨j, hj⟩ := he
        have hji : j ≠ i := by
          intro hji
          subst hji
          rcases hc with hc | ⟨w, hc⟩
          · rw [hc] at hj
            cases hj
          · rw [hc] at hj
            cases hj
            exact hkk rfl
        exact ⟨j, by rwa [Function.update_of_ne hji]⟩
      · intro he
        obtain ⟨j, hj⟩ := he
        by_cases hji : j = i
        · subst hji
          rw [Function.update_self] at hj
          cases hj
          exact absurd rfl hkk
        · rw [Function.update_of_ne hji] at hj
          exact ⟨j, hj⟩

theorem overwrite (h : HoldsMap path c m) (hc : c i = some (k, w)) (v : V) :
    HoldsMap path (Function.update c i (some (k, v))) (Function.update m k (some v)) :=
  h.write (h.on_path hc) (.inr ⟨w, hc⟩) (fun _ _ hj => h.unique hj hc) v

theorem fill (h : HoldsMap path c m) (hi : i ∈ path k) (hc : c i = none) (hk : m k = none) (v : V) :
    HoldsMap path (Function.update c i (some (k, v))) (Function.update m k (some v)) := by
  refine h.write hi (.inl hc) (fun j w hj => ?_) v
  rw [(h.maps k w).mpr ⟨j, hj⟩] at hk
  cases hk

theorem free (h : HoldsMap path c m) (hc : c i = some (k, w)) :
    HoldsMap path (Function.update c i none) (Function.update m k none) where
  on_path {j k' v'} hj := by
    by_cases hji : j = i
    · subst hji
      rw [Function.update_self] at hj
      cases hj
    · rw [Function.update_of_ne hji] at hj
      exact h.on_path hj
  unique {j j' k' v' w'} hj hj' := by
    have hne : ∀ {j k' v'}, Function.update c i none j = some (k', v') → j ≠ i := by
      intro j k' v' hj hji
      subst hji
      rw [Function.update_self] at hj
      cases hj
    rw [Function.update_of_ne (hne hj)] at hj
    rw [Function.update_of_ne (hne hj')] at hj'
    exact h.unique hj hj'
  maps k' v' := by
    have hfree : ∀ j, Function.update c i none j = some (k', v') ↔ j ≠ i ∧ c j = some (k', v') := by
      intro j
      by_cases hji : j = i
      · subst hji
        simp
      · rw [Function.update_of_ne hji]
        exact ⟨fun hj => ⟨hji, hj⟩, fun hj => hj.2⟩
    simp only [hfree]
    by_cases hkk : k' = k
    · subst hkk
      rw [Function.update_self]
      constructor
      · intro he
        cases he
      · intro he
        obtain ⟨j, hji, hj⟩ := he
        exact absurd (h.unique hj hc) hji
    · rw [Function.update_of_ne hkk, h.maps]
      constructor
      · intro he
        obtain ⟨j, hj⟩ := he
        refine ⟨j, fun hji => ?_, hj⟩
        subst hji
        rw [hc] at hj
        cases hj
        exact hkk rfl
      · intro he
        obtain ⟨j, _, hj⟩ := he
        exact ⟨j, hj⟩

end HoldsMap

end NatFramework.Lib
