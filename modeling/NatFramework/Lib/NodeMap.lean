import Mathlib.Data.Finmap
import Mathlib.Data.List.AList
import Mathlib.Algebra.BigOperators.Group.List.Basic
import Mathlib.Algebra.Order.BigOperators.Group.List
import Mathlib.Algebra.Group.Hom.Defs
import Mathlib.Algebra.Group.Basic
import Mathlib.Tactic.Abel

/-!
# Hash maps whose nodes have addresses

`UMap κ ν` is a finite map (an association list without repeated keys);
`UMap.total f` sums `f` over its entries, `UMap.sweep g` rewrites or drops
every entry.

`NodeMap κ ν` adds what a node-based hash map gives its clients besides the
contents: an element keeps its address until it is erased. An address is a
`Ptr`: the key and the generation of the node under it; erasing a key ends its
generation, so that `deref` of a pointer taken before the erasure fails even
when the key has been inserted again.

* `total_insert_new`, `total_insert_old`, `total_sweep`: what the three writes
  do to a sum.
* `total_eq_of_lookup`: a sum depends on the contents only.
* `total_nonneg_eq_zero`: a zero sum of non-negative terms has zero terms.
-/
namespace NatFramework.Lib

abbrev UMap (κ ν : Type) [DecidableEq κ] := AList (fun _ : κ => ν)

namespace UMap

variable {κ ν M : Type} [DecidableEq κ]

theorem lookup_insert_ite (m : UMap κ ν) (k k' : κ) (v : ν) :
    (m.insert k v).lookup k' = if k' = k then some v else m.lookup k' := by
  by_cases h : k' = k
  · subst h; simp
  · rw [if_neg h, AList.lookup_insert_ne h]

theorem mem_keys_of_lookup {m : UMap κ ν} {k : κ} {v : ν} (h : m.lookup k = some v) :
    k ∈ m.keys :=
  AList.lookup_isSome.mp (by rw [h]; rfl)

/-- Rewrites (`some`) or drops (`none`) every entry. -/
def sweep (g : κ → ν → Option ν) (m : UMap κ ν) : UMap κ ν where
  entries := m.entries.filterMap fun e => (g e.1 e.2).map fun v => ⟨e.1, v⟩
  nodupKeys := by
    have h := m.nodupKeys
    rw [List.nodupKeys_iff_pairwise] at h ⊢
    rw [List.pairwise_filterMap]
    refine h.imp ?_
    intro a b hab x hx y hy
    simp only [Option.map_eq_some_iff] at hx hy
    obtain ⟨_, _, rfl⟩ := hx
    obtain ⟨_, _, rfl⟩ := hy
    exact hab

theorem mem_sweep {g : κ → ν → Option ν} {m : UMap κ ν} {k : κ} {v : ν} :
    (sweep g m).lookup k = some v ↔ ∃ w, m.lookup k = some w ∧ g k w = some v := by
  have hl : ∀ (t : UMap κ ν) (x : ν), t.lookup k = some x ↔ (⟨k, x⟩ : Sigma fun _ : κ => ν) ∈ t.entries :=
    fun t x => AList.mem_lookup_iff
  simp only [hl, sweep, List.mem_filterMap, Option.map_eq_some_iff]
  constructor
  · rintro ⟨⟨k', w⟩, hm, x, hg, he⟩
    simp only [Sigma.mk.injEq] at he
    obtain ⟨rfl, he⟩ := he
    exact ⟨w, hm, by rw [← eq_of_heq he]; exact hg⟩
  · rintro ⟨w, hm, hg⟩
    exact ⟨⟨k, w⟩, hm, v, hg, rfl⟩

theorem lookup_sweep (g : κ → ν → Option ν) (m : UMap κ ν) (k : κ) :
    (sweep g m).lookup k = (m.lookup k).bind (g k) := by
  apply Option.ext
  intro v
  rw [mem_sweep, Option.bind_eq_some_iff]

/-! ## Sums over the entries -/

section Total

variable [AddCommMonoid M]

def total (f : κ → ν → M) (m : UMap κ ν) : M := (m.entries.map fun e => f e.1 e.2).sum

@[simp] theorem total_empty (f : κ → ν → M) : total f (∅ : UMap κ ν) = 0 := rfl

theorem total_insert (f : κ → ν → M) (m : UMap κ ν) (k : κ) (v : ν) :
    total f (m.insert k v) = f k v + total f (m.erase k) := by
  simp [total, AList.entries_insert, AList.erase]

theorem total_erase {f : κ → ν → M} {m : UMap κ ν} {k : κ} {w : ν} (h : m.lookup k = some w) :
    total f m = f k w + total f (m.erase k) := by
  have hm : k ∈ m.entries.keys := AList.lookup_isSome.mp (by rw [h]; rfl)
  obtain ⟨b, l1, l2, -, hl, hk⟩ := List.exists_of_kerase hm
  have hb : b = w := by
    have hmem : (⟨k, b⟩ : Sigma fun _ : κ => ν) ∈ m.entries := by rw [hl]; simp
    have : m.lookup k = some b := AList.mem_lookup_iff.mpr hmem
    rw [h] at this; simpa using this.symm
  subst hb
  simp only [total, AList.erase, hk]
  rw [hl]
  simp only [List.map_append, List.map_cons, List.sum_append, List.sum_cons]
  rw [add_left_comm]

theorem total_insert_new {f : κ → ν → M} {m : UMap κ ν} {k : κ} (v : ν) (h : m.lookup k = none) :
    total f (m.insert k v) = f k v + total f m := by
  rw [total_insert]
  have hk : k ∉ m.entries.keys := AList.lookup_eq_none.mp h
  simp only [total, AList.erase, List.kerase_of_notMem_keys hk]

theorem total_sweep (f : κ → ν → M) (g : κ → ν → Option ν) (m : UMap κ ν) :
    total f (sweep g m) = total (fun k v => (g k v).elim 0 (f k)) m := by
  simp only [total, sweep]
  induction m.entries with
  | nil => rfl
  | cons e l ih =>
    rw [List.filterMap_cons]
    cases h : g e.1 e.2 <;> simp [h, ih]

theorem total_congr {f g : κ → ν → M} {m : UMap κ ν}
    (h : ∀ k v, m.lookup k = some v → f k v = g k v) : total f m = total g m := by
  unfold total
  congr 1
  apply List.map_congr_left
  rintro ⟨k, v⟩ he
  exact h k v (AList.mem_lookup_iff.mpr he)

/-- A sum depends only on the contents of the map. -/
theorem total_eq_of_lookup (f : κ → ν → M) {m m' : UMap κ ν}
    (h : ∀ k, m.lookup k = m'.lookup k) : total f m = total f m' := by
  have hp : m.entries.Perm m'.entries := by
    apply List.lookup_ext m.nodupKeys m'.nodupKeys
    intro k v
    exact Eq.to_iff (congrArg (fun o => v ∈ o) (h k))
  exact (hp.map _).sum_eq

/-- A sum that reads a part of the elements depends on that part only. -/
theorem total_eq_of_part {f : κ → ν → M} (c : ν → ν) (hf : ∀ k v, f k (c v) = f k v) {m m' : UMap κ ν}
    (h : ∀ k, (m.lookup k).map c = (m'.lookup k).map c) : total f m = total f m' := by
  have hs : ∀ m : UMap κ ν, total f (sweep (fun _ v => some (c v)) m) = total f m := by
    intro m
    rw [total_sweep]
    simp only [Option.elim_some, hf]
  rw [← hs m, ← hs m']
  refine total_eq_of_lookup f fun k => ?_
  rw [lookup_sweep, lookup_sweep]
  have := h k
  simp only [Option.map_eq_bind, Function.comp_def] at this
  exact this

theorem total_zero {f : κ → ν → M} {m : UMap κ ν} (h : ∀ k v, m.lookup k = some v → f k v = 0) :
    total f m = 0 := by
  rw [total_congr (g := fun _ _ => 0) h]
  simp [total]

theorem map_total {N : Type} [AddCommMonoid N] (φ : M →+ N) (f : κ → ν → M) (m : UMap κ ν) :
    φ (total f m) = total (fun k v => φ (f k v)) m := by
  simp only [total, map_list_sum, List.map_map]; rfl

end Total

theorem total_insert_old [AddCommGroup M] {f : κ → ν → M} {m : UMap κ ν} {k : κ} {w : ν} (v : ν)
    (h : m.lookup k = some w) : total f (m.insert k v) = total f m + (f k v - f k w) := by
  rw [total_insert, total_erase h]; abel

section Order

variable [AddCommMonoid M] [PartialOrder M] [IsOrderedAddMonoid M]

theorem total_nonneg {f : κ → ν → M} {m : UMap κ ν}
    (hf : ∀ k v, m.lookup k = some v → 0 ≤ f k v) : 0 ≤ total f m := by
  apply List.sum_nonneg
  intro x hx
  obtain ⟨⟨k, v⟩, he, rfl⟩ := List.mem_map.mp hx
  exact hf k v (AList.mem_lookup_iff.mpr he)

theorem total_nonneg_eq_zero {f : κ → ν → M} {m : UMap κ ν}
    (hf : ∀ k v, m.lookup k = some v → 0 ≤ f k v) (h0 : total f m = 0) {k : κ} {v : ν}
    (hk : m.lookup k = some v) : f k v = 0 := by
  have hpos : ∀ x ∈ m.entries.map (fun e => f e.1 e.2), 0 ≤ x := by
    intro x hx
    obtain ⟨⟨k', v'⟩, he, rfl⟩ := List.mem_map.mp hx
    exact hf k' v' (AList.mem_lookup_iff.mpr he)
  exact List.all_zero_of_le_zero_le_of_sum_eq_zero hpos h0
    (List.mem_map.mpr ⟨⟨k, v⟩, AList.mem_lookup_iff.mp hk, rfl⟩)

/-- An element is part of the sum of elements none of which is negative. -/
theorem le_total {f : κ → ν → M} {m : UMap κ ν}
    (hf : ∀ k v, m.lookup k = some v → 0 ≤ f k v) {k : κ} {v : ν} (hk : m.lookup k = some v) :
    f k v ≤ total f m := by
  apply List.single_le_sum
  · intro x hx
    obtain ⟨⟨k', v'⟩, he, rfl⟩ := List.mem_map.mp hx
    exact hf k' v' (AList.mem_lookup_iff.mpr he)
  · exact List.mem_map.mpr ⟨⟨k, v⟩, AList.mem_lookup_iff.mp hk, rfl⟩

end Order

end UMap

/-! ## Nodes with addresses -/

/-- The address of a map element: its key and the generation of its node. -/
structure Ptr (κ : Type) where
  key : κ
  gen : Nat
  deriving DecidableEq, Repr

structure NodeMap (κ ν : Type) [DecidableEq κ] where
  nodes : UMap κ ν := ∅
  gen : κ → Nat := fun _ => 0

namespace NodeMap

variable {κ ν : Type} [DecidableEq κ]

def find (m : NodeMap κ ν) (k : κ) : Option ν := m.nodes.lookup k

/-- `&m[k]` for a key that is in the map. -/
def addr (m : NodeMap κ ν) (k : κ) : Ptr κ := ⟨k, m.gen k⟩

/-- The element a pointer designates; `none` once it has been erased. -/
def deref (m : NodeMap κ ν) (p : Ptr κ) : Option ν :=
  if p.gen = m.gen p.key then m.find p.key else none

/-- Writes the element under `k`, making a node if there is none. -/
def set (m : NodeMap κ ν) (k : κ) (v : ν) : NodeMap κ ν := { m with nodes := m.nodes.insert k v }

/-- Rewrites (`some`) or erases (`none`) every element. -/
def sweep (g : κ → ν → Option ν) (m : NodeMap κ ν) : NodeMap κ ν where
  nodes := m.nodes.sweep g
  gen := fun k => if (m.find k).any fun v => (g k v).isNone then m.gen k + 1 else m.gen k

@[simp] theorem find_set (m : NodeMap κ ν) (k k' : κ) (v : ν) :
    (m.set k v).find k' = if k' = k then some v else m.find k' :=
  UMap.lookup_insert_ite m.nodes k k' v

@[simp] theorem gen_set (m : NodeMap κ ν) (k : κ) (v : ν) : (m.set k v).gen = m.gen := rfl

@[simp] theorem addr_set (m : NodeMap κ ν) (k k' : κ) (v : ν) : (m.set k v).addr k' = m.addr k' := rfl

@[simp] theorem deref_addr (m : NodeMap κ ν) (k : κ) : m.deref (m.addr k) = m.find k := by
  simp [deref, addr]

/-- Pointers see the same part of two maps with the same part under every key. -/
theorem map_deref_congr {α : Type} {m m' : NodeMap κ ν} {f : ν → α} (hg : m.gen = m'.gen)
    (hf : ∀ k, (m.find k).map f = (m'.find k).map f) (p : Ptr κ) :
    (m.deref p).map f = (m'.deref p).map f := by
  unfold deref
  rw [hg]
  split
  · exact hf p.key
  · rfl

@[simp] theorem find_sweep (g : κ → ν → Option ν) (m : NodeMap κ ν) (k : κ) :
    (m.sweep g).find k = (m.find k).bind (g k) :=
  UMap.lookup_sweep g m.nodes k

/-- A pointer that still designates an element carries the current address. -/
theorem eq_addr_of_deref {m : NodeMap κ ν} {p : Ptr κ} {v : ν} (h : m.deref p = some v) :
    p = m.addr p.key ∧ m.find p.key = some v := by
  unfold deref at h
  split at h
  · rename_i hg
    exact ⟨by cases p; simp_all [addr], h⟩
  · cases h

/-- An address survives a sweep exactly when its element does. -/
theorem addr_sweep_kept {g : κ → ν → Option ν} {m : NodeMap κ ν} {k : κ} {v w : ν}
    (hv : m.find k = some v) (hw : g k v = some w) : (m.sweep g).addr k = m.addr k := by
  simp [addr, sweep, hv, hw]

theorem gen_sweep_erased {g : κ → ν → Option ν} {m : NodeMap κ ν} {k : κ} {v : ν}
    (hv : m.find k = some v) (hw : g k v = none) : (m.sweep g).gen k = m.gen k + 1 := by
  simp [sweep, hv, hw]

theorem gen_sweep_absent {g : κ → ν → Option ν} {m : NodeMap κ ν} {k : κ}
    (hv : m.find k = none) : (m.sweep g).gen k = m.gen k := by
  simp [sweep, hv]

theorem gen_le_sweep (g : κ → ν → Option ν) (m : NodeMap κ ν) (k : κ) :
    m.gen k ≤ (m.sweep g).gen k := by
  simp only [sweep]; split <;> omega

/-! ### Pointers that are kept -/

/-- `p` is the address of the element that is under `k` now. -/
def Designates (m : NodeMap κ ν) (k : κ) (p : Option (Ptr κ)) : Prop :=
  p = some (m.addr k) ∧ (m.find k).isSome = true

instance (m : NodeMap κ ν) (k : κ) (p : Option (Ptr κ)) : Decidable (m.Designates k p) := by
  unfold Designates
  infer_instance

/-- No element has been erased, and none has moved. -/
structure Grows (m m' : NodeMap κ ν) : Prop where
  gen : m'.gen = m.gen
  find : ∀ k, (m.find k).isSome = true → (m'.find k).isSome = true

theorem Grows.refl (m : NodeMap κ ν) : m.Grows m := ⟨rfl, fun _ h => h⟩

theorem Grows.trans {m m' m'' : NodeMap κ ν} (h : m.Grows m') (h' : m'.Grows m'') : m.Grows m'' :=
  ⟨h'.gen.trans h.gen, fun k hk => h'.find k (h.find k hk)⟩

theorem grows_set (m : NodeMap κ ν) (k : κ) (v : ν) : m.Grows (m.set k v) where
  gen := rfl
  find k' hk' := by
    rw [find_set]
    split
    · rfl
    · exact hk'

theorem Designates.grows {m m' : NodeMap κ ν} {k : κ} {p : Option (Ptr κ)} (h : m.Designates k p)
    (hg : m.Grows m') : m'.Designates k p := by
  refine ⟨?_, hg.find k h.2⟩
  rw [h.1, addr, addr, hg.gen]

/-- A pointer that designates an element goes on doing so if the sweep keeps it. -/
theorem Designates.sweep_iff {g : κ → ν → Option ν} {m : NodeMap κ ν} {k : κ} {p : Option (Ptr κ)}
    {v : ν} (h : m.Designates k p) (hv : m.find k = some v) :
    (m.sweep g).Designates k p ↔ (g k v).isSome = true := by
  unfold Designates
  rw [find_sweep, hv, Option.bind_some, h.1]
  constructor
  · exact And.right
  · intro hg
    obtain ⟨w, hw⟩ := Option.isSome_iff_exists.mp hg
    exact ⟨by rw [addr_sweep_kept hv hw], hg⟩

end NodeMap

end NatFramework.Lib
