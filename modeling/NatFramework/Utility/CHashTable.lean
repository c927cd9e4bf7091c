import Mathlib.Algebra.GroupWithZero.Nat
import Mathlib.Data.List.Induction
import NatFramework.Lib.KeyCells
import NatFramework.Lib.Run

/-!
# The table of running strategies

`CHashTable`: `deep` levels of nodes one behind the other, each with its own
base size. A key has one node on every level; key 0 marks a free node.

* `scan_spec`: what the loop over the levels finds.
* `insert_holds`, `del_holds`: the table goes on holding the map of the
  latest successful inserts.
-/
namespace NatFramework.Utility

open Lib

structure TNode (V : Type) where
  key : Nat
  val : V
deriving DecidableEq

/-- `basesize_` and the nodes behind `p_node_`. -/
structure CHashTable (V : Type) where
  basesize : List Nat
  node : Nat → TNode V
  deep_pos : 0 < basesize.length
  base_pos : ∀ b ∈ basesize, 0 < b

namespace CHashTable

variable {V : Type}

/-- `totcnt_`. -/
def totcnt (t : CHashTable V) : Nat := t.basesize.sum

def getFrom (node : Nat → TNode V) (key : Nat) : List Nat → Nat → Option Nat
  | [], _ => none
  | base :: bases, p =>
    let j := key % base
    if (node (p + j)).key = key then some (p + j) else getFrom node key bases (p + base)

/-- The node found, as its number. -/
def get (t : CHashTable V) (key : Nat) : Option Nat := getFrom t.node key t.basesize 0

def insertFrom (node : Nat → TNode V) (key : Nat) (val : V) :
    List Nat → Nat → Option Nat → (Nat → TNode V) × Option Nat
  | [], _, none => (node, none)
  | [], _, some empty => (Function.update node empty ⟨key, val⟩, some empty)
  | base :: bases, p, empty =>
    let j := key % base
    if (node (p + j)).key = key then
      (Function.update node (p + j) { node (p + j) with val := val }, some (p + j))
    else if empty = none ∧ (node (p + j)).key = 0 then
      insertFrom node key val bases (p + base) (some (p + j))
    else
      insertFrom node key val bases (p + base) empty

def insert (t : CHashTable V) (key : Nat) (val : V) : CHashTable V × Option Nat :=
  let r := insertFrom t.node key val t.basesize 0 none
  ({ t with node := r.1 }, r.2)

def delFrom (node : Nat → TNode V) (key : Nat) :
    List Nat → Nat → (Nat → TNode V) × Bool
  | [], _ => (node, false)
  | base :: bases, p =>
    let j := key % base
    if (node (p + j)).key = key then
      (Function.update node (p + j) { node (p + j) with key := 0 }, true)
    else delFrom node key bases (p + base)

def del (t : CHashTable V) (key : Nat) : CHashTable V × Bool :=
  let r := delFrom t.node key t.basesize 0
  ({ t with node := r.1 }, r.2)

/-! ## The nodes of a key -/

def slotsFrom (key : Nat) : List Nat → Nat → List Nat
  | [], _ => []
  | base :: bases, p => (p + key % base) :: slotsFrom key bases (p + base)

/-- The node of the key on each level. -/
def slots (t : CHashTable V) (key : Nat) : List Nat := slotsFrom key t.basesize 0

theorem slotsFrom_lt {key : Nat} {bases : List Nat} (hb : ∀ b ∈ bases, 0 < b) {p i : Nat}
    (hi : i ∈ slotsFrom key bases p) : i < p + bases.sum := by
  induction bases generalizing p with
  | nil => cases hi
  | cons base bases ih =>
    have hlt := Nat.mod_lt key (hb base List.mem_cons_self)
    rw [List.sum_cons]
    rcases List.mem_cons.mp hi with rfl | hi
    · omega
    · have := ih (fun b hm => hb b (List.mem_cons_of_mem base hm)) hi
      omega

theorem slots_lt (t : CHashTable V) {key i : Nat} (hi : i ∈ t.slots key) : i < t.totcnt := by
  have := slotsFrom_lt t.base_pos hi
  rwa [Nat.zero_add] at this

/-! ## What the loops find -/

theorem getFrom_eq_find (node : Nat → TNode V) (key : Nat) (bases : List Nat) (p : Nat) :
    getFrom node key bases p =
      (slotsFrom key bases p).find? (fun i => decide ((node i).key = key)) := by
  induction bases generalizing p with
  | nil => rfl
  | cons base bases ih =>
    unfold getFrom slotsFrom
    dsimp only
    by_cases h : (node (p + key % base)).key = key
    · rw [if_pos h, List.find?_cons_of_pos (by simpa using h)]
    · rw [if_neg h, List.find?_cons_of_neg (by simpa using h), ih]

theorem delFrom_eq (node : Nat → TNode V) (key : Nat) (bases : List Nat) (p : Nat) :
    delFrom node key bases p =
      match getFrom node key bases p with
      | some i => (Function.update node i { node i with key := 0 }, true)
      | none => (node, false) := by
  induction bases generalizing p with
  | nil => rfl
  | cons base bases ih =>
    unfold delFrom getFrom
    dsimp only
    by_cases h : (node (p + key % base)).key = key
    · rw [if_pos h, if_pos h]
    · rw [if_neg h, if_neg h, ih]

/-- The first free node of the key. -/
def freeFrom (node : Nat → TNode V) (key : Nat) (bases : List Nat) (p : Nat) : Option Nat :=
  (slotsFrom key bases p).find? (fun i => decide ((node i).key = 0))

theorem insertFrom_eq (node : Nat → TNode V) (key : Nat) (val : V) (bases : List Nat) (p : Nat)
    (empty : Option Nat) :
    insertFrom node key val bases p empty =
      match getFrom node key bases p with
      | some i => (Function.update node i { node i with val := val }, some i)
      | none =>
        match empty.or (freeFrom node key bases p) with
        | some i => (Function.update node i ⟨key, val⟩, some i)
        | none => (node, none) := by
  induction bases generalizing p empty with
  | nil => cases empty <;> rfl
  | cons base bases ih =>
    unfold insertFrom getFrom freeFrom slotsFrom
    dsimp only
    by_cases h : (node (p + key % base)).key = key
    · rw [if_pos h, if_pos h]
    · rw [if_neg h, if_neg h]
      by_cases h0 : (node (p + key % base)).key = 0
      · rw [List.find?_cons_of_pos (by simpa using h0)]
        cases empty with
        | none =>
          rw [if_pos ⟨rfl, h0⟩, ih]
          rfl
        | some e =>
          rw [if_neg (by simp), ih]
          rfl
      · rw [List.find?_cons_of_neg (by simpa using h0), if_neg (fun hc => h0 hc.2), ih]
        rfl

section Found

variable (t : CHashTable V) {key : Nat}

theorem get_eq_some {i : Nat} (h : t.get key = some i) :
    i ∈ t.slots key ∧ (t.node i).key = key := by
  unfold get at h
  rw [getFrom_eq_find] at h
  exact ⟨List.mem_of_find?_eq_some h, by simpa using List.find?_some h⟩

theorem get_eq_none (h : t.get key = none) {i : Nat} (hi : i ∈ t.slots key) :
    (t.node i).key ≠ key := by
  unfold get at h
  rw [getFrom_eq_find, List.find?_eq_none] at h
  simpa using h i hi

/-- The first free node of the key, over all levels. -/
def free (key : Nat) : Option Nat := freeFrom t.node key t.basesize 0

theorem free_eq_some {i : Nat} (h : t.free key = some i) :
    i ∈ t.slots key ∧ (t.node i).key = 0 := by
  unfold free freeFrom at h
  exact ⟨List.mem_of_find?_eq_some h, by simpa using List.find?_some h⟩

theorem free_eq_none : t.free key = none ↔ ∀ i ∈ t.slots key, (t.node i).key ≠ 0 := by
  unfold free freeFrom
  rw [List.find?_eq_none]
  simp [slots]

theorem insert_of_get {i : Nat} (h : t.get key = some i) (val : V) :
    t.insert key val =
      ({ t with node := Function.update t.node i { t.node i with val := val } }, some i) := by
  unfold get at h
  unfold insert
  simp only [insertFrom_eq, h]

theorem insert_of_free {i : Nat} (hg : t.get key = none) (hf : t.free key = some i) (val : V) :
    t.insert key val = ({ t with node := Function.update t.node i ⟨key, val⟩ }, some i) := by
  unfold get at hg
  unfold free at hf
  unfold insert
  simp only [insertFrom_eq, hg, hf, Option.none_or]

theorem insert_of_full (hg : t.get key = none) (hf : t.free key = none) (val : V) :
    t.insert key val = (t, none) := by
  unfold get at hg
  unfold free at hf
  unfold insert
  simp only [insertFrom_eq, hg, hf, Option.none_or]

theorem del_of_get {i : Nat} (h : t.get key = some i) :
    t.del key = ({ t with node := Function.update t.node i { t.node i with key := 0 } }, true) := by
  unfold get at h
  unfold del
  simp only [delFrom_eq, h]

theorem del_of_none (h : t.get key = none) : t.del key = (t, false) := by
  unfold get at h
  unfold del
  simp only [delFrom_eq, h]

end Found

/-! ## The map -/

/-- A node in use: its key and its value. -/
def cell (t : CHashTable V) (i : Nat) : Option (Nat × V) :=
  if (t.node i).key = 0 then none else some ((t.node i).key, (t.node i).val)

theorem cell_of_key {t : CHashTable V} {key i : Nat} (h0 : key ≠ 0) (h : (t.node i).key = key) :
    t.cell i = some (key, (t.node i).val) := by
  unfold cell
  rw [h, if_neg h0]

theorem cell_eq_some {t : CHashTable V} {key i : Nat} {v : V} (h : t.cell i = some (key, v)) :
    (t.node i).key = key ∧ (t.node i).val = v ∧ key ≠ 0 := by
  unfold cell at h
  split at h
  · cases h
  · rename_i h0
    cases h
    exact ⟨rfl, rfl, h0⟩

theorem cell_update (t : CHashTable V) (i : Nat) (n : TNode V) :
    cell { t with node := Function.update t.node i n } =
      Function.update t.cell i (if n.key = 0 then none else some (n.key, n.val)) := by
  funext j
  unfold cell
  by_cases h : j = i
  · subst h
    simp only [Function.update_self]
  · simp only [Function.update_of_ne h]

section Holds

variable {t : CHashTable V} {m : Nat → Option V} {key i : Nat}

/-- The table holds the map: nonzero keys each in one node, one of their own. -/
def HoldsMap (t : CHashTable V) (m : Nat → Option V) : Prop := Lib.HoldsMap t.slots t.cell m

theorem HoldsMap.of_get (h : t.HoldsMap m) (h0 : key ≠ 0) (hg : t.get key = some i) :
    m key = some (t.node i).val :=
  (h.maps key _).mpr ⟨i, cell_of_key h0 (t.get_eq_some hg).2⟩

theorem HoldsMap.of_get_none (h : t.HoldsMap m) (hg : t.get key = none) : m key = none :=
  h.eq_none fun _ hi _ hc => t.get_eq_none hg hi (cell_eq_some hc).1

theorem HoldsMap.get_eq_none_iff (h : t.HoldsMap m) (h0 : key ≠ 0) :
    t.get key = none ↔ m key = none := by
  constructor
  · exact h.of_get_none
  · intro hm
    cases hg : t.get key with
    | none => rfl
    | some i =>
      rw [h.of_get h0 hg] at hm
      cases hm

theorem HoldsMap.unique (h : t.HoldsMap m) (h0 : key ≠ 0) {j : Nat} (hi : (t.node i).key = key)
    (hj : (t.node j).key = key) : i = j :=
  Lib.HoldsMap.unique h (cell_of_key h0 hi) (cell_of_key h0 hj)

theorem insert_eq_none (t : CHashTable V) (key : Nat) (val : V) :
    (t.insert key val).2 = none ↔ t.get key = none ∧ ∀ i ∈ t.slots key, (t.node i).key ≠ 0 := by
  cases hg : t.get key with
  | some i => simp [t.insert_of_get hg]
  | none =>
    rw [← t.free_eq_none]
    cases hf : t.free key with
    | some i => simp [t.insert_of_free hg hf]
    | none => simp [t.insert_of_full hg hf]

/-- A refused insert leaves the table as it is. -/
theorem insert_refused {val : V} (h : (t.insert key val).2 = none) : (t.insert key val).1 = t := by
  obtain ⟨hg, hs⟩ := (t.insert_eq_none key val).mp h
  rw [t.insert_of_full hg (t.free_eq_none.mpr hs)]

theorem insert_node {val : V} (h : (t.insert key val).2 = some i) :
    (t.insert key val).1.node i = ⟨key, val⟩ := by
  cases hg : t.get key with
  | some j =>
    have hkey := (t.get_eq_some hg).2
    rw [t.insert_of_get hg] at h ⊢
    cases h
    simp only [Function.update_self, hkey]
  | none =>
    cases hf : t.free key with
    | some j =>
      rw [t.insert_of_free hg hf] at h ⊢
      cases h
      simp only [Function.update_self]
    | none =>
      rw [t.insert_of_full hg hf] at h
      cases h

theorem insert_holds (h : t.HoldsMap m) (h0 : key ≠ 0) {val : V}
    (hi : (t.insert key val).2 = some i) :
    (t.insert key val).1.HoldsMap (Function.update m key (some val)) := by
  unfold HoldsMap
  cases hg : t.get key with
  | some j =>
    have hkey := (t.get_eq_some hg).2
    rw [t.insert_of_get hg, cell_update, hkey, if_neg h0]
    exact h.overwrite (cell_of_key h0 hkey) val
  | none =>
    cases hf : t.free key with
    | some j =>
      obtain ⟨hslot, hfree⟩ := t.free_eq_some hf
      rw [t.insert_of_free hg hf, cell_update, if_neg h0]
      exact h.fill hslot (if_pos hfree) (h.of_get_none hg) val
    | none =>
      rw [t.insert_of_full hg hf] at hi
      cases hi

theorem del_holds (h : t.HoldsMap m) (h0 : key ≠ 0) :
    (t.del key).1.HoldsMap (Function.update m key none) ∧
      ((t.del key).2 = true ↔ (m key).isSome) := by
  unfold HoldsMap
  cases hg : t.get key with
  | some j =>
    have hkey := (t.get_eq_some hg).2
    rw [t.del_of_get hg, cell_update, if_pos rfl, h.of_get h0 hg]
    exact ⟨Lib.HoldsMap.free h (cell_of_key h0 hkey), by simp⟩
  | none =>
    have hm := h.of_get_none hg
    rw [t.del_of_none hg, hm, ← hm, Function.update_eq_self]
    exact ⟨h, by simp [hm]⟩

/-- The value behind `get`. -/
def value (t : CHashTable V) (key : Nat) : Option V := (t.get key).map fun i => (t.node i).val

theorem HoldsMap.value_eq (h : t.HoldsMap m) (h0 : key ≠ 0) : t.value key = m key := by
  unfold value
  cases hg : t.get key with
  | some i => rw [h.of_get h0 hg, Option.map_some]
  | none => rw [h.of_get_none hg, Option.map_none]

/-- The writes of one key leave the value of every other. -/
theorem HoldsMap.value_other (h : t.HoldsMap m) (h0 : key ≠ 0) {other : Nat} (ho : other ≠ 0)
    (hne : other ≠ key) (val : V) :
    (t.insert key val).1.value other = t.value other ∧
      (t.del key).1.value other = t.value other := by
  constructor
  · cases hi : (t.insert key val).2 with
    | none => rw [insert_refused hi]
    | some i =>
      rw [(insert_holds h h0 hi).value_eq ho, h.value_eq ho, Function.update_of_ne hne]
  · rw [(del_holds h h0).1.value_eq ho, h.value_eq ho, Function.update_of_ne hne]

end Holds

end CHashTable

/-! ## Runs of the table -/

inductive TableOp (V : Type) where
  | insert (key : Nat) (val : V)
  | del (key : Nat)
  | get (key : Nat)

def TableOp.key {V : Type} : TableOp V → Nat
  | .insert key _ => key
  | .del key => key
  | .get key => key

variable {V : Type}

/-- The call and whether it returned a node, or true. -/
def CHashTable.call (t : CHashTable V) : TableOp V → CHashTable V × Bool
  | .insert key val => ((t.insert key val).1, (t.insert key val).2.isSome)
  | .del key => t.del key
  | .get key => (t, (t.get key).isSome)

/-- The value of the latest successful insert of the key since its last `del`,
over the calls made and their success. -/
def stored (key : Nat) (log : List (TableOp V × Bool)) : Option V :=
  log.foldl (fun r e => match e with
    | (.insert k val, true) => if k = key then some val else r
    | (.del k, _) => if k = key then none else r
    | _ => r) none

/-- Calls on a table that was all zero, with those made so far. -/
def tableSys (V : Type) : Sys (CHashTable V × List (TableOp V × Bool)) (TableOp V) where
  start s := (∀ i, (s.1.node i).key = 0) ∧ s.2 = []
  ok _ op := op.key ≠ 0
  next s op := ((s.1.call op).1, s.2 ++ [(op, (s.1.call op).2)])

theorem stored_append (key : Nat) (log : List (TableOp V × Bool)) (op : TableOp V) (done : Bool) :
    stored key (log ++ [(op, done)]) =
      match op, done with
      | .insert k val, true => if k = key then some val else stored key log
      | .del k, _ => if k = key then none else stored key log
      | _, _ => stored key log := by
  unfold stored
  rw [List.foldl_append, List.foldl_cons, List.foldl_nil]
  cases op <;> cases done <;> rfl

theorem update_eq_if (m : Nat → Option V) (k : Nat) (o : Option V) :
    Function.update m k o = fun key => if k = key then o else m key := by
  funext key
  by_cases h : key = k
  · rw [h, Function.update_self, if_pos rfl]
  · rw [Function.update_of_ne h, if_neg (Ne.symm h)]

/-- One call keeps the table in step with the calls made. -/
theorem call_holds {t : CHashTable V} {log : List (TableOp V × Bool)} {op : TableOp V}
    (h : t.HoldsMap fun key => stored key log) (h0 : op.key ≠ 0) :
    (t.call op).1.HoldsMap fun key => stored key (log ++ [(op, (t.call op).2)]) := by
  simp only [stored_append]
  cases op with
  | insert k val =>
    cases hi : (t.insert k val).2 with
    | none =>
      simp only [CHashTable.call, hi, Option.isSome_none, CHashTable.insert_refused hi]
      exact h
    | some i =>
      simp only [CHashTable.call, hi, Option.isSome_some]
      rw [← update_eq_if]
      exact CHashTable.insert_holds h h0 hi
  | del k =>
    simp only [CHashTable.call]
    rw [← update_eq_if]
    exact (CHashTable.del_holds h h0).1
  | get k => exact h

theorem reachable_holds {s : CHashTable V × List (TableOp V × Bool)}
    (hs : (tableSys V).Reachable s) : s.1.HoldsMap fun key => stored key s.2 := by
  refine (tableSys V).invariant (I := fun s => s.1.HoldsMap fun key => stored key s.2)
    (fun s h => ?_) (fun s op h h0 => call_holds h h0) hs
  have hcell : s.1.cell = fun _ => none := funext fun i => if_pos (h.1 i)
  unfold CHashTable.HoldsMap
  rw [hcell, h.2]
  exact Lib.HoldsMap.empty s.1.slots

/-- The table is the finite map of its calls. -/
theorem table_is_map {s : CHashTable V × List (TableOp V × Bool)} (hs : (tableSys V).Reachable s)
    (key : Nat) (h0 : key ≠ 0) :
    (∀ i j, (s.1.node i).key = key → (s.1.node j).key = key → i = j) ∧
      (∀ i, s.1.get key = some i →
        i < s.1.totcnt ∧ (s.1.node i).key = key ∧ stored key s.2 = some (s.1.node i).val) ∧
      (s.1.get key = none ↔ stored key s.2 = none) ∧
      ((s.1.del key).2 = true ↔ (stored key s.2).isSome) ∧
      (∀ val, (s.1.insert key val).2 = none ↔
        stored key s.2 = none ∧ ∀ i ∈ s.1.slots key, (s.1.node i).key ≠ 0) ∧
      (∀ val, (s.1.insert key val).2 = none → (s.1.insert key val).1 = s.1) ∧
      (∀ val i, (s.1.insert key val).2 = some i →
        (s.1.insert key val).1.node i = ⟨key, val⟩) ∧
      (∀ val other, other ≠ 0 → other ≠ key →
        (s.1.insert key val).1.value other = s.1.value other ∧
          (s.1.del key).1.value other = s.1.value other) := by
  have h := reachable_holds hs
  refine ⟨fun i j hi hj => h.unique h0 hi hj, fun i hi => ?_, h.get_eq_none_iff h0,
    (CHashTable.del_holds h h0).2, fun val => ?_, fun val hi => CHashTable.insert_refused hi,
    fun val i hi => CHashTable.insert_node hi,
    fun val other ho hne => h.value_other h0 ho hne val⟩
  · obtain ⟨hslot, hkey⟩ := s.1.get_eq_some hi
    exact ⟨s.1.slots_lt hslot, hkey, h.of_get h0 hi⟩
  · rw [s.1.insert_eq_none, h.get_eq_none_iff h0]

/-- Two levels, of 3 and 5 nodes. -/
def twoLevels : CHashTable Nat where
  basesize := [3, 5]
  node _ := ⟨0, 0⟩
  deep_pos := by decide
  base_pos := by decide

/-- Key 4 is pushed to the second level, and key 7 takes the hole before it. -/
def holeCalls : List (TableOp Nat) :=
  [.insert 1 10, .insert 4 40, .del 1, .insert 7 70, .insert 4 41, .insert 19 90]

theorem table_is_map_holeCalls :
    let s := (tableSys Nat).exec (twoLevels, []) holeCalls
    stored 4 s.2 = some 41 ∧ s.1.get 4 = some 7 ∧ (s.1.insert 19 91).2 = none ∧
      (s.1.insert 19 91).1 = s.1 := by
  have hr : (tableSys Nat).Reachable ((tableSys Nat).exec (twoLevels, []) holeCalls) :=
    ⟨_, holeCalls, ⟨fun _ => rfl, rfl⟩, by simp [holeCalls, Sys.Admits, tableSys, TableOp.key], rfl⟩
  have hfull : (((tableSys Nat).exec (twoLevels, []) holeCalls).1.insert 19 91).2 = none := by
    decide
  exact ⟨by decide, by decide, hfull,
    (table_is_map hr 19 (by decide)).2.2.2.2.2.1 91 hfull⟩

end NatFramework.Utility
