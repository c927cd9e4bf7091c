import Mathlib.Data.List.Basic
import Mathlib.Data.List.Pairwise
import Mathlib.Data.Nat.ModEq
import Mathlib.Order.Basic

/-!
# The shared-memory queue

`CMemQueue`: a ring of `elemcnt` slots and the writer's sequence number in shared
memory, and a reader with a sequence number of its own. The reader takes the slot
of its number and does not see how far the writer is ahead, so a reader that has
been lapped gets the last element written to the slot. `CObjQueue` has the same
members for elements of a type `T`; the elements are of any type here.

* `Ring`: the last `elemcnt` elements stand in their slots; `Ring.step` keeps it.
* `read_spec`: the reader at number `n` gets element `n`, later by whole laps.
* `isChain_iff`: so it never goes back exactly when the laps never get fewer.
* `CMemQueue.readOrder`: the order of what is read, for every run.
-/
namespace NatFramework.Io

/-- An element in the ring. `index` is the writer's sequence number when it was
written; the code stores the element only. -/
structure Stamped (α : Type*) where
  index : Nat
  obj : α
  deriving DecidableEq, Repr

/-- The shared memory; `init` refuses a new queue of no elements.
mirrors io/CMemQueue.h:23-28, io/CMemQueue.cpp:76-81 -/
structure Shm (α : Type*) where
  elemcnt : Nat
  elemcnt_pos : 0 < elemcnt
  seq : Nat
  data : Nat → Stamped α

/-- A queue one process writes and this one reads.
mirrors io/CMemQueue.h:87-95 -/
structure CMemQueue (α : Type*) extends Shm α where
  readSeq : Nat

variable {α : Type*}

namespace CMemQueue

/-- The reader starts at the tail.
mirrors io/CMemQueue.cpp:122-126 -/
def init (m : Shm α) : CMemQueue α := { m with readSeq := m.seq }

/-- The slot of the writer.
mirrors io/CMemQueue.h:76-79 -/
def preGetMem (q : CMemQueue α) : Nat := q.seq % q.elemcnt

/-- What the writer puts into a slot.
mirrors io/CMemQueue.h:42 -/
def memcpy (q : CMemQueue α) (i : Nat) (obj : α) : CMemQueue α :=
  { q with data := fun j => if j = i then ⟨q.seq, obj⟩ else q.data j }

/-- mirrors io/CMemQueue.h:81-84 -/
def commit (q : CMemQueue α) : CMemQueue α := { q with seq := q.seq + 1 }

/-- mirrors io/CMemQueue.h:39-44 -/
def write (q : CMemQueue α) (obj : α) : CMemQueue α := (q.memcpy (q.seq % q.elemcnt) obj).commit

/-- mirrors io/CMemQueue.h:46-67 -/
def read (q : CMemQueue α) : Option (Stamped α) × CMemQueue α :=
  if q.readSeq < q.seq then
    (some (q.data (q.readSeq % q.elemcnt)), { q with readSeq := q.readSeq + 1 })
  else (none, q)

/-- One step of the writer or of the reader. -/
inductive Event (α : Type*) where
  | write (obj : α)
  /-- `preGetMem`, the element put there, `commit` -/
  | preCommit (obj : α)
  | read

def step (q : CMemQueue α) : Event α → Option (Stamped α) × CMemQueue α
  | .write obj => (none, q.write obj)
  | .preCommit obj => (none, (q.memcpy q.preGetMem obj).commit)
  | .read => q.read

/-- How many times the ring has been written round since the writer put the
element the reader is at. -/
def lap (q : CMemQueue α) : Nat := (q.seq - 1 - q.readSeq) / q.elemcnt

/-- The elements read in a run, each with the lap the writer was ahead. -/
def deliveries : CMemQueue α → List (Event α) → List (Nat × Stamped α)
  | _, [] => []
  | q, e :: es =>
    match q.step e with
    | (some x, q') => (q.lap, x) :: q'.deliveries es
    | (none, q') => q'.deliveries es

def reads (q : CMemQueue α) (es : List (Event α)) : List (Stamped α) :=
  (q.deliveries es).map Prod.snd

def laps (q : CMemQueue α) (es : List (Event α)) : List Nat := (q.deliveries es).map Prod.fst

def Event.written : Event α → Option α
  | .write obj | .preCommit obj => some obj
  | .read => none

/-- The elements written in a run. -/
def written (es : List (Event α)) : List α := es.filterMap Event.written

/-! ## The ring -/

/-- `ws` has been written since sequence number `base`, and the last `elemcnt` of
it stand in their slots. -/
structure Ring (base : Nat) (ws : List α) (q : CMemQueue α) : Prop where
  seq : q.seq = base + ws.length
  base_le : base ≤ q.readSeq
  slot : ∀ {k : Nat} {o : α}, ws[k]? = some o → ws.length ≤ k + q.elemcnt →
    q.data ((base + k) % q.elemcnt) = ⟨base + k, o⟩

variable {base : Nat} {ws : List α} {q q' : CMemQueue α}

theorem ring_init (m : Shm α) : Ring m.seq [] (init m) where
  seq := rfl
  base_le := Nat.le_refl _
  slot := by simp

/-- Two numbers less than a lap apart have different slots. -/
theorem mod_ne {n a b : Nat} (hlt : a < b) (h : b < a + n) : a % n ≠ b % n := by
  intro heq
  have hdvd : n ∣ b - a := (Nat.modEq_iff_dvd' hlt.le).mp heq
  have := Nat.le_of_dvd (by omega) hdvd
  omega

theorem Ring.write (h : Ring base ws q) (obj : α) : Ring base (ws ++ [obj]) (q.write obj) where
  seq := by
    simp only [CMemQueue.write, commit, memcpy, h.seq, List.length_append, List.length_singleton]
    omega
  base_le := h.base_le
  slot := by
    intro k o hk hlast
    simp only [CMemQueue.write, commit, memcpy, List.length_append, List.length_singleton, h.seq]
      at hlast ⊢
    by_cases hnew : k = ws.length
    · subst hnew
      simp only [List.getElem?_concat_length, Option.some.injEq] at hk
      rw [if_pos rfl, hk]
    · have hlt : k < ws.length := by
        have := (List.getElem?_eq_some_iff.mp hk).1
        simp only [List.length_append, List.length_singleton] at this
        omega
      rw [List.getElem?_append_left hlt] at hk
      rw [if_neg (mod_ne (by omega) (by omega))]
      exact h.slot hk (by omega)

theorem Ring.read (h : Ring base ws q) : Ring base ws q.read.2 := by
  unfold CMemQueue.read
  split
  · exact ⟨h.seq, Nat.le_succ_of_le h.base_le, h.slot⟩
  · exact h

/-- One step keeps the ring, of what has been written after it. -/
theorem Ring.step (h : Ring base ws q) (e : Event α) :
    Ring base (ws ++ written [e]) (q.step e).2 := by
  cases e with
  | write obj => exact h.write obj
  | preCommit obj => exact h.write obj
  | read =>
    rw [show ws ++ written [Event.read] = ws by simp [written, Event.written]]
    exact h.read

/-- The reader at number `readSeq` gets the element of the last lap in its slot. -/
theorem read_spec (h : Ring base ws q) (hlt : q.readSeq < q.seq) :
    ∃ k o, q.read.1 = some ⟨base + k, o⟩ ∧ ws[k]? = some o ∧
      base + k = q.readSeq + q.elemcnt * q.lap := by
  have hpos := q.elemcnt_pos
  have hseq := h.seq
  have hbase := h.base_le
  -- the lap is the quotient, so the element is one of the last `elemcnt`
  have hdiv := Nat.div_add_mod (q.seq - 1 - q.readSeq) q.elemcnt
  have hmod := Nat.mod_lt (q.seq - 1 - q.readSeq) hpos
  obtain ⟨k, hk⟩ := Nat.exists_eq_add_of_le (show base ≤ q.readSeq + q.elemcnt * q.lap by omega)
  have hlap : q.elemcnt * q.lap + (q.seq - 1 - q.readSeq) % q.elemcnt = q.seq - 1 - q.readSeq :=
    hdiv
  have hin : k < ws.length := by omega
  refine ⟨k, ws[k], ?_, List.getElem?_eq_getElem hin, hk.symm⟩
  have hslot := h.slot (List.getElem?_eq_getElem hin) (by omega)
  rw [← hk, Nat.add_mul_mod_self_left] at hslot
  rw [CMemQueue.read, if_pos hlt, hslot, hk]

/-! ## Runs -/

/-- The `j`-th delivery is element `n + j`, later by the laps of its read. -/
def InTurn (elemcnt : Nat) : Nat → List (Nat × Stamped α) → Prop
  | _, [] => True
  | n, (lap, x) :: ds => x.index = n + elemcnt * lap ∧ InTurn elemcnt (n + 1) ds

/-- What is read is what was written with that index. -/
def Genuine (base : Nat) (ws : List α) (x : Stamped α) : Prop :=
  base ≤ x.index ∧ ws[x.index - base]? = some x.obj

theorem Genuine.append {x : Stamped α} (h : Genuine base ws x) (vs : List α) :
    Genuine base (ws ++ vs) x :=
  ⟨h.1, by rw [List.getElem?_append_left (List.getElem?_eq_some_iff.mp h.2).1]; exact h.2⟩

theorem step_elemcnt (q : CMemQueue α) (e : Event α) : (q.step e).2.elemcnt = q.elemcnt := by
  cases e with
  | write obj => rfl
  | preCommit obj => rfl
  | read =>
    simp only [step, CMemQueue.read]
    split <;> rfl

/-- A step delivers nothing and leaves the reader where it is, or it is the read of
the element in turn. -/
theorem step_cases (h : Ring base ws q) (e : Event α) :
    (∃ q', q.step e = (none, q') ∧ q'.readSeq = q.readSeq) ∨
    ∃ x q', q.step e = (some x, q') ∧ q'.readSeq = q.readSeq + 1 ∧ Genuine base ws x ∧
      x.index = q.readSeq + q.elemcnt * q.lap := by
  cases e with
  | write obj => exact .inl ⟨_, rfl, rfl⟩
  | preCommit obj => exact .inl ⟨_, rfl, rfl⟩
  | read =>
    by_cases hlt : q.readSeq < q.seq
    · obtain ⟨k, o, hread, hk, hindex⟩ := read_spec h hlt
      refine .inr ⟨⟨base + k, o⟩, { q with readSeq := q.readSeq + 1 }, ?_, rfl, ?_, hindex⟩
      · rw [step, ← hread, CMemQueue.read, if_pos hlt]
      · exact ⟨Nat.le_add_right _ _, by rwa [Nat.add_sub_cancel_left]⟩
    · exact .inl ⟨q, by rw [step, CMemQueue.read, if_neg hlt], rfl⟩

theorem deliveries_spec (h : Ring base ws q) (es : List (Event α)) :
    InTurn q.elemcnt q.readSeq (q.deliveries es) ∧
      ∀ d ∈ q.deliveries es, Genuine base (ws ++ written es) d.2 := by
  induction es generalizing q ws with
  | nil => exact ⟨trivial, by simp [deliveries]⟩
  | cons e es ih =>
    have hlog : ws ++ written (e :: es) = ws ++ written [e] ++ written es := by
      rw [List.append_assoc, written, written, written, ← List.filterMap_append]
      rfl
    have hnext := ih (h.step e)
    rw [step_elemcnt] at hnext
    rw [hlog]
    obtain ⟨q', hstep, hseq⟩ | ⟨x, q', hstep, hseq, hx, hindex⟩ := step_cases h e
    · rw [hstep] at hnext
      simp only [deliveries, hstep]
      exact hseq ▸ hnext
    · rw [hstep] at hnext
      simp only [deliveries, hstep, List.mem_cons, forall_eq_or_imp]
      exact ⟨⟨hindex, hseq ▸ hnext.1⟩, (hx.append _).append _, hnext.2⟩

/-! ## The order of what is read -/

/-- Deliveries in turn never go back exactly when the laps never get fewer. -/
theorem isChain_iff {elemcnt : Nat} (hpos : 0 < elemcnt) :
    ∀ {ds : List (Nat × Stamped α)} {n : Nat}, InTurn elemcnt n ds →
      ((ds.map fun d => d.2.index).IsChain (· < ·) ↔ (ds.map Prod.fst).IsChain (· ≤ ·))
  | [], _, _ => by simp
  | [_], _, _ => by simp
  | d :: d' :: ds, n, h => by
    simp only [List.map_cons, List.isChain_cons_cons]
    refine and_congr ?_ (isChain_iff hpos h.2)
    have hd : d.2.index = n + elemcnt * d.1 := h.1
    have hd' : d'.2.index = n + 1 + elemcnt * d'.1 := h.2.1
    constructor
    · intro hlt
      by_contra hless
      have := Nat.mul_le_mul_left elemcnt (show d'.1 + 1 ≤ d.1 by omega)
      rw [Nat.mul_add_one] at this
      omega
    · intro hle
      have := Nat.mul_le_mul_left elemcnt hle
      omega

/-- A reader that is never lapped gets the elements one after the other. -/
theorem index_of_no_lap {elemcnt : Nat} : ∀ {ds : List (Nat × Stamped α)} {n : Nat},
    InTurn elemcnt n ds → (∀ d ∈ ds, d.1 = 0) →
    (ds.map fun d => d.2.index) = List.range' n ds.length
  | [], _, _, _ => rfl
  | d :: ds, n, h, hlap => by
    have hd : d.2.index = n + elemcnt * d.1 := h.1
    rw [hlap d (List.mem_cons_self ..), Nat.mul_zero, Nat.add_zero] at hd
    rw [List.map_cons, hd, index_of_no_lap h.2 fun d hd => hlap d (List.mem_cons_of_mem _ hd)]
    rfl

/-- In every run, what is read is what was written, the indices increase exactly
when no read is fewer laps behind than the one before, and a reader that is never
lapped gets every element in order. -/
theorem readOrder (m : Shm α) (es : List (Event α)) :
    (∀ x ∈ (init m).reads es, Genuine m.seq (written es) x) ∧
    ((((init m).reads es).map Stamped.index).Pairwise (· < ·) ↔
      ((init m).laps es).Pairwise (· ≤ ·)) ∧
    ((∀ lap ∈ (init m).laps es, lap = 0) → ((init m).reads es).map Stamped.index =
      List.range' m.seq ((init m).reads es).length) := by
  obtain ⟨hturn, hgenuine⟩ := deliveries_spec (ring_init m) es
  have hindex : ((init m).reads es).map Stamped.index =
      ((init m).deliveries es).map fun d => d.2.index := List.map_map
  refine ⟨fun x hx => ?_, ?_, fun hlap => ?_⟩
  · obtain ⟨d, hd, rfl⟩ := List.mem_map.mp hx
    exact hgenuine d hd
  · rw [hindex, laps, ← List.isChain_iff_pairwise, ← List.isChain_iff_pairwise]
    exact isChain_iff (init m).elemcnt_pos hturn
  · rw [hindex, reads, List.length_map]
    exact index_of_no_lap hturn fun d hd => hlap d.1 (List.mem_map_of_mem hd)

/-- Two slots and five writes: the reader gets elements 4 and 3. -/
theorem reads_back : ¬ (((init ⟨2, by decide, 0, fun _ => ⟨0, 0⟩⟩ : CMemQueue Nat).reads
    [.write 10, .write 11, .write 12, .write 13, .write 14, .read, .read]).map
      Stamped.index).Pairwise (· < ·) := by decide

end CMemQueue

end NatFramework.Io
