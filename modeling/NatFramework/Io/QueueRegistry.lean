import Mathlib.Algebra.Group.Nat.Defs
import Mathlib.Logic.Function.Basic
import Mathlib.Order.Basic
import NatFramework.Lib.Run

/-!
# The registry of queues

`CMemoryQueueBase` in all processes that have mapped its file: a table of names and shm
keys, to which `registerQueue` adds a name behind `globalLock`. A mutex keeps the threads
of a process apart and a byte of the file the processes. `globalUnlock` gives the mutex
back first, and the byte then goes from under the next thread of the same process.

* `exclusive_iff`: two threads can be inside unless each is alone in its process or
  there is one process.
* `kept_iff`: under the same condition a name that has been given a key stands in the
  table with it, in every state.
-/
namespace NatFramework.Io.CMemoryQueueBase

open Lib

def MAX_QUEUE : Nat := 4096 * 2
def MAX_NAME_SIZE : Nat := 128
def MAGIC_SHMKEY : Nat := 0x20170906

/-- A text as `strcpy` copies it whole. -/
abbrev Name := { l : List UInt8 // 0 ∉ l }

/-- `hash` is `boost::hash<string>`.
mirrors io/CMemoryQueueBase.cpp:204-206 -/
def keyOf (hash : Name → Nat) (name : Name) : Nat :=
  (hash name % 2 ^ 32 + MAGIC_SHMKEY) % 2 ^ 32

/-- Where a thread stands in `registerQueue`: in the loop of `getShmKeyByName`, before
the mutex and before the byte, and before each line behind them; `munlock` and `funlock`
with what is returned. -/
inductive Pc where
  | idle
  | look (name : Name) (i : Nat)
  | mutex (name : Name)
  | file (name : Name)
  | test (name : Name)
  | point (name : Name)
  | copy (name : Name) (i : Nat)
  | key (name : Name) (i : Nat)
  | count (name : Name) (i : Nat)
  | munlock (name : Name) (ret : Nat)
  | funlock (name : Name) (ret : Nat)
  | done (name : Name) (ret : Nat)

/-- Between `globalLock` and `globalUnlock`. -/
def Pc.Inside : Pc → Prop
  | .test _ | .point _ | .copy _ _ | .key _ _ | .count _ _ | .munlock _ _ => True
  | _ => False

/-- What is in the file.
mirrors io/CMemoryQueueBase.h:26-37 -/
structure Table where
  names : Nat → Name := fun _ => ⟨[], List.not_mem_nil⟩
  keys : Nat → Nat := fun _ => 0
  cnt : Nat := 0

/-- `mutex` is in each process, and `owner` is the process for which the kernel keeps the
byte. -/
structure Registry (T P : Type) where
  table : Table := {}
  mutex : P → Option T := fun _ => none
  owner : Option P := none
  pcs : T → Pc := fun _ => .idle

namespace Table

variable (hash : Name → Nat) (b b' : Table)

/-- `getShmKeyByName`, with nobody writing. -/
def lookup (name : Name) : Nat :=
  ((List.range b.cnt).find? fun i => b.names i = name).elim 0 b.keys

def Has (name : Name) : Prop := ∃ i < b.cnt, b.names i = name

/-- The key that is there for a name is its own. -/
def Filled : Prop := ∀ i < b.cnt, b.keys i = keyOf hash (b.names i)

/-- What a thread counts on at its place. -/
def Knows : Pc → Prop
  | .copy _ i => i = b.cnt
  | .key name i => i = b.cnt ∧ b.names i = name
  | .count name i => i = b.cnt ∧ b.names i = name ∧ b.keys i = keyOf hash name
  | .munlock name ret | .funlock name ret | .done name ret =>
    ret ≠ 0 → ret = keyOf hash name ∧ b.Has name
  | _ => True

/-- Entries are added, and none changes. -/
structure Grows : Prop where
  cnt : b.cnt ≤ b'.cnt
  names : ∀ i < b.cnt, b'.names i = b.names i

variable {hash b b'} {name : Name} {pc : Pc}

theorem Has.grows (h : b.Has name) (hg : b.Grows b') : b'.Has name := by
  obtain ⟨i, hi, hname⟩ := h
  exact ⟨i, Nat.lt_of_lt_of_le hi hg.cnt, (hg.names i hi).trans hname⟩

/-- Only who is inside counts on more than what is in the table. -/
theorem Knows.grows (h : b.Knows hash pc) (hout : ¬pc.Inside) (hg : b.Grows b') : b'.Knows hash pc := by
  cases pc with
  | funlock name ret | done name ret => exact fun hret => ⟨(h hret).1, (h hret).2.grows hg⟩
  | idle | look name i | mutex name | file name => trivial
  | test name | point name | copy name i | key name i | count name i | munlock name ret =>
    exact (hout trivial).elim

theorem lookup_of_has (h : b.Filled hash) (hhas : b.Has name) : b.lookup name = keyOf hash name := by
  obtain ⟨i, hi, hname⟩ := hhas
  rw [lookup]
  cases hfind : (List.range b.cnt).find? fun i => b.names i = name with
  | none =>
    have hno := List.find?_eq_none.mp hfind i (List.mem_range.mpr hi)
    simp [hname] at hno
  | some j =>
    have hj := List.mem_range.mp (List.mem_of_find?_eq_some hfind)
    have hnamej : b.names j = name := by simpa using List.find?_some hfind
    rw [Option.elim_some, h j hj, hnamej]

end Table

/-- `call`: `registerQueue`; `step`: the next line; `exit`: a process ends, and the kernel
takes its byte. -/
inductive Move (T P : Type) where
  | call (t : T) (name : Name)
  | step (t : T)
  | exit (p : P)

section Step

variable {T P : Type} [DecidableEq T] [DecidableEq P] (hash : Name → Nat) (proc : T → P)

namespace Registry

def goto (s : Registry T P) (t : T) (pc : Pc) : Registry T P :=
  { s with pcs := Function.update s.pcs t pc }

/-- mirrors io/CMemoryQueueBase.cpp:130-156,180-225 -/
def line (s : Registry T P) (t : T) : Registry T P :=
  match s.pcs t with
  | .idle => s
  | .look name i =>
    if i < s.table.cnt then
      if s.table.names i = name then
        if 0 < s.table.keys i then s.goto t (.done name (s.table.keys i)) else s.goto t (.mutex name)
      else s.goto t (.look name (i + 1))
    else s.goto t (.mutex name)
  | .mutex name => { s.goto t (.file name) with mutex := Function.update s.mutex (proc t) (some t) }
  | .file name => { s.goto t (.test name) with owner := some (proc t) }
  | .test name => if MAX_QUEUE ≤ s.table.cnt then s.goto t (.munlock name 0) else s.goto t (.point name)
  | .point name => s.goto t (.copy name s.table.cnt)
  | .copy name i =>
    { s.goto t (.key name i) with
      table := { s.table with names := Function.update s.table.names i name } }
  | .key name i =>
    { s.goto t (.count name i) with
      table := { s.table with keys := Function.update s.table.keys i (keyOf hash name) } }
  | .count name _ =>
    { s.goto t (.munlock name (keyOf hash name)) with table := { s.table with cnt := s.table.cnt + 1 } }
  -- the mutex goes before the byte
  | .munlock name ret => { s.goto t (.funlock name ret) with mutex := Function.update s.mutex (proc t) none }
  | .funlock name ret =>
    { s.goto t (.done name ret) with owner := if s.owner = some (proc t) then none else s.owner }
  | .done _ _ => s

def next (s : Registry T P) : Move T P → Registry T P
  | .call t name =>
    if MAX_NAME_SIZE ≤ name.1.length then s.goto t (.done name 0) else s.goto t (.look name 0)
  | .step t => s.line hash proc t
  | .exit p =>
    { s with
      pcs := fun t => if proc t = p then .idle else s.pcs t
      mutex := Function.update s.mutex p none
      owner := if s.owner = some p then none else s.owner }

/-- A thread waits for the mutex of its process, and for the byte while another process
has it. -/
def Able (s : Registry T P) : Move T P → Prop
  | .call t _ =>
    match s.pcs t with
    | .idle | .done _ _ => True
    | _ => False
  | .step t =>
    match s.pcs t with
    | .idle | .done _ _ => False
    | .mutex _ => s.mutex (proc t) = none
    | .file _ => s.owner = none ∨ s.owner = some (proc t)
    | _ => True
  | .exit _ => True

def sys : Sys (Registry T P) (Move T P) where
  start s := s = {}
  ok := Able proc
  next := next hash proc

/-- Who has been given a key finds it, and so does everybody else. -/
def Kept (s : Registry T P) : Prop :=
  ∀ t name ret, s.pcs t = .done name ret → ret ≠ 0 → ret = keyOf hash name ∧ s.table.lookup name = ret

def Exclusive (s : Registry T P) : Prop :=
  ∀ t t', (s.pcs t).Inside → (s.pcs t').Inside → t = t'

end Registry

end Step

section Inv

variable {T P : Type} {hash : Name → Nat} {proc : T → P} {t t' : T}

/-! ### The two locks -/

/-- Between `pthread_mutex_lock` and `pthread_mutex_unlock`. -/
def Pc.Held : Pc → Prop
  | .file _ => True
  | pc => pc.Inside

/-- Between the two `fcntl`. -/
def Pc.Owns : Pc → Prop
  | .funlock _ _ => True
  | pc => pc.Inside

theorem Pc.Inside.held {pc : Pc} (h : pc.Inside) : pc.Held := by
  cases pc <;> simp_all [Pc.Held, Pc.Inside]

theorem Pc.Inside.owns {pc : Pc} (h : pc.Inside) : pc.Owns := by
  cases pc <;> simp_all [Pc.Owns, Pc.Inside]

def Mutexed (proc : T → P) (pcs : T → Pc) (mutex : P → Option T) : Prop :=
  ∀ t, (pcs t).Held ↔ mutex (proc t) = some t

def Owned (proc : T → P) (pcs : T → Pc) (owner : Option P) : Prop :=
  ∀ p, owner = some p ↔ ∃ t, proc t = p ∧ (pcs t).Owns

/-- Every thread is alone in its process, or there is one process. -/
def Apart (proc : T → P) : Prop := Function.Injective proc ∨ ∀ t t', proc t = proc t'

theorem Mutexed.single {pcs : T → Pc} {mutex : P → Option T} (h : Mutexed proc pcs mutex)
    (hp : proc t = proc t') (ht : (pcs t).Held) (ht' : (pcs t').Held) : t = t' := by
  have hm := (h t).mp ht
  rw [hp, (h t').mp ht'] at hm
  exact (Option.some.inj hm).symm

section Exit

variable [DecidableEq P]

theorem Mutexed.exit {pcs : T → Pc} {mutex : P → Option T} (h : Mutexed proc pcs mutex) (p : P) :
    Mutexed proc (fun t => if proc t = p then .idle else pcs t) (Function.update mutex p none) := by
  intro t
  by_cases hp : proc t = p
  · simp [hp, Pc.Held, Pc.Inside]
  · simp [hp, h t]

theorem Owned.exit {pcs : T → Pc} {owner : Option P} (h : Owned proc pcs owner) (p : P) :
    Owned proc (fun t => if proc t = p then .idle else pcs t) (if owner = some p then none else owner) := by
  intro q
  by_cases hq : q = p
  · subst hq
    refine iff_of_false (by split <;> simp_all) ?_
    rintro ⟨t, rfl, ht⟩
    simp [Pc.Owns, Pc.Inside] at ht
  · have howner : (if owner = some p then none else owner) = some q ↔ owner = some q := by
      split
      · rename_i heq
        simp [heq, Ne.symm hq]
      · rfl
    rw [howner, h q]
    refine exists_congr fun t => and_congr_right fun hp => ?_
    have hpt : proc t ≠ p := hp ▸ hq
    simp [hpt]

end Exit

variable [DecidableEq T]

theorem Mutexed.goto {pcs : T → Pc} {mutex : P → Option T} {pc : Pc} (h : Mutexed proc pcs mutex)
    (hsame : pc.Held ↔ (pcs t).Held) : Mutexed proc (Function.update pcs t pc) mutex := by
  intro t'
  rcases eq_or_ne t' t with rfl | hne
  · rw [Function.update_self, hsame, h t']
  · rw [Function.update_of_ne hne, h t']

theorem Owned.goto {pcs : T → Pc} {owner : Option P} {pc : Pc} (h : Owned proc pcs owner)
    (hsame : pc.Owns ↔ (pcs t).Owns) : Owned proc (Function.update pcs t pc) owner := by
  intro p
  rw [h p]
  refine exists_congr fun t' => and_congr_right fun _ => ?_
  rcases eq_or_ne t' t with rfl | hne
  · rw [Function.update_self, hsame]
  · rw [Function.update_of_ne hne]

theorem Owned.take {pcs : T → Pc} {owner : Option P} {pc : Pc} (h : Owned proc pcs owner)
    (hfree : owner = none ∨ owner = some (proc t)) (hpc : pc.Owns) :
    Owned proc (Function.update pcs t pc) (some (proc t)) := by
  intro p
  constructor
  · intro hp
    exact ⟨t, Option.some.inj hp, by rwa [Function.update_self]⟩
  · rintro ⟨t', rfl, ht'⟩
    rcases eq_or_ne t' t with rfl | hne
    · rfl
    · rw [Function.update_of_ne hne] at ht'
      have howner := (h (proc t')).mpr ⟨t', rfl, ht'⟩
      rcases hfree with hfree | hfree
      · rw [hfree] at howner
        cases howner
      · rw [← hfree, howner]

variable [DecidableEq P]

theorem Mutexed.take {pcs : T → Pc} {mutex : P → Option T} {pc : Pc} (h : Mutexed proc pcs mutex)
    (hfree : mutex (proc t) = none) (hpc : pc.Held) :
    Mutexed proc (Function.update pcs t pc) (Function.update mutex (proc t) (some t)) := by
  intro t'
  rcases eq_or_ne t' t with rfl | hne
  · simp [hpc]
  · rw [Function.update_of_ne hne, h t']
    by_cases hp : proc t' = proc t
    · simp [hp, hfree, hne.symm]
    · rw [Function.update_of_ne hp]

theorem Mutexed.give {pcs : T → Pc} {mutex : P → Option T} {pc : Pc} (h : Mutexed proc pcs mutex)
    (ht : (pcs t).Held) (hpc : ¬pc.Held) :
    Mutexed proc (Function.update pcs t pc) (Function.update mutex (proc t) none) := by
  intro t'
  rcases eq_or_ne t' t with rfl | hne
  · simp [hpc]
  · rw [Function.update_of_ne hne]
    by_cases hp : proc t' = proc t
    · rw [hp, Function.update_self]
      exact iff_of_false (fun ht' => hne (h.single hp ht' ht)) (by simp)
    · rw [Function.update_of_ne hp, h t']

theorem Owned.give {pcs : T → Pc} {owner : Option P} {pc : Pc} (h : Owned proc pcs owner)
    (hinj : Function.Injective proc) (ht : (pcs t).Owns) (hpc : ¬pc.Owns) :
    Owned proc (Function.update pcs t pc) (if owner = some (proc t) then none else owner) := by
  have howner := (h (proc t)).mpr ⟨t, rfl, ht⟩
  rw [if_pos howner]
  intro p
  refine iff_of_false (by simp) ?_
  rintro ⟨t', rfl, ht'⟩
  rcases eq_or_ne t' t with rfl | hne
  · rw [Function.update_self] at ht'
    exact hpc ht'
  · rw [Function.update_of_ne hne] at ht'
    have howner' := (h (proc t')).mpr ⟨t', rfl, ht'⟩
    rw [howner] at howner'
    exact hne (hinj (Option.some.inj howner').symm)

namespace Registry

variable {s s' : Registry T P} {name : Name} {e : Move T P}

theorem mutexed_next (h : Mutexed proc s.pcs s.mutex) (hable : s.Able proc e) :
    Mutexed proc (s.next hash proc e).pcs (s.next hash proc e).mutex := by
  cases e with
  | call t name =>
    have hout : ¬(s.pcs t).Held := by
      rw [Able] at hable
      cases ht : s.pcs t <;> simp_all [Pc.Held, Pc.Inside]
    rw [next]
    split <;> exact h.goto (iff_of_false id hout)
  | exit p => exact h.exit p
  | step t =>
    rw [Able] at hable
    rw [next, line]
    cases ht : s.pcs t with
    | idle | done name ret => exact h
    | look name i =>
      have hout : ¬(s.pcs t).Held := by simp [ht, Pc.Held, Pc.Inside]
      dsimp only
      split_ifs <;> exact h.goto (iff_of_false id hout)
    | mutex name =>
      simp only [ht] at hable
      exact h.take hable trivial
    | test name =>
      dsimp only
      split <;> exact h.goto (by simp [ht, Pc.Held, Pc.Inside])
    | munlock name ret => exact h.give (by simp [ht, Pc.Held, Pc.Inside]) id
    | file name | point name | copy name i | key name i | count name i | funlock name ret =>
      exact h.goto (by simp [ht, Pc.Held, Pc.Inside])

theorem owned_next (hinj : Function.Injective proc) (h : Owned proc s.pcs s.owner) (hable : s.Able proc e) :
    Owned proc (s.next hash proc e).pcs (s.next hash proc e).owner := by
  cases e with
  | call t name =>
    have hout : ¬(s.pcs t).Owns := by
      rw [Able] at hable
      cases ht : s.pcs t <;> simp_all [Pc.Owns, Pc.Inside]
    rw [next]
    split <;> exact h.goto (iff_of_false id hout)
  | exit p => exact h.exit p
  | step t =>
    rw [Able] at hable
    rw [next, line]
    cases ht : s.pcs t with
    | idle | done name ret => exact h
    | look name i =>
      have hout : ¬(s.pcs t).Owns := by simp [ht, Pc.Owns, Pc.Inside]
      dsimp only
      split_ifs <;> exact h.goto (iff_of_false id hout)
    | file name =>
      simp only [ht] at hable
      exact h.take hable trivial
    | test name =>
      dsimp only
      split <;> exact h.goto (by simp [ht, Pc.Owns, Pc.Inside])
    | funlock name ret => exact h.give hinj (by simp [ht, Pc.Owns]) id
    | mutex name | point name | copy name i | key name i | count name i | munlock name ret =>
      exact h.goto (by simp [ht, Pc.Owns, Pc.Inside])

/-! ### Both together -/

structure TableInv (hash : Name → Nat) (s : Registry T P) : Prop where
  filled : s.table.Filled hash
  knows : ∀ t, s.table.Knows hash (s.pcs t)

omit [DecidableEq P] in
/-- A line that leaves the table. -/
theorem TableInv.goto {pc : Pc} {mutex : P → Option T} {owner : Option P} (h : s.TableInv hash)
    (hpc : s.table.Knows hash pc) :
    TableInv hash { s.goto t pc with mutex := mutex, owner := owner } where
  filled := h.filled
  knows t' := by
    rcases eq_or_ne t' t with rfl | hne
    · simpa [Registry.goto] using hpc
    · simpa [Registry.goto, hne] using h.knows t'

omit [DecidableEq P] in
/-- A line inside, with nobody else there. -/
theorem TableInv.inside {pc : Pc} {b : Table} (h : s.TableInv hash) (hexcl : s.Exclusive)
    (ht : (s.pcs t).Inside) (hgrows : s.table.Grows b) (hfilled : b.Filled hash) (hpc : b.Knows hash pc) :
    TableInv hash { s.goto t pc with table := b } where
  filled := hfilled
  knows t' := by
    rcases eq_or_ne t' t with rfl | hne
    · simpa [Registry.goto] using hpc
    · have hout : ¬(s.pcs t').Inside := fun ht' => hne (hexcl t' t ht' ht)
      simpa [Registry.goto, hne] using (h.knows t').grows hout hgrows

theorem TableInv.exit (h : s.TableInv hash) (p : P) : (s.next hash proc (.exit p)).TableInv hash where
  filled := h.filled
  knows t := by
    by_cases hp : proc t = p
    · simp [next, hp, Table.Knows]
    · simpa [next, hp] using h.knows t

theorem tableInv_next (h : s.TableInv hash) (hexcl : s.Exclusive) : (s.next hash proc e).TableInv hash := by
  cases e with
  | call t name =>
    rw [next]
    split
    · exact h.goto fun hret => absurd rfl hret
    · exact h.goto trivial
  | exit p => exact h.exit p
  | step t =>
    have hknows := h.knows t
    rw [next, line]
    cases ht : s.pcs t with
    | idle | done name ret => exact h
    | look name i =>
      dsimp only
      split_ifs with hi hname hkey
      · refine h.goto fun _ => ⟨?_, i, hi, hname⟩
        rw [h.filled i hi, hname]
      · exact h.goto trivial
      · exact h.goto trivial
      · exact h.goto trivial
    | mutex name | file name => exact h.goto trivial
    | test name =>
      dsimp only
      split
      · exact h.goto fun hret => absurd rfl hret
      · exact h.goto trivial
    | point name => exact h.goto rfl
    | copy name i =>
      rw [ht] at hknows
      obtain rfl : i = s.table.cnt := hknows
      have hnames : ∀ j < s.table.cnt, Function.update s.table.names s.table.cnt name j = s.table.names j :=
        fun j hj => Function.update_of_ne (Nat.ne_of_lt hj) _ _
      refine h.inside hexcl (by simp [ht, Pc.Inside]) ⟨Nat.le_refl _, hnames⟩ (fun j hj => ?_)
        ⟨rfl, Function.update_self _ _ _⟩
      exact (h.filled j hj).trans (congrArg (keyOf hash) (hnames j hj).symm)
    | key name i =>
      rw [ht] at hknows
      obtain ⟨rfl, hname⟩ := hknows
      refine h.inside hexcl (by simp [ht, Pc.Inside]) ⟨Nat.le_refl _, fun _ _ => rfl⟩ (fun j hj => ?_)
        ⟨rfl, hname, Function.update_self _ _ _⟩
      exact (Function.update_of_ne (Nat.ne_of_lt hj) _ _).trans (h.filled j hj)
    | count name i =>
      rw [ht] at hknows
      obtain ⟨rfl, hname, hkey⟩ := hknows
      refine h.inside hexcl (by simp [ht, Pc.Inside]) ⟨Nat.le_succ _, fun _ _ => rfl⟩ (fun j hj => ?_)
        fun _ => ⟨rfl, s.table.cnt, Nat.lt_succ_self _, hname⟩
      rcases Nat.lt_or_eq_of_le (Nat.le_of_lt_succ hj) with hj | rfl
      · exact h.filled j hj
      · exact hkey.trans (congrArg (keyOf hash) hname.symm)
    | munlock name ret | funlock name ret =>
      rw [ht] at hknows
      exact h.goto hknows

omit [DecidableEq T] [DecidableEq P] in
theorem TableInv.kept (h : s.TableInv hash) : s.Kept hash := by
  intro t name ret ht hret
  have hknows := h.knows t
  rw [ht] at hknows
  obtain ⟨hkey, hhas⟩ := hknows hret
  exact ⟨hkey, (Table.lookup_of_has h.filled hhas).trans hkey.symm⟩

theorem mutexed_of_reachable (h : (sys hash proc).Reachable s) : Mutexed proc s.pcs s.mutex := by
  refine (sys hash proc).invariant (I := fun s => Mutexed proc s.pcs s.mutex) ?_ (fun _ _ => mutexed_next) h
  rintro _ rfl t
  simp [Pc.Held, Pc.Inside]

theorem owned_of_reachable (hinj : Function.Injective proc) (h : (sys hash proc).Reachable s) :
    Owned proc s.pcs s.owner := by
  refine (sys hash proc).invariant (I := fun s => Owned proc s.pcs s.owner) ?_
    (fun _ _ => owned_next hinj) h
  rintro _ rfl p
  simp [Pc.Owns, Pc.Inside]

theorem exclusive_of_apart (hapart : Apart proc) (h : (sys hash proc).Reachable s) : s.Exclusive := by
  intro t t' ht ht'
  rcases hapart with hinj | hone
  · have howned := owned_of_reachable hinj h
    have howner := (howned (proc t)).mpr ⟨t, rfl, ht.owns⟩
    rw [(howned (proc t')).mpr ⟨t', rfl, ht'.owns⟩] at howner
    exact hinj (Option.some.inj howner).symm
  · exact (mutexed_of_reachable h).single (hone t t') ht.held ht'.held

theorem tableInv_of_apart (hapart : Apart proc) (h : (sys hash proc).Reachable s) : s.TableInv hash := by
  refine ((sys hash proc).invariant (I := fun s => (sys hash proc).Reachable s ∧ s.TableInv hash) ?_ ?_ h).2
  · rintro _ rfl
    exact ⟨⟨{}, [], rfl, trivial, rfl⟩, fun i hi => absurd hi (Nat.not_lt_zero i), fun t => trivial⟩
  · rintro s e ⟨hreach, hinv⟩ hok
    exact ⟨hreach.next hok, tableInv_next hinv (exclusive_of_apart hapart hreach)⟩

end Registry

/-! ### Two threads of one process -/

/-- `x` gives back the mutex, `y` of the same process takes it and has the byte already,
`x` gives the byte back, and `z` takes it. -/
def intrude (x y z : T) (a b : Name) : List (Move T P) :=
  [.call x a, .call y b, .call z a, .step x, .step y, .step z, .step x, .step x, .step x, .step x,
    .step x, .step x, .step x, .step x, .step y, .step y, .step x, .step z, .step z]

/-- `y` and `z` then both take the entry behind the one of `x`. -/
def overwrite (y z : T) : List (Move T P) :=
  [.step y, .step y, .step z, .step z, .step y, .step y, .step z, .step y, .step y, .step y]

omit [DecidableEq T] [DecidableEq P] in
theorem not_apart_iff :
    ¬Apart proc ↔ ∃ x y z, x ≠ y ∧ proc y = proc x ∧ proc z ≠ proc x := by
  unfold Apart Function.Injective
  push Not
  constructor
  · rintro ⟨⟨x, y, hp, hxy⟩, u, v, hne⟩
    by_cases hu : proc u = proc x
    · exact ⟨x, y, v, hxy, hp.symm, fun hv => hne (hu.trans hv.symm)⟩
    · exact ⟨x, y, u, hxy, hp.symm, hu⟩
  · rintro ⟨x, y, z, hxy, hp, hz⟩
    exact ⟨⟨x, y, hp.symm, hxy⟩, z, x, hz⟩

section Intrude

variable {x y z : T} {a b : Name}

theorem intrude_runs (hash : Name → Nat) (hxy : x ≠ y) (hp : proc y = proc x) (hz : proc z ≠ proc x)
    (ha : ¬MAX_NAME_SIZE ≤ a.1.length) (hb : ¬MAX_NAME_SIZE ≤ b.1.length) :
    (Registry.sys hash proc).Admits {} (intrude x y z a b) ∧
      let s := (Registry.sys hash proc).exec {} (intrude x y z a b)
      s.pcs y = .test b ∧ s.pcs z = .test a ∧ s.owner = some (proc z) ∧ s.table.cnt = 1 ∧ s.table.names 0 = a := by
  have hxz : x ≠ z := fun h => hz (h ▸ rfl)
  have hyz : y ≠ z := fun h => hz (h ▸ hp)
  simp [intrude, Sys.Admits, Sys.exec, Registry.sys, Registry.Able, Registry.next, Registry.line, Registry.goto,
    ha, hb, hxy, hxz, hyz, hxy.symm, hxz.symm, hyz.symm, hp, hz, MAX_QUEUE]

theorem overwrite_runs (hash : Name → Nat) {s : Registry T P} (hyz : y ≠ z) (hp : proc z ≠ proc y) (hab : a ≠ b)
    (hy : s.pcs y = .test b) (hz : s.pcs z = .test a) (howner : s.owner = some (proc z))
    (hcnt : s.table.cnt = 1) (hname : s.table.names 0 = a) :
    (Registry.sys hash proc).Admits s (overwrite y z) ∧
      let s' := (Registry.sys hash proc).exec s (overwrite y z)
      s'.pcs y = .done b (keyOf hash b) ∧ s'.table.lookup b = 0 := by
  simp [overwrite, Sys.Admits, Sys.exec, Registry.sys, Registry.Able, Registry.next, Registry.line, Registry.goto,
    Table.lookup, List.range_succ, hy, hz, howner, hcnt, hname, hyz, hyz.symm, hp, hab, MAX_QUEUE]

end Intrude

/-- **When the registry is exclusive.** In every interleaving of the lines of all
`registerQueue` no two threads are inside, if and only if each thread is alone in its
process or there is one process. -/
theorem exclusive_iff (hash : Name → Nat) (proc : T → P) :
    (∀ s, (Registry.sys hash proc).Reachable s → s.Exclusive) ↔ Apart proc := by
  refine ⟨fun h => ?_, fun hapart s => Registry.exclusive_of_apart hapart⟩
  by_contra hapart
  obtain ⟨x, y, z, hxy, hp, hz⟩ := not_apart_iff.mp hapart
  obtain ⟨hadmits, hy, hzt, -⟩ := intrude_runs hash (a := ⟨[], List.not_mem_nil⟩)
    (b := ⟨[], List.not_mem_nil⟩) hxy hp hz (by decide) (by decide)
  have hyz := h _ ⟨{}, _, rfl, hadmits, rfl⟩ y z (by rw [hy]; trivial) (by rw [hzt]; trivial)
  exact hz (hyz ▸ hp)

/-- **When a registered name stays.** Whoever has been given a key finds the name in the
table with it, and so does every other, in every interleaving, if and only if each thread
is alone in its process or there is one process. -/
theorem kept_iff (hash : Name → Nat) (proc : T → P)
    (hkey : ∃ b : Name, b.1.length < MAX_NAME_SIZE ∧ keyOf hash b ≠ 0) :
    (∀ s, (Registry.sys hash proc).Reachable s → s.Kept hash) ↔ Apart proc := by
  refine ⟨fun h => ?_, fun hapart s hs => (Registry.tableInv_of_apart hapart hs).kept⟩
  obtain ⟨b, hb, hkey⟩ := hkey
  by_contra hapart
  obtain ⟨x, y, z, hxy, hp, hz⟩ := not_apart_iff.mp hapart
  obtain ⟨a, hab, ha⟩ : ∃ a : Name, a ≠ b ∧ ¬MAX_NAME_SIZE ≤ a.1.length := by
    by_cases hnil : b.1 = []
    · exact ⟨⟨[1], by decide⟩, fun heq => by simp [← heq] at hnil, by decide⟩
    · exact ⟨⟨[], List.not_mem_nil⟩, fun heq => hnil (by rw [← heq]), by decide⟩
  obtain ⟨hadmits, hy, hzt, howner, hcnt, hname⟩ :=
    intrude_runs hash hxy hp hz ha (Nat.not_le.mpr hb)
  obtain ⟨hadmits', hdone, hlost⟩ := overwrite_runs hash (fun heq : y = z => hz (heq ▸ hp)) (hp ▸ hz) hab
    hy hzt howner hcnt hname
  have hreach : (Registry.sys hash proc).Reachable
      ((Registry.sys hash proc).exec {} (intrude x y z a b ++ overwrite y z)) :=
    ⟨{}, _, rfl, (Sys.admits_append _ _ _ _).mpr ⟨hadmits, hadmits'⟩, rfl⟩
  rw [Sys.exec_append] at hreach
  have hkept := (h _ hreach y b _ hdone hkey).2
  rw [hlost] at hkept
  exact hkey hkept.symm

/-- Three threads in three processes, and with 0 and 1 in one process. -/
theorem kept_iff_three :
    (∀ s, (Registry.sys (fun _ => 0) (fun t : Fin 3 => t)).Reachable s → s.Kept fun _ => 0) ∧
      ¬∀ s, (Registry.sys (fun _ => 0) (fun t : Fin 3 => decide (t = 2))).Reachable s → s.Kept fun _ => 0 := by
  have hkey : ∃ b : Name, b.1.length < MAX_NAME_SIZE ∧ keyOf (fun _ => 0) b ≠ 0 :=
    ⟨⟨[], List.not_mem_nil⟩, by decide, by decide⟩
  refine ⟨(kept_iff (fun _ => 0) (fun t : Fin 3 => t) hkey).mpr (.inl fun _ _ h => h), ?_⟩
  rw [kept_iff (fun _ => 0) (fun t : Fin 3 => decide (t = 2)) hkey]
  exact not_apart_iff.mpr ⟨0, 1, 2, by decide, by decide, by decide⟩

end Inv

end NatFramework.Io.CMemoryQueueBase
