import NatFramework.Io.PageFifo
import NatFramework.Utility.CGlobalLock

/-!
# Writers under the global lock

`CGlobalSafeRawIOWriter` in several processes and threads: `init`, `write` and what is
between `prefetch` and `commit` or `discard` run behind `lock`, with the hash of the
path of the pages. Nothing else keeps the calls apart.

* `Inv`: whoever has stores to make is inside with the byte of the pages.
* `serial`: then the calls follow each other, as `World.shared` has it.
* `fifo_under_lock`: and the reader gets what has been written.
-/
namespace NatFramework.Io

open Lib Utility

/-- Thread `i` has the writer `i` of `world`. -/
structure Locked where
  locks : CGlobalLock.Locks := {}
  world : World

/-- A thread in `CGlobalLock`, and a store, a call or a load. -/
inductive LockedTurn where
  | lock (e : CGlobalLock.Move)
  | io (e : Turn)

def LockedTurn.io? : LockedTurn → Option Turn
  | .lock _ => none
  | .io e => some e

namespace Locked

/-- The call of thread `i` has stores to make. -/
def Busy (s : Locked) (i : Nat) : Prop := s.world.holder = i ∧ s.world.stores ≠ []

variable (proc : Nat → Nat) (fileSize hash : Nat)

/-- A call is made behind `lock`, and `unlock` is called behind it. Nobody dies.
mirrors io/CGlobalSafeRawIOWriter.cpp:13-57 -/
def Able (s : Locked) : LockedTurn → Prop
  | .lock e => (s.locks.Able proc e ∧ e.Granted) ∧
      match e with
      | .unset t => ¬s.Busy t
      | .exit _ => False
      | _ => True
  | .io (.init i _) => s.locks.pcs i = .inside (hash % fileSize) ∧ ¬s.Busy i
  | .io (.call i op _) => s.locks.pcs i = .inside (hash % fileSize) ∧ ¬s.Busy i ∧
      (s.world.writers i).fd = true ∧ op.Proper
  | .io (.die _) => False
  | .io e => s.world.Able e

def next (s : Locked) : LockedTurn → Locked
  | .lock e => { s with locks := s.locks.next proc fileSize e }
  | .io e => { s with world := s.world.next e }

def sys : Sys Locked LockedTurn where
  start s := s.locks = {} ∧ s.world.Start
  ok := Able proc fileSize hash
  next := next proc fileSize

instance busyDecidable (s : Locked) (i : Nat) : Decidable (s.Busy i) :=
  inferInstanceAs (Decidable (s.world.holder = i ∧ s.world.stores ≠ []))

instance lockedDecidable (s : Locked) (e : LockedTurn) : Decidable ((sys proc fileSize hash).ok s e) :=
  match e with
  | .lock (.unset t) => inferInstanceAs (Decidable ((s.locks.Able proc (.unset t) ∧ _) ∧ ¬s.Busy t))
  | .lock (.exit p) => inferInstanceAs (Decidable ((s.locks.Able proc (.exit p) ∧ _) ∧ False))
  | .lock (.lock t h) => inferInstanceAs (Decidable ((s.locks.Able proc (.lock t h) ∧ _) ∧ True))
  | .lock (.spin t) => inferInstanceAs (Decidable ((s.locks.Able proc (.spin t) ∧ _) ∧ True))
  | .lock (.grant t) => inferInstanceAs (Decidable ((s.locks.Able proc (.grant t) ∧ _) ∧ True))
  | .lock (.fail t) => inferInstanceAs (Decidable ((s.locks.Able proc (.fail t) ∧ _) ∧ True))
  | .lock (.clear t) => inferInstanceAs (Decidable ((s.locks.Able proc (.clear t) ∧ _) ∧ True))
  | .io (.init i _) => inferInstanceAs (Decidable (s.locks.pcs i = .inside (hash % fileSize) ∧ ¬s.Busy i))
  | .io (.call i op _) => inferInstanceAs (Decidable (s.locks.pcs i = .inside (hash % fileSize) ∧
      ¬s.Busy i ∧ (s.world.writers i).fd = true ∧ op.Proper))
  | .io (.die _) => isFalse id
  | .io .store => inferInstanceAs (Decidable (s.world.Able .store))
  | .io (.ask c) => inferInstanceAs (Decidable (s.world.Able (.ask c)))
  | .io .load => inferInstanceAs (Decidable (s.world.Able .load))

/-- Who has stores to make is inside. -/
structure Inv (s : Locked) : Prop where
  locks : CGlobalLock.Inv proc s.locks
  inside : s.world.stores ≠ [] → s.locks.pcs s.world.holder = .inside (hash % fileSize)

variable {proc fileSize hash} {s : Locked} {e : LockedTurn} {es : List LockedTurn}

theorem inv_start (h : (sys proc fileSize hash).start s) : Inv proc fileSize hash s := by
  obtain ⟨hlocks, sizes, -, hworld⟩ := h
  refine ⟨hlocks ▸ CGlobalLock.inv_start, fun hne => ?_⟩
  rw [hworld] at hne
  exact absurd rfl hne

/-- Who is inside finds no call on. -/
theorem Inv.idle {i : Nat} (h : Inv proc fileSize hash s)
    (hi : s.locks.pcs i = .inside (hash % fileSize)) (hbusy : ¬s.Busy i) : s.world.stores = [] := by
  by_contra hne
  exact hbusy ⟨h.locks.exclusive (h.inside hne) hi, hne⟩

/-- What is done to the pages could be done where the calls follow each other. -/
theorem Inv.shared_ok {e : Turn} (h : Inv proc fileSize hash s)
    (hok : s.Able proc fileSize hash (.io e)) : World.shared.ok s.world e := by
  cases e with
  | init i nano => exact ⟨h.idle hok.1 hok.2, trivial⟩
  | call i op now => exact ⟨⟨h.idle hok.1 hok.2.1, hok.2.2⟩, trivial⟩
  | die i => exact hok.elim
  | store => exact ⟨hok, trivial⟩
  | ask c => exact ⟨hok, trivial⟩
  | load => exact ⟨hok, trivial⟩

/-- A thread that is not inside goes on, or one that has no stores to make. -/
theorem Inv.move {m : CGlobalLock.Move} (h : Inv proc fileSize hash s)
    (hok : s.Able proc fileSize hash (.lock m)) :
    Inv proc fileSize hash (s.next proc fileSize (.lock m)) := by
  obtain ⟨⟨hable, hgranted⟩, hcall⟩ := hok
  refine ⟨h.locks.next hable hgranted, fun hne => ?_⟩
  have hinside : s.locks.pcs s.world.holder = .inside (hash % fileSize) := h.inside hne
  -- the thread that moves is not the one that is inside
  have hother : ∀ (t : Nat) (pc : CGlobalLock.Pc), t ≠ s.world.holder →
      Function.update s.locks.pcs t pc s.world.holder = .inside (hash % fileSize) := by
    intro t pc ht
    rw [Function.update_of_ne (Ne.symm ht)]
    exact hinside
  have hne_of : ∀ (t : Nat) (pc : CGlobalLock.Pc), s.locks.pcs t = pc →
      pc ≠ .inside (hash % fileSize) → t ≠ s.world.holder := by
    rintro t pc ht hpc rfl
    exact hpc (ht.symm.trans hinside)
  rw [next]
  cases m with
  | lock t hash' => exact hother t _ (hne_of t _ hable (by simp))
  | spin t =>
    obtain ⟨b, ht⟩ := hable
    simp only [CGlobalLock.Locks.next, ht]
    split
    · exact hinside
    · exact hother t _ (hne_of t _ ht (by simp))
  | grant t =>
    obtain ⟨b, ht, -⟩ := hable
    simp only [CGlobalLock.Locks.next, ht]
    exact hother t _ (hne_of t _ ht (by simp))
  | fail t => exact hgranted.elim
  | unset t =>
    obtain ⟨b, ht⟩ := hable
    simp only [CGlobalLock.Locks.next, ht]
    exact hother t _ fun heq => hcall ⟨heq.symm, hne⟩
  | clear t =>
    have ht : s.locks.pcs t = .leave := hable
    simp only [CGlobalLock.Locks.next, ht]
    exact hother t _ (hne_of t _ ht (by simp))
  | exit p => exact hcall.elim

theorem Inv.next (h : Inv proc fileSize hash s) (hok : s.Able proc fileSize hash e) :
    Inv proc fileSize hash (s.next proc fileSize e) := by
  cases e with
  | lock m => exact h.move hok
  | io e =>
    refine ⟨h.locks, ?_⟩
    cases e with
    | init i nano => exact fun _ => hok.1
    | call i op now => exact fun _ => hok.1
    | store =>
      intro hne
      have hstores : s.world.stores ≠ [] := hok
      have hholder : (s.world.next .store).holder = s.world.holder := World.holder_next _ _
      rw [Locked.next]
      dsimp only
      rw [hholder]
      exact h.inside hstores
    | die i => exact hok.elim
    | ask c => exact h.inside
    | load => exact h.inside

/-- **The lock makes the calls follow each other.** Whatever threads and processes do
behind `CGlobalLock`, the pages see a run in which no call begins while another is on. -/
theorem serial (h0 : (sys proc fileSize hash).start s) (ha : (sys proc fileSize hash).Admits s es) :
    World.shared.Admits s.world (es.filterMap LockedTurn.io?) ∧
      ((sys proc fileSize hash).exec s es).world =
        World.shared.exec s.world (es.filterMap LockedTurn.io?) := by
  have hinv := inv_start h0
  clear h0
  induction es generalizing s with
  | nil => exact ⟨trivial, rfl⟩
  | cons e es ih =>
    obtain ⟨hok, hrest⟩ := ha
    obtain ⟨hadm, hexec⟩ := ih hrest (hinv.next hok)
    cases e with
    | lock m => exact ⟨hadm, hexec⟩
    | io e => exact ⟨⟨hinv.shared_ok hok, hadm⟩, hexec⟩

/-- A call of a thread behind `lock`. -/
def behindLock (t : Nat) (es : List Turn) : List LockedTurn :=
  [.lock (.lock t 70), .lock (.spin t), .lock (.grant t)] ++ es.map .io ++
    [.lock (.unset t), .lock (.clear t)]

/-- Two processes of one thread each open the pages and write, and the second one asks
for the byte while the first one writes. -/
def contended : List LockedTurn :=
  behindLock 0 (.init 0 5 :: List.replicate 9 .store) ++ behindLock 1 [.init 1 5] ++
    .lock (.lock 1 6) :: .lock (.spin 1) :: behindLock 0 (World.writing [1] 5) ++
      .lock (.grant 1) :: .io (.call 1 (.write [2]) fun _ => 6) :: List.replicate 6 (.io .store)

theorem serial_contended :
    World.shared.Admits (World.fresh 90) (contended.filterMap LockedTurn.io?) ∧
      (contended.filterMap LockedTurn.io?).length = 25 := by
  have hadm : (sys id 64 6).Admits ⟨{}, World.fresh 90⟩ contended := by decide +kernel
  exact ⟨(serial ⟨rfl, World.fresh_start (by decide)⟩ hadm).1, rfl⟩

/-- **Nothing is lost between processes**, as in `World.shared` with the lock in the
place of the order of the calls. -/
theorem fifo_under_lock (h0 : (sys proc fileSize hash).start s)
    (ha : (sys proc fileSize hash).Admits s es)
    (hp : AtEach (fun pre e => ∀ t ∈ e.io?, ((sys proc fileSize hash).exec s pre).world.Fits t ∧
      ((sys proc fileSize hash).exec s pre).world.UpToDate t) es) :
    ((sys proc fileSize hash).exec s es).world.Fifo ∧ ∀ pre post, es = pre ++ post →
      ((sys proc fileSize hash).exec s pre).world.group.Keeps
        ((sys proc fileSize hash).exec s es).world.group := by
  have hstep : ∀ s e, (Inv proc fileSize hash s ∧ ∃ fss, World.Shared fss s.world) →
      (sys proc fileSize hash).ok s e → (∀ t ∈ e.io?, s.world.Fits t ∧ s.world.UpToDate t) →
      (Inv proc fileSize hash ((sys proc fileSize hash).next s e) ∧
          ∃ fss, World.Shared fss ((sys proc fileSize hash).next s e).world) ∧
        s.world.group.Keeps ((sys proc fileSize hash).next s e).world.group := by
    rintro s e ⟨hinv, fss, h⟩ hok hp
    cases e with
    | lock m => exact ⟨⟨hinv.move hok, fss, h⟩, .refl _⟩
    | io t =>
      obtain ⟨hfits, hdate⟩ := hp t rfl
      obtain ⟨hable, hlives⟩ := hinv.shared_ok hok
      obtain ⟨fss', h', hkeeps⟩ := h.next hable hlives hfits hdate
      exact ⟨⟨hinv.next hok, fss', h'⟩, hkeeps⟩
  obtain ⟨⟨-, fss, h⟩, hkeeps⟩ := (sys proc fileSize hash).related_run
    (R := fun s t => s.world.group.Keeps t.world.group) (fun _ => .refl _) (fun h h' => h.trans h')
    hstep s es ⟨inv_start h0, [], World.shared_start h0.2⟩ ha hp
  exact ⟨h.inv.delivers, hkeeps⟩

theorem fifo_under_lock_contended :
    ((sys id 64 6).exec ⟨{}, World.fresh 90⟩ contended).world.Fifo ∧
      ((sys id 64 6).exec ⟨{}, World.fresh 90⟩ contended).world.sent.length = 2 :=
  ⟨(fifo_under_lock ⟨rfl, World.fresh_start (by decide)⟩ (by decide +kernel)
    (atEach_iff_getElem.mpr (by decide +kernel))).1, by decide +kernel⟩

end Locked

end NatFramework.Io
