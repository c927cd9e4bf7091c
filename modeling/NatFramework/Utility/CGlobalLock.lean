import Mathlib.Logic.Function.Basic
import NatFramework.Lib.Run

/-!
# The global lock

`CGlobalLock` in all processes that share a lock file. Threads of one process exclude
each other by the flag, processes by the lock of a byte of the file, which the kernel
keeps for the process and not for the thread.

* `Inv`: who has the flag, and who has the byte. `Inv.next`: a step keeps it.
* `mutual_exclusion`: no two threads are inside with one byte, no thread of a
  process is while another one is with any, and the flag is a thread's of the process.
* `Inv.waits_for`: who cannot go on waits for a thread that can.
-/
namespace NatFramework.Utility

open Lib

namespace CGlobalLock

/-- Where a thread stands: before the call, in the loop of `test_and_set`, in
`F_SETLKW`, behind `lock`, and between the two lines of `unlock`. -/
inductive Pc where
  | out
  | spin (b : Nat)
  | wait (b : Nat)
  | inside (b : Nat)
  | leave
deriving DecidableEq

/-- `owner` is what the kernel keeps: the process that has the byte. -/
structure Locks where
  pcs : Nat → Pc := fun _ => .out
  flag : Nat → Bool := fun _ => false
  owner : Nat → Option Nat := fun _ => none

/-- `grant`: `F_SETLKW` returns with the lock; `fail`: it returns without it, as when a
signal comes. `exit`: a process ends, and the kernel takes its locks. -/
inductive Move where
  | lock (t hash : Nat)
  | spin (t : Nat)
  | grant (t : Nat)
  | fail (t : Nat)
  | unset (t : Nat)
  | clear (t : Nat)
  | exit (p : Nat)

variable (proc : Nat → Nat) (fileSize : Nat)

namespace Locks

/-- Thread `t` runs in process `proc t`, and gives back the byte that it has locked.
mirrors utility/CGlobalLock.cpp:49-61 and utility/utils.cpp:324-370 -/
def next (s : Locks) : Move → Locks
  | .lock t hash => { s with pcs := Function.update s.pcs t (.spin (hash % fileSize)) }
  | .spin t =>
    match s.pcs t with
    | .spin b =>
      -- `test_and_set` says what the flag was
      if s.flag (proc t) then s
      else
        { s with
          pcs := Function.update s.pcs t (.wait b)
          flag := Function.update s.flag (proc t) true }
    | _ => s
  | .grant t =>
    match s.pcs t with
    | .wait b =>
      { s with
        pcs := Function.update s.pcs t (.inside b)
        owner := Function.update s.owner b (some (proc t)) }
    | _ => s
  | .fail t =>
    match s.pcs t with
    -- `lock` does not look at what `setFileLock` returns
    | .wait b => { s with pcs := Function.update s.pcs t (.inside b) }
    | _ => s
  | .unset t =>
    match s.pcs t with
    | .inside b =>
      { s with
        pcs := Function.update s.pcs t .leave
        owner := if s.owner b = some (proc t) then Function.update s.owner b none else s.owner }
    | _ => s
  | .clear t =>
    match s.pcs t with
    | .leave =>
      { s with
        pcs := Function.update s.pcs t .out
        flag := Function.update s.flag (proc t) false }
    | _ => s
  | .exit p =>
    { pcs := fun t => if proc t = p then .out else s.pcs t
      flag := Function.update s.flag p false
      owner := fun b => if s.owner b = some p then none else s.owner b }

/-- `F_SETLKW` grants a byte that no other process has. -/
def Able (s : Locks) : Move → Prop
  | .lock t _ => s.pcs t = .out
  | .spin t => ∃ b, s.pcs t = .spin b
  | .grant t => ∃ b, s.pcs t = .wait b ∧ (s.owner b = none ∨ s.owner b = some (proc t))
  | .fail t => ∃ b, s.pcs t = .wait b
  | .unset t => ∃ b, s.pcs t = .inside b
  | .clear t => s.pcs t = .leave
  | .exit _ => True

end Locks

instance ableDecidable (proc : Nat → Nat) (s : Locks) : (e : Move) → Decidable (s.Able proc e)
  | .lock t _ => inferInstanceAs (Decidable (s.pcs t = .out))
  | .spin t =>
    match h : s.pcs t with
    | .spin b => isTrue ⟨b, h⟩
    | .out | .wait _ | .inside _ | .leave => isFalse fun ⟨_, hb⟩ => nomatch h.symm.trans hb
  | .grant t =>
    match h : s.pcs t with
    | .wait b =>
      decidable_of_iff (s.owner b = none ∨ s.owner b = some (proc t))
        ⟨fun ho => ⟨b, h, ho⟩, fun ⟨_, hb, ho⟩ => Pc.wait.inj (h.symm.trans hb) ▸ ho⟩
    | .out | .spin _ | .inside _ | .leave => isFalse fun ⟨_, hb, _⟩ => nomatch h.symm.trans hb
  | .fail t =>
    match h : s.pcs t with
    | .wait b => isTrue ⟨b, h⟩
    | .out | .spin _ | .inside _ | .leave => isFalse fun ⟨_, hb⟩ => nomatch h.symm.trans hb
  | .unset t =>
    match h : s.pcs t with
    | .inside b => isTrue ⟨b, h⟩
    | .out | .spin _ | .wait _ | .leave => isFalse fun ⟨_, hb⟩ => nomatch h.symm.trans hb
  | .clear t => inferInstanceAs (Decidable (s.pcs t = .leave))
  | .exit _ => isTrue trivial

/-- No `F_SETLKW` fails. -/
def Move.Granted : Move → Prop
  | .fail _ => False
  | _ => True

instance grantedDecidable : (e : Move) → Decidable e.Granted
  | .fail _ => isFalse id
  | .lock _ _ | .spin _ | .grant _ | .unset _ | .clear _ | .exit _ => isTrue trivial

def sys : Sys Locks Move where
  start s := s = {}
  ok s e := s.Able proc e ∧ e.Granted
  next := Locks.next proc fileSize

/-- Behind `test_and_set`, and before the flag is cleared. -/
def Pc.Flagged : Pc → Prop
  | .wait _ | .inside _ | .leave => True
  | .out | .spin _ => False

@[simp] theorem not_flagged_out : ¬Pc.out.Flagged := id
@[simp] theorem not_flagged_spin (b : Nat) : ¬(Pc.spin b).Flagged := id
@[simp] theorem flagged_wait (b : Nat) : (Pc.wait b).Flagged := trivial
@[simp] theorem flagged_inside (b : Nat) : (Pc.inside b).Flagged := trivial
@[simp] theorem flagged_leave : Pc.leave.Flagged := trivial

/-- The flag of a process is set by one of its threads, and a byte is kept for a process
with a thread inside. -/
structure Inv (s : Locks) : Prop where
  flagged : ∀ p, s.flag p = true ↔ ∃ t, proc t = p ∧ (s.pcs t).Flagged
  single : ∀ t t', proc t = proc t' → (s.pcs t).Flagged → (s.pcs t').Flagged → t = t'
  owned : ∀ b p, s.owner b = some p ↔ ∃ t, proc t = p ∧ s.pcs t = .inside b

variable {proc fileSize} {s : Locks}

theorem inv_start : Inv proc {} where
  flagged p := by simp
  single t t' _ h := h.elim
  owned b p := by simp

/-- A thread goes from one place to another, neither of which has flag or byte. -/
theorem Inv.goes {t : Nat} {pc : Pc} (h : Inv proc s) (hfrom : ¬(s.pcs t).Flagged) (hto : ¬pc.Flagged) :
    Inv proc { s with pcs := Function.update s.pcs t pc } := by
  have hsame : ∀ t', (Function.update s.pcs t pc t').Flagged ↔ (s.pcs t').Flagged := by
    intro t'
    rcases eq_or_ne t' t with rfl | hne
    · rw [Function.update_self]
      exact iff_of_false hto hfrom
    · rw [Function.update_of_ne hne]
  have hinside : ∀ t' b, Function.update s.pcs t pc t' = .inside b ↔ s.pcs t' = .inside b := by
    intro t' b
    rcases eq_or_ne t' t with rfl | hne
    · rw [Function.update_self]
      constructor
      · rintro rfl
        exact (hto trivial).elim
      · intro hb
        rw [hb] at hfrom
        exact (hfrom trivial).elim
    · rw [Function.update_of_ne hne]
  exact
    { flagged := fun p => by simp only [hsame, h.flagged p]
      single := fun t₁ t₂ hp h₁ h₂ => h.single t₁ t₂ hp ((hsame t₁).mp h₁) ((hsame t₂).mp h₂)
      owned := fun b p => by simp only [hinside, h.owned b p] }

theorem Inv.free (h : Inv proc s) {t t' : Nat} (hflag : s.flag (proc t) = false)
    (hp : proc t' = proc t) : ¬(s.pcs t').Flagged := by
  intro ht'
  have hset := (h.flagged (proc t)).mpr ⟨t', hp, ht'⟩
  rw [hflag] at hset
  cases hset

theorem Inv.spin {t b : Nat} (h : Inv proc s) (ht : s.pcs t = .spin b) (hflag : s.flag (proc t) = false) :
    Inv proc { s with
      pcs := Function.update s.pcs t (.wait b)
      flag := Function.update s.flag (proc t) true } where
  flagged p := by
    dsimp only
    rcases eq_or_ne p (proc t) with rfl | hne
    · rw [Function.update_self]
      exact iff_of_true rfl ⟨t, rfl, by rw [Function.update_self]; trivial⟩
    · rw [Function.update_of_ne hne, h.flagged p]
      refine exists_congr fun t' => and_congr_right fun hp => ?_
      have htt' : t' ≠ t := fun heq => hne (by rw [← hp, heq])
      rw [Function.update_of_ne htt']
  single t₁ t₂ hp h₁ h₂ := by
    dsimp only at h₁ h₂
    rcases eq_or_ne t₁ t with rfl | hne₁
    · by_contra hne
      rw [Function.update_of_ne (Ne.symm hne)] at h₂
      exact h.free hflag hp.symm h₂
    · rw [Function.update_of_ne hne₁] at h₁
      rcases eq_or_ne t₂ t with rfl | hne₂
      · exact absurd h₁ (h.free hflag hp)
      · rw [Function.update_of_ne hne₂] at h₂
        exact h.single t₁ t₂ hp h₁ h₂
  owned b' p := by
    dsimp only
    rw [h.owned b' p]
    refine exists_congr fun t' => and_congr_right fun _ => ?_
    rcases eq_or_ne t' t with rfl | hne
    · rw [Function.update_self, ht]
      exact iff_of_false nofun nofun
    · rw [Function.update_of_ne hne]

/-- A thread that keeps the flag goes on. -/
theorem Inv.keeps {t : Nat} {pc : Pc} {owner : Nat → Option Nat} (h : Inv proc s)
    (hfrom : (s.pcs t).Flagged) (hto : pc.Flagged)
    (howned : ∀ b p, owner b = some p ↔ ∃ t', proc t' = p ∧ Function.update s.pcs t pc t' = .inside b) :
    Inv proc { s with pcs := Function.update s.pcs t pc, owner := owner } := by
  have hsame : ∀ t', (Function.update s.pcs t pc t').Flagged ↔ (s.pcs t').Flagged := by
    intro t'
    rcases eq_or_ne t' t with rfl | hne
    · rw [Function.update_self]
      exact iff_of_true hto hfrom
    · rw [Function.update_of_ne hne]
  exact
    { flagged := fun p => by simp only [hsame, h.flagged p]
      single := fun t₁ t₂ hp h₁ h₂ => h.single t₁ t₂ hp ((hsame t₁).mp h₁) ((hsame t₂).mp h₂)
      owned := howned }

theorem Inv.grant {t b : Nat} (h : Inv proc s) (ht : s.pcs t = .wait b)
    (howner : s.owner b = none ∨ s.owner b = some (proc t)) :
    Inv proc { s with
      pcs := Function.update s.pcs t (.inside b)
      owner := Function.update s.owner b (some (proc t)) } := by
  have hflagged : (s.pcs t).Flagged := by rw [ht]; trivial
  -- the byte is not kept for the process itself: `t` would be inside
  have hnone : s.owner b = none := by
    refine howner.resolve_right fun hown => ?_
    obtain ⟨t', hp, ht'⟩ := (h.owned b (proc t)).mp hown
    obtain rfl : t' = t := h.single t' t hp (by rw [ht']; trivial) hflagged
    rw [ht] at ht'
    cases ht'
  refine h.keeps hflagged trivial fun b' p => ?_
  rcases eq_or_ne b' b with rfl | hne
  · rw [Function.update_self]
    constructor
    · intro hp
      exact ⟨t, Option.some.inj hp, Function.update_self _ _ _⟩
    · rintro ⟨t', rfl, ht'⟩
      rcases eq_or_ne t' t with rfl | hne
      · rfl
      · rw [Function.update_of_ne hne] at ht'
        have hown := (h.owned b' (proc t')).mpr ⟨t', rfl, ht'⟩
        rw [hnone] at hown
        cases hown
  · rw [Function.update_of_ne hne, h.owned b' p]
    refine exists_congr fun t' => and_congr_right fun _ => ?_
    rcases eq_or_ne t' t with rfl | ht'
    · rw [Function.update_self, ht]
      exact iff_of_false nofun fun heq => hne (Pc.inside.inj heq).symm
    · rw [Function.update_of_ne ht']

theorem Inv.unset {t b : Nat} (h : Inv proc s) (ht : s.pcs t = .inside b) :
    Inv proc { s with
      pcs := Function.update s.pcs t .leave
      owner := if s.owner b = some (proc t) then Function.update s.owner b none else s.owner } := by
  have hown : s.owner b = some (proc t) := (h.owned b (proc t)).mpr ⟨t, rfl, ht⟩
  rw [if_pos hown]
  refine h.keeps (by rw [ht]; trivial) trivial fun b' p => ?_
  rcases eq_or_ne b' b with rfl | hne
  · rw [Function.update_self]
    refine iff_of_false nofun ?_
    rintro ⟨t', -, ht'⟩
    rcases eq_or_ne t' t with rfl | hne
    · rw [Function.update_self] at ht'
      cases ht'
    · rw [Function.update_of_ne hne] at ht'
      have hown' := (h.owned b' (proc t')).mpr ⟨t', rfl, ht'⟩
      rw [hown] at hown'
      have hp : proc t' = proc t := (Option.some.inj hown').symm
      exact hne (h.single t' t hp (by rw [ht']; trivial) (by rw [ht]; trivial))
  · rw [Function.update_of_ne hne, h.owned b' p]
    refine exists_congr fun t' => and_congr_right fun _ => ?_
    rcases eq_or_ne t' t with rfl | ht'
    · rw [Function.update_self, ht]
      exact iff_of_false (fun heq => hne (Pc.inside.inj heq).symm) nofun
    · rw [Function.update_of_ne ht']

theorem Inv.clear {t : Nat} (h : Inv proc s) (ht : s.pcs t = .leave) :
    Inv proc { s with
      pcs := Function.update s.pcs t .out
      flag := Function.update s.flag (proc t) false } where
  flagged p := by
    dsimp only
    rcases eq_or_ne p (proc t) with rfl | hne
    · rw [Function.update_self]
      refine iff_of_false nofun ?_
      rintro ⟨t', hp, ht'⟩
      rcases eq_or_ne t' t with rfl | hne
      · rw [Function.update_self] at ht'
        exact ht'
      · rw [Function.update_of_ne hne] at ht'
        exact hne (h.single t' t hp ht' (by rw [ht]; trivial))
    · rw [Function.update_of_ne hne, h.flagged p]
      refine exists_congr fun t' => and_congr_right fun hp => ?_
      have htt' : t' ≠ t := fun heq => hne (by rw [← hp, heq])
      rw [Function.update_of_ne htt']
  single t₁ t₂ hp h₁ h₂ := by
    dsimp only at h₁ h₂
    rcases eq_or_ne t₁ t with rfl | hne₁
    · rw [Function.update_self] at h₁
      exact h₁.elim
    · rcases eq_or_ne t₂ t with rfl | hne₂
      · rw [Function.update_self] at h₂
        exact h₂.elim
      · rw [Function.update_of_ne hne₁] at h₁
        rw [Function.update_of_ne hne₂] at h₂
        exact h.single t₁ t₂ hp h₁ h₂
  owned b p := by
    dsimp only
    rw [h.owned b p]
    refine exists_congr fun t' => and_congr_right fun _ => ?_
    rcases eq_or_ne t' t with rfl | hne
    · rw [Function.update_self, ht]
      exact iff_of_false nofun nofun
    · rw [Function.update_of_ne hne]

theorem Inv.exit {p : Nat} (h : Inv proc s) : Inv proc (s.next proc fileSize (.exit p)) where
  flagged p' := by
    rw [Locks.next]
    dsimp only
    rcases eq_or_ne p' p with rfl | hne
    · rw [Function.update_self]
      refine iff_of_false nofun ?_
      rintro ⟨t, rfl, ht⟩
      rw [if_pos rfl] at ht
      exact ht
    · rw [Function.update_of_ne hne, h.flagged p']
      refine exists_congr fun t => and_congr_right fun hp => ?_
      rw [if_neg (hp ▸ hne)]
  single t₁ t₂ hp h₁ h₂ := by
    rw [Locks.next] at h₁ h₂
    dsimp only at h₁ h₂
    by_cases hp₁ : proc t₁ = p
    · rw [if_pos hp₁] at h₁
      exact h₁.elim
    · rw [if_neg hp₁] at h₁
      rw [if_neg (hp ▸ hp₁)] at h₂
      exact h.single t₁ t₂ hp h₁ h₂
  owned b p' := by
    rw [Locks.next]
    dsimp only
    rcases eq_or_ne p' p with rfl | hne
    · refine iff_of_false (fun hown => ?_) ?_
      · split at hown
        · cases hown
        · exact absurd hown ‹_›
      · rintro ⟨t, rfl, ht⟩
        rw [if_pos rfl] at ht
        cases ht
    · have hown : (if s.owner b = some p then none else s.owner b) = some p' ↔ s.owner b = some p' := by
        split
        · rename_i heq
          rw [heq]
          exact iff_of_false nofun fun h => hne (Option.some.inj h).symm
        · rfl
      rw [hown, h.owned b p']
      refine exists_congr fun t => and_congr_right fun hp => ?_
      rw [if_neg (hp ▸ hne)]

theorem Inv.next {e : Move} (h : Inv proc s) (hable : s.Able proc e) (hgranted : e.Granted) :
    Inv proc (s.next proc fileSize e) := by
  cases e with
  | lock t hash =>
    have hout : s.pcs t = .out := hable
    exact h.goes (by rw [hout]; exact id) id
  | spin t =>
    obtain ⟨b, ht⟩ := hable
    simp only [Locks.next, ht]
    split
    · exact h
    · exact h.spin ht (Bool.not_eq_true _ ▸ ‹_›)
  | grant t =>
    obtain ⟨b, ht, howner⟩ := hable
    simp only [Locks.next, ht]
    exact h.grant ht howner
  | fail t => exact hgranted.elim
  | unset t =>
    obtain ⟨b, ht⟩ := hable
    simp only [Locks.next, ht]
    exact h.unset ht
  | clear t =>
    have ht : s.pcs t = .leave := hable
    simp only [Locks.next, ht]
    exact h.clear ht
  | exit p => exact h.exit

/-- Two threads that are inside with one byte are one. -/
theorem Inv.exclusive {t t' b : Nat} (h : Inv proc s) (ht : s.pcs t = .inside b)
    (ht' : s.pcs t' = .inside b) : t = t' := by
  have hown := (h.owned b (proc t)).mpr ⟨t, rfl, ht⟩
  have hown' := (h.owned b (proc t')).mpr ⟨t', rfl, ht'⟩
  rw [hown] at hown'
  exact h.single t t' (Option.some.inj hown') (by rw [ht]; trivial) (by rw [ht']; trivial)

/-- `t` cannot make its next step. -/
def Locks.Stuck (proc : Nat → Nat) (s : Locks) (t : Nat) : Prop :=
  match s.pcs t with
  | .spin _ => s.flag (proc t) = true
  | .wait b => ∃ p, s.owner b = some p ∧ p ≠ proc t
  | .out | .inside _ | .leave => False

theorem Inv.wait_for {t b : Nat} (h : Inv proc s) (ht : s.pcs t = .wait b) (hstuck : s.Stuck proc t) :
    ∃ t', proc t' ≠ proc t ∧ s.pcs t' = .inside b := by
  rw [Locks.Stuck, ht] at hstuck
  obtain ⟨p, hown, hne⟩ := hstuck
  obtain ⟨t', rfl, ht'⟩ := (h.owned b p).mp hown
  exact ⟨t', hne, ht'⟩

/-- Nobody waits in a circle. -/
theorem Inv.waits_for {t : Nat} (h : Inv proc s) (hstuck : s.Stuck proc t) :
    ∃ t', (s.pcs t').Flagged ∧ ¬s.Stuck proc t' := by
  have hinside : ∀ {t b}, s.pcs t = .inside b → (s.pcs t).Flagged ∧ ¬s.Stuck proc t := by
    intro t b ht
    rw [Locks.Stuck, ht]
    exact ⟨trivial, id⟩
  cases ht : s.pcs t with
  | spin b =>
    rw [Locks.Stuck, ht] at hstuck
    obtain ⟨t', -, hflagged⟩ := (h.flagged (proc t)).mp hstuck
    by_cases hstuck' : s.Stuck proc t'
    · cases ht' : s.pcs t' with
      | wait b' =>
        obtain ⟨t₂, -, ht₂⟩ := h.wait_for ht' hstuck'
        exact ⟨t₂, hinside ht₂⟩
      | out | spin b' | inside b' | leave =>
        rw [ht'] at hflagged
        rw [Locks.Stuck, ht'] at hstuck'
        first | exact hflagged.elim | exact hstuck'.elim
    · exact ⟨t', hflagged, hstuck'⟩
  | wait b =>
    obtain ⟨t', -, ht'⟩ := h.wait_for ht hstuck
    exact ⟨t', hinside ht'⟩
  | out | inside b | leave =>
    rw [Locks.Stuck, ht] at hstuck
    exact hstuck.elim

theorem inv_of_reachable (h : (sys proc fileSize).Reachable s) : Inv proc s :=
  (sys proc fileSize).invariant (I := Inv proc) (fun _ hs => hs ▸ inv_start)
    (fun _ _ hinv hok => hinv.next hok.1 hok.2) h

/-- **Mutual exclusion.** Whatever the processes do, as long as no `F_SETLKW` fails:
one thread at most is inside with a byte, no two of one process are inside at all, who finds
the flag set waits for a thread of its own process, and who cannot go on waits for one that
can. -/
theorem mutual_exclusion (h : (sys proc fileSize).Reachable s) :
    (∀ t t' b, s.pcs t = .inside b → s.pcs t' = .inside b → t = t') ∧
    (∀ t t' b b', proc t = proc t' → s.pcs t = .inside b → s.pcs t' = .inside b' → t = t') ∧
    (∀ t b, s.pcs t = .spin b → s.flag (proc t) = true → ∃ t', proc t' = proc t ∧ (s.pcs t').Flagged) ∧
    ∀ t, s.Stuck proc t → ∃ t', (s.pcs t').Flagged ∧ ¬s.Stuck proc t' := by
  have hinv := inv_of_reachable h
  refine ⟨fun t t' b ht ht' => hinv.exclusive ht ht', fun t t' b b' hp ht ht' => ?_,
    fun t _ _ hflag => (hinv.flagged (proc t)).mp hflag, fun t hstuck => hinv.waits_for hstuck⟩
  exact hinv.single t t' hp (by rw [ht]; trivial) (by rw [ht']; trivial)

instance sysDecidable (s : Locks) (e : Move) : Decidable ((sys proc fileSize).ok s e) :=
  inferInstanceAs (Decidable (s.Able proc e ∧ e.Granted))

/-- Two threads of a process and one of another want a byte. -/
def rush : List Move :=
  [.lock 0 70, .lock 1 6, .lock 2 6, .spin 0, .spin 1, .spin 2, .grant 0]

theorem mutual_exclusion_rush :
    let s := (sys (· % 2) 64).exec {} rush
    s.pcs 0 = .inside 6 ∧ s.Stuck (· % 2) 1 ∧ s.Stuck (· % 2) 2 ∧
      ∃ t, (s.pcs t).Flagged ∧ ¬s.Stuck (· % 2) t := by
  exact ⟨rfl, ⟨0, rfl, by decide⟩, rfl,
    (mutual_exclusion ⟨{}, rush, rfl, by decide, rfl⟩).2.2.2 2 rfl⟩

end CGlobalLock

end NatFramework.Utility
