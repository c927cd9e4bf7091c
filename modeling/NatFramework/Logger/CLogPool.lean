import Mathlib.Data.Nat.Bitwise
import NatFramework.Lib.Run
import NatFramework.Lib.Shared

/-!
# The pool of logs

`CLogPool` has a logger for each caller and a descriptor for each file, which loggers of
one name share. The map of the files has the count and the descriptor in one number.
`updateDayLogFile` gives each logger of mode `LOG_DAY` the file of the new day, and
closes the one of the old day behind the last.

* `takeFd_shared`, `dropFd_shared`: the two do what `Shared` does.
* `descriptors`: in every state each logger has an open descriptor, of the file of its
  name and the day, and nothing else is open.
-/
namespace NatFramework.Logger

open Lib

inductive LogMode where
  | LOG_NONE
  | LOG_DAY
  deriving DecidableEq

/-- What `CLogPool` looks at; `none` is -1.
mirrors logger/CFastLog.h:96-113 -/
structure PoolLogger where
  prefix_ : String
  mode : LogMode
  fd : Option Nat

/-- mirrors logger/CLogPool.cpp:79-84,128-129,152-153 -/
def PoolLogger.fileOf (day : String) (l : PoolLogger) : String :=
  match l.mode with
  | .LOG_DAY => l.prefix_ ++ day ++ ".log"
  | .LOG_NONE => l.prefix_ ++ ".log"

/-- `filefdmap_`, and what is open of it. -/
structure LogFds where
  filefdmap : String → Option Nat := fun _ => none
  opened : Nat → Option String := fun _ => none

/-! ## Two halves of a number -/

def pack (cnt fd : Nat) : Nat := cnt <<< 32 ||| fd

def fdOf (v : Nat) : Nat := v &&& 0xffffffff

def cntOf (v : Nat) : Nat := v >>> 32

theorem fdOf_eq (v : Nat) : fdOf v = v % 2 ^ 32 := Nat.and_two_pow_sub_one_eq_mod v 32

theorem pack_eq {fd : Nat} (h : fd < 2 ^ 32) (cnt : Nat) : pack cnt fd = cnt * 2 ^ 32 + fd := by
  rw [pack, ← Nat.shiftLeft_add_eq_or_of_lt h, Nat.shiftLeft_eq]

theorem fdOf_pack {fd : Nat} (h : fd < 2 ^ 32) (cnt : Nat) : fdOf (pack cnt fd) = fd := by
  rw [fdOf_eq, pack_eq h]
  omega

theorem cntOf_pack {fd : Nat} (h : fd < 2 ^ 32) (cnt : Nat) : cntOf (pack cnt fd) = cnt := by
  rw [cntOf, Nat.shiftRight_eq_div_pow, pack_eq h]
  omega

theorem fdOf_lt (v : Nat) : fdOf v < 2 ^ 32 := by
  rw [fdOf_eq]
  exact Nat.mod_lt _ (by decide)

namespace LogFds

/-- What `open` gives is decided by what is open. -/
abbrev Open := (Nat → Option String) → Option Nat

/-- mirrors logger/CLogPool.cpp:86-103 and 131-149 -/
def takeFd (pick : Open) (file : String) (s : LogFds) : LogFds × Option Nat :=
  match s.filefdmap file with
  | none =>
    match pick s.opened with
    | none => (s, none)
    | some fd =>
      ({ filefdmap := Function.update s.filefdmap file (some (pack 1 fd))
         opened := Function.update s.opened fd (some file) }, some fd)
  | some v =>
    ({ s with filefdmap := Function.update s.filefdmap file (some (pack (cntOf v + 1) (fdOf v))) }, some (fdOf v))

/-- mirrors logger/CLogPool.cpp:151-165 -/
def dropFd (file : String) (s : LogFds) : LogFds :=
  match s.filefdmap file with
  | none => s
  | some v =>
    let cnt := cntOf v - 1
    if 0 < cnt then
      { s with filefdmap := Function.update s.filefdmap file (some (pack cnt (fdOf v))) }
    else
      { filefdmap := Function.update s.filefdmap file none
        opened := Function.update s.opened (fdOf v) none }

end LogFds

structure CLogPool where
  logger : List PoolLogger := []
  isNeedUpdateDay : Bool := false
  fds : LogFds := {}
  day : String

namespace CLogPool

def MAX_LOGGER_CNT : Nat := 32

/-- mirrors logger/CLogPool.cpp:73-106 -/
def getNewLoggerID (pick : LogFds.Open) (prefix_ : String) (mode : LogMode) (s : CLogPool) : CLogPool × Int :=
  if MAX_LOGGER_CNT ≤ s.logger.length then (s, -1)
  else
    let l : PoolLogger := { prefix_ := prefix_, mode := mode, fd := none }
    let file := l.fileOf s.day
    let r := s.fds.takeFd pick file
    ({ s with
        logger := s.logger ++ [{ l with fd := r.2 }]
        isNeedUpdateDay :=
          s.isNeedUpdateDay || ((s.fds.filefdmap file).isNone && r.2.isSome && mode = .LOG_DAY)
        fds := r.1 }, s.logger.length)

/-- The loop over the loggers. -/
def updateLoop (pick : LogFds.Open) (day nowday : String) : List PoolLogger → LogFds → List PoolLogger × LogFds
  | [], fds => ([], fds)
  | l :: ls, fds =>
    match l.mode with
    | .LOG_DAY =>
      let r := fds.takeFd pick (l.fileOf nowday)
      let rest := updateLoop pick day nowday ls (r.1.dropFd (l.fileOf day))
      ({ l with fd := r.2 } :: rest.1, rest.2)
    | .LOG_NONE =>
      let rest := updateLoop pick day nowday ls fds
      (l :: rest.1, rest.2)

/-- mirrors logger/CLogPool.cpp:108-170 -/
def updateDayLogFile (pick : LogFds.Open) (nowday : String) (s : CLogPool) : CLogPool :=
  if !s.isNeedUpdateDay then s
  else if nowday = s.day then s
  else
    let r := updateLoop pick s.day nowday s.logger s.fds
    { s with logger := r.1, fds := r.2, day := nowday }

/-- A caller asks for a logger, and the thread looks at the day. -/
inductive Event where
  | getNew (pick : LogFds.Open) (prefix_ : String) (mode : LogMode)
  | update (pick : LogFds.Open) (nowday : String)

/-- `open` gives a descriptor that is not in use. -/
def Event.Lawful : Event → Prop
  | .getNew pick _ _ | .update pick _ => ∀ o fd, pick o = some fd → fd < 2 ^ 31 ∧ o fd = none

def next (s : CLogPool) : Event → CLogPool
  | .getNew pick prefix_ mode => (s.getNewLoggerID pick prefix_ mode).1
  | .update pick nowday => s.updateDayLogFile pick nowday

/-- No `open` has failed. -/
def AllOpen (s : CLogPool) : Prop := ∀ l ∈ s.logger, l.fd.isSome

def sys : Sys CLogPool Event where
  start s := ∃ day, s = { day := day }
  ok s e := e.Lawful ∧ (s.next e).AllOpen
  next := next

end CLogPool

/-! ## What the map stands for -/

namespace LogFds

def shared (s : LogFds) : Shared String where
  cells file := (s.filefdmap file).map fun v => (cntOf v, fdOf v)
  opened := s.opened

variable {s : LogFds} {pick : Open} {file : String}

theorem cells_update (v : Option Nat) :
    (fun f => (Function.update s.filefdmap file v f).map fun v => (cntOf v, fdOf v)) =
      Function.update s.shared.cells file (v.map fun v => (cntOf v, fdOf v)) := by
  funext f
  rcases eq_or_ne f file with rfl | hne
  · rw [Function.update_self, Function.update_self]
  · rw [Function.update_of_ne hne, Function.update_of_ne hne]
    rfl

theorem takeFd_shared (hpick : ∀ o fd, pick o = some fd → fd < 2 ^ 31 ∧ o fd = none) :
    (s.takeFd pick file).1.shared = (s.shared.acquire file (pick s.opened)).1 ∧
      (s.takeFd pick file).2 = (s.shared.acquire file (pick s.opened)).2 := by
  have hcell : s.shared.cells file = (s.filefdmap file).map fun v => (cntOf v, fdOf v) := rfl
  unfold takeFd Shared.acquire
  rw [hcell]
  cases s.filefdmap file with
  | some v =>
    refine ⟨?_, rfl⟩
    rw [shared]
    dsimp only
    rw [cells_update, Option.map_some, cntOf_pack (fdOf_lt v), fdOf_pack (fdOf_lt v)]
    rfl
  | none =>
    cases hfd : pick s.opened with
    | none => exact ⟨rfl, rfl⟩
    | some fd =>
      have hlt : fd < 2 ^ 32 := Nat.lt_trans (hpick _ _ hfd).1 (by decide)
      refine ⟨?_, rfl⟩
      rw [shared]
      dsimp only
      rw [cells_update, Option.map_some, cntOf_pack hlt, fdOf_pack hlt]
      rfl

theorem dropFd_shared : (s.dropFd file).shared = s.shared.release file := by
  have hcell : s.shared.cells file = (s.filefdmap file).map fun v => (cntOf v, fdOf v) := rfl
  unfold dropFd Shared.release
  rw [hcell]
  cases s.filefdmap file with
  | none => rfl
  | some v =>
    dsimp only [Option.map_some]
    by_cases hmany : 1 < cntOf v
    · rw [if_pos (Nat.sub_pos_of_lt hmany), if_pos hmany, shared]
      dsimp only
      rw [cells_update, Option.map_some, cntOf_pack (fdOf_lt v), fdOf_pack (fdOf_lt v)]
      rfl
    · rw [if_neg (by omega), if_neg hmany, shared]
      dsimp only
      rw [cells_update]
      rfl

theorem takeFd_opened (hpick : ∀ o fd, pick o = some fd → fd < 2 ^ 31 ∧ o fd = none) {us : List String}
    (hs : s.shared.Holds us) {fd : Nat} (hfd : (s.takeFd pick file).2 = some fd) :
    (s.takeFd pick file).1.shared.Holds (file :: us) ∧ (s.takeFd pick file).1.opened fd = some file ∧
      ∀ fd' file', s.opened fd' = some file' → (s.takeFd pick file).1.opened fd' = some file' := by
  obtain ⟨hst, hres⟩ : _ ∧ (s.takeFd pick file).2 = _ := takeFd_shared hpick
  rw [hres] at hfd
  have hspec := hs.acquire (fun h hh => (hpick s.opened h hh).2) hfd
  rw [← hst] at hspec
  exact hspec

theorem dropFd_opened {us : List String} (hs : s.shared.Holds (file :: us)) :
    (s.dropFd file).shared.Holds us ∧
      ∀ fd' file', s.opened fd' = some file' → file' ∈ us → (s.dropFd file).opened fd' = some file' := by
  have h := hs.release
  rw [← dropFd_shared] at h
  exact h

end LogFds

/-! ## Descriptors -/

namespace CLogPool

/-- The logger has an open descriptor, of its file. -/
def Fits (fds : LogFds) (day : String) (l : PoolLogger) : Prop :=
  ∃ fd, l.fd = some fd ∧ fds.opened fd = some (l.fileOf day)

structure Inv (s : CLogPool) : Prop where
  holds : s.fds.shared.Holds (s.logger.map (PoolLogger.fileOf s.day))
  fits : ∀ l ∈ s.logger, Fits s.fds s.day l
  few : s.logger.length ≤ MAX_LOGGER_CNT

variable {pick : LogFds.Open} {day nowday : String}

theorem updateLoop_length (ls : List PoolLogger) (fds : LogFds) :
    (updateLoop pick day nowday ls fds).1.length = ls.length := by
  induction ls generalizing fds with
  | nil => rfl
  | cons l ls ih =>
    unfold updateLoop
    split <;> simp [ih]

/-- `H` are the files of the loggers that the loop has been at: their descriptors stay. -/
theorem updateLoop_spec (hpick : ∀ o fd, pick o = some fd → fd < 2 ^ 31 ∧ o fd = none)
    (ls : List PoolLogger) (fds : LogFds) (H : List String)
    (hholds : fds.shared.Holds (ls.map (PoolLogger.fileOf day) ++ H)) (hfits : ∀ l ∈ ls, Fits fds day l)
    (hall : ∀ l ∈ (updateLoop pick day nowday ls fds).1, l.fd.isSome) :
    (updateLoop pick day nowday ls fds).2.shared.Holds
        ((updateLoop pick day nowday ls fds).1.map (PoolLogger.fileOf nowday) ++ H) ∧
      (∀ l ∈ (updateLoop pick day nowday ls fds).1, Fits (updateLoop pick day nowday ls fds).2 nowday l) ∧
      ∀ fd file, fds.opened fd = some file → file ∈ H →
        (updateLoop pick day nowday ls fds).2.opened fd = some file := by
  induction ls generalizing fds H with
  | nil => exact ⟨hholds, fun l hl => (by cases hl), fun fd file ho _ => ho⟩
  | cons l ls ih =>
    rw [List.map_cons, List.cons_append] at hholds
    rcases l with ⟨prefix_, mode, fd₀⟩
    set l : PoolLogger := ⟨prefix_, mode, fd₀⟩
    cases mode with
    | LOG_NONE =>
      have hsame : l.fileOf nowday = l.fileOf day := rfl
      simp only [updateLoop] at hall ⊢
      obtain ⟨hholds', hfits', hkept⟩ := ih fds (l.fileOf day :: H) (hholds.perm List.perm_middle.symm)
        (fun l' hl' => hfits l' (List.mem_cons_of_mem _ hl')) (fun l' hl' => hall l' (List.mem_cons_of_mem _ hl'))
      obtain ⟨fd, hfd, hopen⟩ := hfits l List.mem_cons_self
      refine ⟨?_, ?_, fun fd file ho hfile => hkept fd file ho (List.mem_cons_of_mem _ hfile)⟩
      · rw [List.map_cons, List.cons_append, hsame]
        exact hholds'.perm List.perm_middle
      · intro l' hl'
        rcases List.mem_cons.mp hl' with rfl | hl'
        · exact ⟨fd, hfd, hsame ▸ hkept fd _ hopen List.mem_cons_self⟩
        · exact hfits' l' hl'
    | LOG_DAY =>
      simp only [updateLoop] at hall ⊢
      obtain ⟨fd, hfd⟩ := Option.isSome_iff_exists.mp (hall _ List.mem_cons_self)
      obtain ⟨hholds₁, hopen₁, hkept₁⟩ := LogFds.takeFd_opened hpick hholds hfd
      obtain ⟨hholds₂, hkept₂⟩ := LogFds.dropFd_opened (hholds₁.perm (List.Perm.swap _ _ _))
      -- a logger still to come has the file of the old day, and is one of its users
      have hfits₂ : ∀ l' ∈ ls, Fits ((fds.takeFd pick (l.fileOf nowday)).1.dropFd (l.fileOf day)) day l' := by
        intro l' hl'
        obtain ⟨fd', hfd', ho⟩ := hfits l' (List.mem_cons_of_mem _ hl')
        refine ⟨fd', hfd', hkept₂ fd' _ (hkept₁ fd' _ ho) ?_⟩
        exact List.mem_cons_of_mem _ (List.mem_append_left _ (List.mem_map_of_mem hl'))
      obtain ⟨hholds₃, hfits₃, hkept₃⟩ := ih _ (l.fileOf nowday :: H) (hholds₂.perm List.perm_middle.symm) hfits₂
        (fun l' hl' => hall l' (List.mem_cons_of_mem _ hl'))
      refine ⟨hholds₃.perm List.perm_middle, ?_, fun fd' file ho hfile => ?_⟩
      · intro l' hl'
        rcases List.mem_cons.mp hl' with rfl | hl'
        · exact ⟨fd, hfd, hkept₃ fd _ (hkept₂ fd _ hopen₁ List.mem_cons_self) List.mem_cons_self⟩
        · exact hfits₃ l' hl'
      · refine hkept₃ fd' file (hkept₂ fd' file (hkept₁ fd' file ho) ?_) (List.mem_cons_of_mem _ hfile)
        exact List.mem_cons_of_mem _ (List.mem_append_right _ hfile)

variable {s : CLogPool}

theorem Inv.getNewLoggerID (hs : s.Inv) (hpick : ∀ o fd, pick o = some fd → fd < 2 ^ 31 ∧ o fd = none)
    {prefix_ : String} {mode : LogMode} (hall : (s.getNewLoggerID pick prefix_ mode).1.AllOpen) :
    (s.getNewLoggerID pick prefix_ mode).1.Inv := by
  unfold CLogPool.getNewLoggerID at hall ⊢
  split at hall
  · rename_i hfull
    rwa [if_pos hfull]
  · rename_i hroom
    rw [if_neg hroom]
    dsimp only at hall ⊢
    obtain ⟨fd, hfd⟩ := Option.isSome_iff_exists.mp (hall _ (List.mem_append_right _ List.mem_cons_self))
    obtain ⟨hholds, hopen, hkept⟩ := LogFds.takeFd_opened hpick hs.holds hfd
    refine ⟨?_, ?_, ?_⟩
    · dsimp only
      rw [List.map_append]
      exact hholds.perm (List.perm_append_singleton _ _).symm
    · intro l hl
      rcases List.mem_append.mp hl with hl | hl
      · obtain ⟨fd', hfd', ho⟩ := hs.fits l hl
        exact ⟨fd', hfd', hkept fd' _ ho⟩
      · obtain rfl := List.mem_singleton.mp hl
        exact ⟨fd, hfd, hopen⟩
    · dsimp only
      rw [List.length_append, List.length_singleton]
      omega

theorem Inv.updateDayLogFile (hs : s.Inv) (hpick : ∀ o fd, pick o = some fd → fd < 2 ^ 31 ∧ o fd = none)
    (hall : (s.updateDayLogFile pick nowday).AllOpen) : (s.updateDayLogFile pick nowday).Inv := by
  unfold CLogPool.updateDayLogFile at hall ⊢
  split at hall
  · rename_i hneed
    rwa [if_pos hneed]
  · rename_i hneed
    rw [if_neg hneed]
    split at hall
    · rename_i hday
      rwa [if_pos hday]
    · rename_i hday
      rw [if_neg hday]
      have hholds : s.fds.shared.Holds (s.logger.map (PoolLogger.fileOf s.day) ++ []) := by
        rw [List.append_nil]
        exact hs.holds
      obtain ⟨hholds', hfits, -⟩ := updateLoop_spec hpick s.logger s.fds [] hholds hs.fits hall
      rw [List.append_nil] at hholds'
      refine ⟨hholds', hfits, ?_⟩
      dsimp only
      rw [updateLoop_length]
      exact hs.few

theorem inv_of_reachable (h : sys.Reachable s) : s.Inv := by
  refine sys.invariant ?_ ?_ h
  · rintro s ⟨day, rfl⟩
    exact ⟨Shared.holds_empty, fun l hl => (by cases hl), Nat.zero_le _⟩
  · rintro s e hs ⟨hlawful, hall⟩
    cases e with
    | getNew pick prefix_ mode => exact hs.getNewLoggerID hlawful hall
    | update pick nowday => exact hs.updateDayLogFile hlawful hall

/-- Each logger writes to the file of its name and the pool's day. What is open belongs to
a logger, and there is one descriptor for each file. -/
theorem descriptors (h : sys.Reachable s) :
    (∀ l ∈ s.logger, ∃ fd, l.fd = some fd ∧ s.fds.opened fd = some (l.fileOf s.day)) ∧
      (∀ fd file, s.fds.opened fd = some file → ∃ l ∈ s.logger, l.fd = some fd ∧ l.fileOf s.day = file) ∧
      (∀ l ∈ s.logger, ∀ l' ∈ s.logger, l.fd = l'.fd ↔ l.fileOf s.day = l'.fileOf s.day) ∧
      s.logger.length ≤ MAX_LOGGER_CNT := by
  have hs := inv_of_reachable h
  -- two descriptors of one file are the one that the map has
  have hone : ∀ {fd fd' file}, s.fds.opened fd = some file → s.fds.opened fd' = some file → fd = fd' := by
    intro fd fd' file ho ho'
    obtain ⟨n, hn⟩ := hs.holds.opened fd file ho
    obtain ⟨n', hn'⟩ := hs.holds.opened fd' file ho'
    rw [hn] at hn'
    exact (Prod.mk.inj (Option.some.inj hn')).2
  refine ⟨hs.fits, fun fd file ho => ?_, fun l hl l' hl' => ?_, hs.few⟩
  · obtain ⟨n, hn⟩ := hs.holds.opened fd file ho
    have hmem : file ∈ s.logger.map (PoolLogger.fileOf s.day) := by
      by_contra hnot
      rw [hs.holds.unused file hnot] at hn
      cases hn
    obtain ⟨l, hl, rfl⟩ := List.mem_map.mp hmem
    obtain ⟨fd', hfd', ho'⟩ := hs.fits l hl
    exact ⟨l, hl, hone ho' ho ▸ hfd', rfl⟩
  · obtain ⟨fd, hfd, ho⟩ := hs.fits l hl
    obtain ⟨fd', hfd', ho'⟩ := hs.fits l' hl'
    rw [hfd, hfd', Option.some.injEq]
    constructor
    · rintro rfl
      exact Option.some.inj (ho.symm.trans ho')
    · intro hfile
      rw [hfile] at ho
      exact hone ho ho'

/-! ### Two loggers of one name at midnight -/

def lowest : LogFds.Open := fun o => [3, 4, 5].find? fun fd => (o fd).isNone

def midnight : List Event :=
  [.getNew lowest "trade" .LOG_DAY, .getNew lowest "trade" .LOG_DAY, .getNew lowest "err" .LOG_NONE,
    .update lowest "20240103"]

theorem lowest_lawful (o : Nat → Option String) (fd : Nat) (h : lowest o = some fd) : fd < 2 ^ 31 ∧ o fd = none := by
  have hmem : fd ∈ [3, 4, 5] := List.mem_of_find?_eq_some h
  have hfree := List.find?_some h
  simp only [List.mem_cons, List.not_mem_nil, or_false] at hmem
  exact ⟨by omega, Option.isNone_iff_eq_none.mp hfree⟩

theorem descriptors_midnight :
    let s := sys.exec { day := "20240102" } midnight
    s.logger.map PoolLogger.fd = [some 5, some 5, some 4] ∧
      (∀ l ∈ s.logger, ∃ fd, l.fd = some fd ∧ s.fds.opened fd = some (l.fileOf "20240103")) ∧
      ∀ l ∈ s.logger, ∀ l' ∈ s.logger, l.fd = l'.fd ↔ l.fileOf "20240103" = l'.fileOf "20240103" := by
  intro s
  have hopen : ∀ {s' : CLogPool}, s'.logger.all (fun l => l.fd.isSome) = true → s'.AllOpen := by
    intro s' h l hl
    exact List.all_eq_true.mp h l hl
  have hreach : sys.Reachable s := by
    refine ⟨_, midnight, ⟨_, rfl⟩, ?_, rfl⟩
    exact ⟨⟨lowest_lawful, hopen (by decide +kernel)⟩, ⟨lowest_lawful, hopen (by decide +kernel)⟩,
      ⟨lowest_lawful, hopen (by decide +kernel)⟩, ⟨lowest_lawful, hopen (by decide +kernel)⟩, trivial⟩
  have hday : s.day = "20240103" := by decide +kernel
  obtain ⟨hfits, -, hshare, -⟩ := descriptors hreach
  rw [hday] at hfits hshare
  exact ⟨by decide +kernel, hfits, hshare⟩

end CLogPool

end NatFramework.Logger
