import Mathlib.Logic.Function.Basic
import Mathlib.Tactic.IntervalCases
import NatFramework.Lib.Lists
import NatFramework.Lib.Run

/-!
# Requests over the system pages

`sysRequest` writes a command to the pages that all processes share and looks for the
answer behind the place where it began; the engines read the same pages and answer
what is addressed to them. The pages are a log here.

* `SysWorld`: processes that ask, engines that answer, and the log between them.
* `Inv`: whose the messages are, and what may still be answered. `Inv.next`: a step
  keeps it.
* `Ahead`: the loop is in front of the answer it waits for.
* `own_answer`: what `sysRequest` returns is the answer to its own request, and it
  passes none.
-/
namespace NatFramework.Common

open Lib

/-- The commands that are written to the system pages.
mirrors include/IOCommon.h:14-53 -/
inductive IOCmd where
  | IO_TD_ADD_CLIENT
  | IO_TD_REMOVE_CLIENT
  | IO_TD_QUIT
  | IO_TD_ACK_ADD_CLIENT
  | IO_TD_REQ_BASE_INFO
  | IO_TD_RSP_BASE_INFO
  | IO_TD_REQ_ORDER_TRACK
  | IO_TD_RSP_ORDER_TRACK
  | IO_HEAT_BEAT
  | IO_HEAT_BEAT_ACK
  | IO_QUERY_SUBS_INSTR
  | IO_RSP_QUERY_SUBS_INSTR
  | IO_SUBS_INSTR
  | IO_UNSUBS_INSTR
  | IO_ACK
  | IO_USER_CMD
  | IO_USER_ADD_EXEC_ORDER
deriving DecidableEq

namespace IOCmd

/-- What the calls of `sysRequest` ask for, and the answer they wait for.
mirrors td/CTDHelperComm.cpp:143-172, md/CMDHelperComm.cpp:71-140 and md/IMDEngine.cpp:239 -/
def rsp : IOCmd → Option IOCmd
  | IO_TD_ADD_CLIENT => some IO_TD_ACK_ADD_CLIENT
  | IO_TD_REQ_BASE_INFO => some IO_TD_RSP_BASE_INFO
  | IO_TD_REQ_ORDER_TRACK => some IO_TD_RSP_ORDER_TRACK
  | IO_HEAT_BEAT => some IO_HEAT_BEAT_ACK
  | IO_QUERY_SUBS_INSTR => some IO_RSP_QUERY_SUBS_INSTR
  | IO_SUBS_INSTR => some IO_ACK
  | IO_UNSUBS_INSTR => some IO_ACK
  | _ => none

/-- An answer is no request. -/
theorem rsp_rsp {c r : IOCmd} (h : c.rsp = some r) : r.rsp = none := by
  cases c <;> simp only [rsp, Option.some.injEq, reduceCtorEq] at h <;> rw [← h] <;> rfl

/-- What is written without `sysRequest`, and with no answer to it. -/
def unpaired : List IOCmd := [IO_TD_REMOVE_CLIENT, IO_TD_QUIT, IO_USER_CMD, IO_USER_ADD_EXEC_ORDER]

theorem unpaired_of_mem {c : IOCmd} (h : c ∈ unpaired) : c.rsp = none ∧ ∀ c' : IOCmd, c'.rsp ≠ some c := by
  simp only [unpaired, List.mem_cons, List.not_mem_nil, or_false] at h
  rcases h with rfl | rfl | rfl | rfl
  all_goals exact ⟨rfl, fun c' => by cases c' <;> simp [rsp]⟩

end IOCmd

/-- mirrors include/IOCommon.h:57-65 -/
structure SysMsg where
  cmd : IOCmd
  toId : Int
  source : Int
  backWord : Int
  data : List UInt8

/-- Who has written a message: process `p` that asks, engine `j` that answers the
message at `i`, or somebody else. -/
inductive Origin where
  | request (p : Nat)
  | answer (j i : Nat)
  | other
deriving DecidableEq

inductive EngineKind where
  | td
  | md

/-- The answer's command and what follows its head; `none`: there is no answer.
`content` is what the engine has to say, and whether it can parse what was asked.
mirrors td/ITDEngine.cpp:219-252 and md/IMDEngine.cpp:122-173 -/
def EngineKind.reply (content : IOCmd → List UInt8 → Option (List UInt8)) (k : EngineKind)
    (m : SysMsg) : Option (IOCmd × List UInt8) :=
  match k, m.cmd with
  | .td, .IO_TD_ADD_CLIENT => some (.IO_TD_ACK_ADD_CLIENT, [])
  | .td, .IO_TD_REQ_BASE_INFO => (content m.cmd m.data).map (.IO_TD_RSP_BASE_INFO, ·)
  | .td, .IO_TD_REQ_ORDER_TRACK => (content m.cmd m.data).map (.IO_TD_RSP_ORDER_TRACK, ·)
  | .md, .IO_HEAT_BEAT => some (.IO_HEAT_BEAT_ACK, [])
  | .md, .IO_QUERY_SUBS_INSTR => (content m.cmd m.data).map (.IO_RSP_QUERY_SUBS_INSTR, ·)
  | .md, .IO_SUBS_INSTR => (content m.cmd m.data).map fun _ => (.IO_ACK, [])
  | .md, .IO_UNSUBS_INSTR => (content m.cmd m.data).map fun _ => (.IO_ACK, [])
  | .md, .IO_TD_REQ_BASE_INFO => (content m.cmd m.data).map (.IO_TD_RSP_BASE_INFO, ·)
  | _, _ => none

/-- An answer is the one that is waited for. -/
theorem EngineKind.rsp_of_reply {content : IOCmd → List UInt8 → Option (List UInt8)} {k : EngineKind}
    {m : SysMsg} {r : IOCmd × List UInt8} (h : k.reply content m = some r) : m.cmd.rsp = some r.1 := by
  unfold reply at h
  split at h <;> rename_i hcmd <;> simp only [hcmd, Option.map_eq_some_iff, Option.some.injEq,
    reduceCtorEq] at h ⊢
  all_goals first
    | (rw [← h]; rfl)
    | (obtain ⟨d, -, rfl⟩ := h; rfl)

/-- Where a process is in `sysRequest`: not in it, behind the making of its reader, or
in the loop. `since` is where the reader began, `own` where the request is. -/
inductive Phase where
  | idle
  | opened (since : Nat)
  | waiting (since pos own : Nat) (rsp : IOCmd) (toId : Int)
deriving DecidableEq

/-- A process, with `s_request_id`. -/
structure Requester where
  requestId : Int := 0
  phase : Phase := .idle

/-- An engine in its loop: where its reader is, and the message it answers. -/
structure Listener where
  up : Bool := false
  pos : Nat := 0
  doing : Option Nat := none

structure SysWorld where
  log : List (SysMsg × Origin) := []
  procs : Nat → Requester := fun _ => {}
  engines : Nat → Listener := fun _ => {}

/-- `other`: what `syscmd`, and a helper that goes, write. -/
inductive SysTurn where
  | enter (p : Nat)
  | send (p : Nat) (cmd : IOCmd) (toId : Int) (data : List UInt8)
  | read (p : Nat)
  | timeout (p : Nat)
  | start (j : Nat)
  | stop (j : Nat)
  | take (j : Nat)
  | answer (j : Nat)
  | other (m : SysMsg)

/-- Process `p` has the id `src p`; engine `j` has the id `eid j`, its kind and what it
says to the message at a place of the log. -/
structure SysParties where
  src : Nat → Int
  eid : Nat → Int
  kind : Nat → EngineKind
  content : Nat → Nat → IOCmd → List UInt8 → Option (List UInt8)

namespace SysWorld

variable (P : SysParties)

/-- The test of the loop.
mirrors common/ATSysUtils.cpp:64-66 -/
def Matches (rsp : IOCmd) (toId source backWord : Int) (m : SysMsg) : Prop :=
  m.cmd = rsp ∧ m.source = toId ∧ m.toId = source ∧ m.backWord = backWord

instance matchesDecidable (rsp : IOCmd) (toId source backWord : Int) (m : SysMsg) :
    Decidable (Matches rsp toId source backWord m) :=
  inferInstanceAs (Decidable (m.cmd = rsp ∧ m.source = toId ∧ m.toId = source ∧ m.backWord = backWord))

/-- What the next `read` makes `sysRequest` of `p` return. -/
def returned (s : SysWorld) (p : Nat) : Option (SysMsg × Origin) :=
  match (s.procs p).phase with
  | .waiting _ pos _ rsp toId =>
    s.log[pos]?.filter fun e => Matches rsp toId (P.src p) (s.procs p).requestId e.1
  | _ => none

/-- The answer to the message at `i`, if it is for the engine. -/
def reply (s : SysWorld) (j i : Nat) : Option SysMsg :=
  s.log[i]?.bind fun e =>
    if e.1.toId = P.eid j then
      ((P.kind j).reply (P.content j i) e.1).map fun r =>
        { cmd := r.1, toId := e.1.source, source := P.eid j, backWord := e.1.backWord, data := r.2 }
    else none

def setPhase (s : SysWorld) (p : Nat) (phase : Phase) : SysWorld :=
  { s with procs := Function.update s.procs p { s.procs p with phase := phase } }

/-- mirrors common/ATSysUtils.cpp:20-76, td/ITDEngine.cpp:193-270 and md/IMDEngine.cpp:108-184 -/
def next (s : SysWorld) : SysTurn → SysWorld
  | .enter p => s.setPhase p (.opened s.log.length)
  | .send p cmd toId data =>
    match (s.procs p).phase, cmd.rsp with
    | .opened since, some rsp =>
      let id := (s.procs p).requestId + 1
      { s with
        log := s.log ++ [(⟨cmd, toId, P.src p, id, data⟩, .request p)]
        procs := Function.update s.procs p
          { requestId := id, phase := .waiting since since s.log.length rsp toId } }
    | _, _ => s
  | .read p =>
    match (s.procs p).phase with
    | .waiting since pos own rsp toId =>
      if (s.returned P p).isSome then s.setPhase p .idle
      else if pos < s.log.length then s.setPhase p (.waiting since (pos + 1) own rsp toId)
      else s
    | _ => s
  | .timeout p => s.setPhase p .idle
  | .start j =>
    { s with engines := Function.update s.engines j { up := true, pos := s.log.length } }
  | .stop j => { s with engines := Function.update s.engines j {} }
  | .take j =>
    let l := s.engines j
    { s with engines := Function.update s.engines j { l with
        pos := l.pos + 1
        doing := if (s.reply P j l.pos).isSome then some l.pos else none } }
  | .answer j =>
    let l := s.engines j
    match l.doing with
    | some i =>
      { s with
        log := s.log ++ (s.reply P j i).toList.map (·, .answer j i)
        engines := Function.update s.engines j { l with doing := none } }
    | none => s
  | .other m => { s with log := s.log ++ [(m, .other)] }

/-- A process asks one thing after the other, and an engine reads when it has answered. -/
def Able (s : SysWorld) : SysTurn → Prop
  | .enter p => (s.procs p).phase = .idle
  | .send p cmd _ _ => (∃ since, (s.procs p).phase = .opened since) ∧ cmd.rsp.isSome
  | .read p => (s.procs p).phase ≠ .idle
  | .timeout p => (s.procs p).phase ≠ .idle
  | .start j => (s.engines j).up = false
  | .stop j => (s.engines j).up = true
  | .take j => (s.engines j).up = true ∧ (s.engines j).doing = none ∧
      (s.engines j).pos < s.log.length
  | .answer j => (s.engines j).doing.isSome
  | .other m => m.cmd ∈ IOCmd.unpaired

def sys : Sys SysWorld SysTurn where
  start s := s = {}
  ok := Able
  next := next P

/-- A message stands at a place of the log. -/
abbrev Stands (s : SysWorld) (a : Nat) (m : SysMsg) (o : Origin) : Prop := s.log[a]? = some (m, o)

/-- No engine has the message at `i` before it, or in hand. -/
def Settled (s : SysWorld) (i : Nat) : Prop :=
  ∀ j, (s.engines j).up = true → i < (s.engines j).pos ∧ (s.engines j).doing ≠ some i

/-- Who begins a request has its name for itself, and nothing that was asked before
under it by another process is still to be answered. -/
def Fresh (s : SysWorld) : SysTurn → Prop
  | .enter p => ∀ p', p' ≠ p → P.src p' = P.src p → (s.procs p').phase = .idle ∧
      ∀ i m, s.Stands i m (.request p') → s.Settled i
  | _ => True

/-! ## The invariant -/

/-- `m` answers `m'`, and engine `j` has been asked. -/
structure Answers (j : Nat) (m' m : SysMsg) : Prop where
  cmd : m'.cmd.rsp = some m.cmd
  toId : m.toId = m'.source
  asked : m'.toId = P.eid j
  source : m.source = P.eid j
  backWord : m.backWord = m'.backWord

/-- What there is to say of the message at `a`, by who has written it. -/
def Wrote (s : SysWorld) (a : Nat) (m : SysMsg) : Origin → Prop
  | .request p => m.source = P.src p ∧ m.cmd.rsp.isSome ∧ m.backWord ≤ (s.procs p).requestId
  | .answer j i => i < a ∧ ∃ m' p, s.Stands i m' (.request p) ∧ Answers P j m' m
  | .other => m.cmd.rsp = none ∧ ∀ c : IOCmd, c.rsp ≠ some m.cmd

/-- Where the reader of a process began. -/
def since? : Phase → Option Nat
  | .idle => none
  | .opened since => some since
  | .waiting since .. => some since

/-- A process that waits has asked what it waits for, and reads behind where it began. -/
def Waits (s : SysWorld) (p : Nat) : Phase → Prop
  | .waiting since pos own rsp toId => since ≤ pos ∧ ∃ m, s.Stands own m (.request p) ∧
      m.backWord = (s.procs p).requestId ∧ m.toId = toId ∧ m.cmd.rsp = some rsp
  | _ => True

/-- Nothing that `p'` has asked is answered behind `since`, now or later. -/
def Over (s : SysWorld) (since p' : Nat) : Prop :=
  ∀ i m, s.Stands i m (.request p') →
    s.Settled i ∧ ∀ a m' j, since ≤ a → ¬s.Stands a m' (.answer j i)

structure Inv (s : SysWorld) : Prop where
  wrote : ∀ a m o, s.Stands a m o → s.Wrote P a m o
  numbered : ∀ i i' m m' p, s.Stands i m (.request p) → s.Stands i' m' (.request p) →
    m.backWord = m'.backWord → i = i'
  answered : ∀ a m j i, s.Stands a m (.answer j i) → (s.engines j).up = true →
    i < (s.engines j).pos ∧ (s.engines j).doing ≠ some i
  once : ∀ a a' m m' j i, s.Stands a m (.answer j i) → s.Stands a' m' (.answer j i) → a = a'
  doing : ∀ j i, (s.engines j).doing = some i → (s.engines j).up = true ∧ i < (s.engines j).pos
  pos_le : ∀ j, (s.engines j).pos ≤ s.log.length
  since_le : ∀ p since, since? (s.procs p).phase = some since → since ≤ s.log.length
  waits : ∀ p, s.Waits p (s.procs p).phase
  alone : ∀ p since, since? (s.procs p).phase = some since → ∀ p', p' ≠ p → P.src p' = P.src p →
    (s.procs p').phase = .idle ∧ s.Over since p'

/-- The answer to the request of a process is not behind its reader. -/
def Ahead (s : SysWorld) : Prop :=
  ∀ p since pos own rsp toId, (s.procs p).phase = .waiting since pos own rsp toId →
    pos ≤ s.log.length ∧ ∀ a m j, s.Stands a m (.answer j own) → P.eid j = toId → pos ≤ a

variable {P} {s : SysWorld} {e : SysTurn} {es : List SysTurn}

theorem not_stands_start (a : Nat) (m : SysMsg) (o : Origin) : ¬({} : SysWorld).Stands a m o := by
  simp [Stands]

theorem inv_start : Inv P {} where
  wrote a m o h := (not_stands_start a m o h).elim
  numbered i _ m _ _ h := (not_stands_start i m _ h).elim
  answered a m _ _ h := (not_stands_start a m _ h).elim
  once a _ m _ _ _ h := (not_stands_start a m _ h).elim
  doing _ _ h := by cases h
  pos_le _ := Nat.le_refl 0
  since_le _ _ h := by cases h
  waits _ := trivial
  alone _ _ h := by cases h

/-! ## Steps of a process that write nothing -/

/-- A process goes to a place in `sysRequest` that fits. -/
theorem Inv.setPhase {p : Nat} {phase : Phase} (h : Inv P s) (hwaits : s.Waits p phase)
    (hsince : ∀ since, since? phase = some since → since ≤ s.log.length ∧
      ∀ p', p' ≠ p → P.src p' = P.src p → (s.procs p').phase = .idle ∧ s.Over since p') :
    Inv P (s.setPhase p phase) := by
  have hid : ∀ q, ((s.setPhase p phase).procs q).requestId = (s.procs q).requestId := by
    intro q
    dsimp only [SysWorld.setPhase]
    rcases eq_or_ne q p with rfl | hq
    · rw [Function.update_self]
    · rw [Function.update_of_ne hq]
  have hself : ((s.setPhase p phase).procs p).phase = phase := by
    dsimp only [SysWorld.setPhase]
    rw [Function.update_self]
  have hother : ∀ q, q ≠ p → ((s.setPhase p phase).procs q).phase = (s.procs q).phase := by
    intro q hq
    dsimp only [SysWorld.setPhase]
    rw [Function.update_of_ne hq]
  exact
    { wrote := by
        intro a m o ha
        have hw := h.wrote a m o ha
        cases o with
        | request q => exact ⟨hw.1, hw.2.1, (hid q).symm ▸ hw.2.2⟩
        | answer j i => exact hw
        | other => exact hw
      numbered := h.numbered
      answered := h.answered
      once := h.once
      doing := h.doing
      pos_le := h.pos_le
      since_le := by
        intro q since hq
        rcases eq_or_ne q p with rfl | hne
        · rw [hself] at hq
          exact (hsince since hq).1
        · rw [hother q hne] at hq
          exact h.since_le q since hq
      waits := by
        have hw : ∀ q ph, s.Waits q ph → (s.setPhase p phase).Waits q ph := by
          intro q ph hq
          cases ph with
          | idle => trivial
          | opened since => trivial
          | waiting since pos own rsp toId =>
            obtain ⟨hle, m, hm, hb, hrest⟩ := hq
            exact ⟨hle, m, hm, hb.trans (hid q).symm, hrest⟩
        intro q
        rcases eq_or_ne q p with rfl | hne
        · rw [hself]
          exact hw q phase hwaits
        · rw [hother q hne]
          exact hw q _ (h.waits q)
      alone := by
        intro q since hq q' hne hsrc
        rcases eq_or_ne q p with rfl | hqp
        · rw [hself] at hq
          obtain ⟨hidle, hover⟩ := (hsince since hq).2 q' hne hsrc
          exact ⟨(hother q' hne).trans hidle, hover⟩
        · rw [hother q hqp] at hq
          obtain ⟨hidle, hover⟩ := h.alone q since hq q' hne hsrc
          refine ⟨?_, hover⟩
          rcases eq_or_ne q' p with rfl | hqp'
          · -- who leaves its place was somewhere: then `q` would have been idle
            cases hph : since? phase with
            | none =>
              rw [hself]
              cases phase with
              | idle => rfl
              | opened _ => cases hph
              | waiting _ _ _ _ _ => cases hph
            | some since' =>
              have hidle' := ((hsince since' hph).2 q (Ne.symm hne) hsrc.symm).1
              rw [hidle'] at hq
              cases hq
          · rw [hother q' hqp']
            exact hidle }

/-! ## Steps of an engine that write nothing -/

theorem Stands.lt {a : Nat} {m : SysMsg} {o : Origin} (h : s.Stands a m o) : a < s.log.length :=
  (List.getElem?_eq_some_iff.mp h).1

/-- An engine that has a message behind it, and not in hand, has it so with `l'`. -/
structure Goes (l l' : Listener) (len : Nat) : Prop where
  pos_le : l'.pos ≤ len
  doing : ∀ i, l'.doing = some i → l'.up = true ∧ i < l'.pos
  settled : ∀ i < len, (l.up = true → i < l.pos ∧ l.doing ≠ some i) → l'.up = true →
    i < l'.pos ∧ l'.doing ≠ some i

theorem Inv.goes {j : Nat} {l' : Listener} (h : Inv P s) (hl : Goes (s.engines j) l' s.log.length) :
    Inv P { s with engines := Function.update s.engines j l' } := by
  have hsettled : ∀ i < s.log.length, ∀ k,
      ((s.engines k).up = true → i < (s.engines k).pos ∧ (s.engines k).doing ≠ some i) →
      (Function.update s.engines j l' k).up = true →
        i < (Function.update s.engines j l' k).pos ∧ (Function.update s.engines j l' k).doing ≠ some i := by
    intro i hi k hk
    rcases eq_or_ne k j with rfl | hne
    · rw [Function.update_self]
      exact hl.settled i hi hk
    · rw [Function.update_of_ne hne]
      exact hk
  exact
    { wrote := fun a m o ha => by
        have hw := h.wrote a m o ha
        cases o with
        | request q => exact hw
        | answer k i => exact hw
        | other => exact hw
      numbered := h.numbered
      answered := fun a m k i ha => by
        have hlt : i < s.log.length := Nat.lt_trans (h.wrote a m _ ha).1 (Stands.lt ha)
        exact hsettled i hlt k (h.answered a m k i ha)
      once := h.once
      doing := fun k i hk => by
        dsimp only at hk ⊢
        rcases eq_or_ne k j with rfl | hne
        · rw [Function.update_self] at hk ⊢
          exact hl.doing i hk
        · rw [Function.update_of_ne hne] at hk ⊢
          exact h.doing k i hk
      pos_le := fun k => by
        dsimp only
        rcases eq_or_ne k j with rfl | hne
        · rw [Function.update_self]
          exact hl.pos_le
        · rw [Function.update_of_ne hne]
          exact h.pos_le k
      since_le := h.since_le
      waits := fun q => by
        have hq := h.waits q
        dsimp only
        cases hph : (s.procs q).phase with
        | idle => trivial
        | opened since => trivial
        | waiting since pos own rsp toId =>
          rw [hph] at hq
          exact hq
      alone := fun q since hq q' hne hsrc => by
        obtain ⟨hidle, hover⟩ := h.alone q since hq q' hne hsrc
        refine ⟨hidle, fun i m hi => ⟨fun k => ?_, (hover i m hi).2⟩⟩
        exact hsettled i (Stands.lt hi) k ((hover i m hi).1 k) }

/-! ## Steps that write -/

theorem stands_concat {l : List (SysMsg × Origin)} {a : Nat} {m m' : SysMsg} {o o' : Origin}
    (h : (l ++ [(m, o)])[a]? = some (m', o')) :
    l[a]? = some (m', o') ∨ a = l.length ∧ m' = m ∧ o' = o := by
  obtain ⟨-, h⟩ | ⟨ha, h⟩ := getElem?_concat_cases h
  · exact Or.inl h
  · exact Or.inr ⟨ha, congrArg Prod.fst h, congrArg Prod.snd h⟩

theorem stands_append {l l' : List (SysMsg × Origin)} {a : Nat} {e : SysMsg × Origin}
    (h : l[a]? = some e) : (l ++ l')[a]? = some e := by
  rw [List.getElem?_append_left (List.getElem?_eq_some_iff.mp h).1]
  exact h

/-- A message that is no request, and no second answer, nor one to what is over. -/
theorem Inv.append {m : SysMsg} {o : Origin} (h : Inv P s) (hw : s.Wrote P s.log.length m o)
    (hreq : ∀ p, o ≠ .request p)
    (hans : ∀ j i, o = .answer j i →
      ((s.engines j).up = true → i < (s.engines j).pos ∧ (s.engines j).doing ≠ some i) ∧
      (∀ a m', ¬s.Stands a m' (.answer j i)) ∧
      ∀ p since p' m', since? (s.procs p).phase = some since → p' ≠ p → P.src p' = P.src p →
        ¬s.Stands i m' (.request p')) :
    Inv P { s with log := s.log ++ [(m, o)] } where
  wrote := by
    intro a m' o' ha
    have hmono : ∀ a m' o', s.Wrote P a m' o' → Wrote P { s with log := s.log ++ [(m, o)] } a m' o' := by
      intro a m' o' hw
      cases o' with
      | request q => exact hw
      | answer j i =>
        obtain ⟨hlt, m₀, p, hm₀, hanswers⟩ := hw
        exact ⟨hlt, m₀, p, stands_append hm₀, hanswers⟩
      | other => exact hw
    rcases stands_concat ha with ha | ⟨rfl, rfl, rfl⟩
    · exact hmono a m' o' (h.wrote a m' o' ha)
    · exact hmono _ _ _ hw
  numbered := by
    intro i i' m₁ m₂ p h₁ h₂ hb
    rcases stands_concat h₁ with h₁ | ⟨-, -, ho⟩
    · rcases stands_concat h₂ with h₂ | ⟨-, -, ho⟩
      · exact h.numbered i i' m₁ m₂ p h₁ h₂ hb
      · exact absurd ho.symm (hreq p)
    · exact absurd ho.symm (hreq p)
  answered := by
    intro a m' j i ha
    rcases stands_concat ha with ha | ⟨-, -, ho⟩
    · exact h.answered a m' j i ha
    · exact (hans j i ho.symm).1
  once := by
    intro a a' m₁ m₂ j i h₁ h₂
    rcases stands_concat h₁ with h₁ | ⟨ha, -, ho⟩
    · rcases stands_concat h₂ with h₂ | ⟨-, -, ho⟩
      · exact h.once a a' m₁ m₂ j i h₁ h₂
      · exact absurd h₁ ((hans j i ho.symm).2.1 a m₁)
    · rcases stands_concat h₂ with h₂ | ⟨ha', -, -⟩
      · exact absurd h₂ ((hans j i ho.symm).2.1 a' m₂)
      · exact ha.trans ha'.symm
  doing := h.doing
  pos_le j := Nat.le_trans (h.pos_le j) (by simp)
  since_le p since hp := Nat.le_trans (h.since_le p since hp) (by simp)
  waits := by
    intro q
    have hq := h.waits q
    dsimp only
    cases hph : (s.procs q).phase with
    | idle => trivial
    | opened since => trivial
    | waiting since pos own rsp toId =>
      rw [hph] at hq
      obtain ⟨hle, m₀, hm₀, hrest⟩ := hq
      exact ⟨hle, m₀, stands_append hm₀, hrest⟩
  alone := by
    intro q since hq q' hne hsrc
    obtain ⟨hidle, hover⟩ := h.alone q since hq q' hne hsrc
    refine ⟨hidle, fun i m₁ hi => ?_⟩
    rcases stands_concat hi with hi | ⟨-, -, ho⟩
    · refine ⟨(hover i m₁ hi).1, fun a m₂ j hle ha => ?_⟩
      rcases stands_concat ha with ha | ⟨-, -, ho⟩
      · exact (hover i m₁ hi).2 a m₂ j hle ha
      · exact (hans j i ho.symm).2.2 q since q' m₁ hq hne hsrc hi
    · exact absurd ho.symm (hreq q')

/-- A request is written with a number that its process has not used. -/
theorem Inv.send {p since : Nat} {cmd r : IOCmd} {toId : Int} {data : List UInt8} (h : Inv P s)
    (hph : (s.procs p).phase = .opened since) (hr : cmd.rsp = some r) :
    Inv P { s with
      log := s.log ++ [(⟨cmd, toId, P.src p, (s.procs p).requestId + 1, data⟩, .request p)]
      procs := Function.update s.procs p
        { requestId := (s.procs p).requestId + 1
          phase := .waiting since since s.log.length r toId } } where
  wrote := by
    intro a m o ha
    rcases stands_concat ha with ha | ⟨rfl, rfl, rfl⟩
    · have hw := h.wrote a m o ha
      cases o with
      | request q =>
        refine ⟨hw.1, hw.2.1, ?_⟩
        dsimp only
        rcases eq_or_ne q p with rfl | hq
        · rw [Function.update_self]
          exact Int.le_trans hw.2.2 (Int.le_add_one (Int.le_refl _))
        · rw [Function.update_of_ne hq]
          exact hw.2.2
      | answer j i =>
        obtain ⟨hlt, m₀, q, hm₀, hanswers⟩ := hw
        exact ⟨hlt, m₀, q, stands_append hm₀, hanswers⟩
      | other => exact hw
    · refine ⟨rfl, by rw [hr]; rfl, ?_⟩
      dsimp only
      rw [Function.update_self]
  numbered := by
    have hold : ∀ i m, s.Stands i m (.request p) → m.backWord ≠ (s.procs p).requestId + 1 := by
      intro i m hi heq
      have hle := (h.wrote i m _ hi).2.2
      omega
    intro i i' m₁ m₂ q h₁ h₂ hb
    rcases stands_concat h₁ with hold₁ | ⟨hi, rfl, ho₁⟩
    · rcases stands_concat h₂ with hold₂ | ⟨-, rfl, ho₂⟩
      · exact h.numbered i i' m₁ m₂ q hold₁ hold₂ hb
      · obtain rfl : q = p := Origin.request.inj ho₂
        exact absurd hb (hold i m₁ hold₁)
    · rcases stands_concat h₂ with hold₂ | ⟨hi', -, -⟩
      · obtain rfl : q = p := Origin.request.inj ho₁
        exact absurd hb.symm (hold i' m₂ hold₂)
      · exact hi.trans hi'.symm
  answered := by
    intro a m j i ha
    rcases stands_concat ha with ha | ⟨-, -, ho⟩
    · exact h.answered a m j i ha
    · cases ho
  once := by
    intro a a' m₁ m₂ j i h₁ h₂
    rcases stands_concat h₁ with h₁ | ⟨-, -, ho⟩
    · rcases stands_concat h₂ with h₂ | ⟨-, -, ho⟩
      · exact h.once a a' m₁ m₂ j i h₁ h₂
      · cases ho
    · cases ho
  doing := h.doing
  pos_le j := Nat.le_trans (h.pos_le j) (by simp)
  since_le q since' hq := by
    dsimp only at hq ⊢
    rw [List.length_append]
    rcases eq_or_ne q p with rfl | hne
    · rw [Function.update_self] at hq
      obtain rfl : since = since' := Option.some.inj hq
      exact Nat.le_add_right_of_le (h.since_le q since (by rw [hph]; rfl))
    · rw [Function.update_of_ne hne] at hq
      exact Nat.le_add_right_of_le (h.since_le q since' hq)
  waits := by
    intro q
    dsimp only
    rcases eq_or_ne q p with rfl | hne
    · rw [Function.update_self]
      refine ⟨Nat.le_refl _, _, List.getElem?_concat_length, ?_, rfl, hr⟩
      dsimp only
      rw [Function.update_self]
    · rw [Function.update_of_ne hne]
      have hq := h.waits q
      cases hph' : (s.procs q).phase with
      | idle => trivial
      | opened since => trivial
      | waiting since pos own rsp toId =>
        rw [hph'] at hq
        obtain ⟨hle, m₀, hm₀, hb, hrest⟩ := hq
        refine ⟨hle, m₀, stands_append hm₀, ?_, hrest⟩
        dsimp only
        rw [Function.update_of_ne hne]
        exact hb
  alone := by
    have hover : ∀ since' p', p' ≠ p → s.Over since' p' → Over { s with
        log := s.log ++ [(⟨cmd, toId, P.src p, (s.procs p).requestId + 1, data⟩, .request p)]
        procs := Function.update s.procs p
          { requestId := (s.procs p).requestId + 1
            phase := .waiting since since s.log.length r toId } } since' p' := by
      intro since' p' hne ho i m hi
      rcases stands_concat hi with hi | ⟨-, -, heq⟩
      · refine ⟨(ho i m hi).1, fun a m' j hle ha => ?_⟩
        rcases stands_concat ha with ha | ⟨-, -, heq⟩
        · exact (ho i m hi).2 a m' j hle ha
        · cases heq
      · exact absurd (Origin.request.inj heq) hne
    intro q since' hq p' hne hsrc
    dsimp only at hq ⊢
    rcases eq_or_ne q p with rfl | hqp
    · rw [Function.update_self] at hq
      obtain rfl : since = since' := Option.some.inj hq
      obtain ⟨hidle, ho⟩ := h.alone q since (by rw [hph]; rfl) p' hne hsrc
      refine ⟨?_, hover since p' hne ho⟩
      rw [Function.update_of_ne hne]
      exact hidle
    · rw [Function.update_of_ne hqp] at hq
      obtain ⟨hidle, ho⟩ := h.alone q since' hq p' hne hsrc
      rcases eq_or_ne p' p with rfl | hp'
      · rw [hph] at hidle
        cases hidle
      · refine ⟨?_, hover since' p' hp' ho⟩
        rw [Function.update_of_ne hp']
        exact hidle

theorem reply_eq {j i : Nat} {r : SysMsg} (h : s.reply P j i = some r) :
    ∃ m o, s.Stands i m o ∧ Answers P j m r := by
  unfold reply at h
  obtain ⟨⟨m, o⟩, hm, h⟩ := Option.bind_eq_some_iff.mp h
  split at h
  · rename_i hid
    obtain ⟨c, hc, rfl⟩ := Option.map_eq_some_iff.mp h
    exact ⟨m, o, hm, EngineKind.rsp_of_reply hc, rfl, hid, rfl, rfl⟩
  · cases h

/-- What can be answered has been asked with `sysRequest`. -/
theorem Inv.asked {i : Nat} {m : SysMsg} {o : Origin} {r : IOCmd} (h : Inv P s) (hm : s.Stands i m o)
    (hr : m.cmd.rsp = some r) : ∃ p, o = .request p := by
  have hw := h.wrote i m o hm
  cases o with
  | request p => exact ⟨p, rfl⟩
  | answer j k =>
    obtain ⟨-, m', p, -, hans⟩ := hw
    rw [IOCmd.rsp_rsp hans.cmd] at hr
    cases hr
  | other =>
    rw [hw.1] at hr
    cases hr

theorem Inv.answer {j i : Nat} (h : Inv P s) (hdoing : (s.engines j).doing = some i) :
    Inv P (s.next P (.answer j)) := by
  have hgoes : Goes (s.engines j) { s.engines j with doing := none } s.log.length :=
    ⟨h.pos_le j, nofun, fun k _ hk hup => ⟨(hk hup).1, nofun⟩⟩
  have hfree := h.goes hgoes
  obtain ⟨hup, hlt⟩ := h.doing j i hdoing
  simp only [next, hdoing]
  cases hreply : s.reply P j i with
  | none =>
    rw [Option.toList_none, List.map_nil, List.append_nil]
    exact hfree
  | some r =>
    obtain ⟨m, o, hm, hans⟩ := reply_eq hreply
    obtain ⟨p, rfl⟩ := h.asked hm hans.cmd
    refine hfree.append ⟨Stands.lt hm, m, p, hm, hans⟩ nofun ?_
    intro j' i' heq
    obtain ⟨rfl, rfl⟩ := Origin.answer.inj heq
    refine ⟨fun _ => ?_, fun a m' ha => (h.answered a m' j i ha hup).2 hdoing, ?_⟩
    · dsimp only
      rw [Function.update_self]
      exact ⟨hlt, nofun⟩
    · intro q since p' m' hq hne hsrc hi
      exact (((h.alone q since hq p' hne hsrc).2 i m' hi).1 j hup).2 hdoing

theorem Inv.next (h : Inv P s) (hable : s.Able e) (hfresh : s.Fresh P e) : Inv P (s.next P e) := by
  cases e with
  | enter p =>
    refine h.setPhase trivial fun since hs => ?_
    obtain rfl : s.log.length = since := Option.some.inj hs
    refine ⟨Nat.le_refl _, fun p' hne hsrc => ?_⟩
    obtain ⟨hidle, hsettled⟩ := hfresh p' hne hsrc
    refine ⟨hidle, fun i m hi => ⟨hsettled i m hi, fun a m' j hle ha => ?_⟩⟩
    exact absurd (Stands.lt ha) (Nat.not_lt.mpr hle)
  | send p cmd toId data =>
    obtain ⟨⟨since, hph⟩, hcmd⟩ := hable
    obtain ⟨r, hr⟩ := Option.isSome_iff_exists.mp hcmd
    simp only [SysWorld.next, hph, hr]
    exact h.send hph hr
  | read p =>
    cases hph : (s.procs p).phase with
    | idle =>
      simp only [SysWorld.next, hph]
      exact h
    | opened since =>
      simp only [SysWorld.next, hph]
      exact h
    | waiting since pos own rsp toId =>
      have hsame := h.alone p
      have hwaits := h.waits p
      rw [hph] at hsame hwaits
      simp only [SysWorld.next, hph]
      split
      · exact h.setPhase trivial nofun
      · split
        · refine h.setPhase ⟨Nat.le_succ_of_le hwaits.1, hwaits.2⟩ fun since' hs => ?_
          obtain rfl : since = since' := Option.some.inj hs
          exact ⟨h.since_le p since (by rw [hph]; rfl), hsame since rfl⟩
        · exact h
  | timeout p => exact h.setPhase trivial nofun
  | start j => exact h.goes ⟨Nat.le_refl _, nofun, fun i hi _ _ => ⟨hi, nofun⟩⟩
  | stop j => exact h.goes ⟨Nat.zero_le _, nofun, fun _ _ _ hup => by cases hup⟩
  | take j =>
    obtain ⟨hup, -, hlt⟩ := hable
    refine h.goes ⟨hlt, fun i hi => ?_, fun i _ hi _ => ?_⟩
    · dsimp only at hi ⊢
      split at hi
      · obtain rfl : (s.engines j).pos = i := Option.some.inj hi
        exact ⟨hup, Nat.lt_succ_self _⟩
      · cases hi
    · have hbefore := (hi hup).1
      refine ⟨Nat.lt_succ_of_lt hbefore, fun hi => ?_⟩
      dsimp only at hi
      split at hi
      · exact Nat.ne_of_gt hbefore (Option.some.inj hi)
      · cases hi
  | answer j =>
    obtain ⟨i, hdoing⟩ := Option.isSome_iff_exists.mp hable
    exact h.answer hdoing
  | other m =>
    exact h.append (IOCmd.unpaired_of_mem hable) nofun nofun

/-! ## The answer that is waited for -/

theorem ahead_start : Ahead P {} := by
  intro p since pos own rsp toId hph
  cases hph

/-- The test of the loop lets the answer to the request through. -/
theorem Inv.returned_of_answer {p since pos own j : Nat} {rsp : IOCmd} {toId : Int} {m : SysMsg}
    (h : Inv P s) (hph : (s.procs p).phase = .waiting since pos own rsp toId)
    (hm : s.Stands pos m (.answer j own)) (hj : P.eid j = toId) :
    s.returned P p = some (m, .answer j own) := by
  have hwaits := h.waits p
  rw [hph] at hwaits
  obtain ⟨-, m₀, hm₀, hb, -, hr⟩ := hwaits
  obtain ⟨-, m₁, p₁, hm₁, hans⟩ := h.wrote pos m _ hm
  obtain ⟨rfl, -⟩ := Prod.mk.inj (Option.some.inj (hm₀.symm.trans hm₁))
  have hcmd : m.cmd = rsp := Option.some.inj (hans.cmd.symm.trans hr)
  have hsrc : m.toId = P.src p := hans.toId.trans (h.wrote own m₀ _ hm₀).1
  have hmatch : Matches rsp toId (P.src p) (s.procs p).requestId m :=
    ⟨hcmd, hans.source.trans hj, hsrc, hans.backWord.trans hb⟩
  simp only [returned, hph]
  rw [hm, Option.filter_some_pos (by simpa using hmatch)]

/-- What is behind a reader stays where it is when the log grows. -/
theorem Ahead.append {es : List (SysMsg × Origin)} (h : Ahead P s) :
    Ahead P { s with log := s.log ++ es } := by
  intro p since pos own rsp toId hph
  obtain ⟨hle, hahead⟩ := h p since pos own rsp toId hph
  refine ⟨Nat.le_trans hle (by simp), fun a m j ha hj => ?_⟩
  rcases Nat.lt_or_ge a s.log.length with hlt | hge
  · refine hahead a m j ?_ hj
    exact (List.getElem?_append_left hlt).symm.trans ha
  · exact Nat.le_trans hle hge

theorem Ahead.setPhase {p : Nat} {phase : Phase} (h : Ahead P s)
    (hp : ∀ since pos own rsp toId, phase = .waiting since pos own rsp toId →
      pos ≤ s.log.length ∧ ∀ a m j, s.Stands a m (.answer j own) → P.eid j = toId → pos ≤ a) :
    Ahead P (s.setPhase p phase) := by
  intro q since pos own rsp toId hq
  dsimp only [SysWorld.setPhase] at hq
  rcases eq_or_ne q p with rfl | hne
  · rw [Function.update_self] at hq
    exact hp since pos own rsp toId hq
  · rw [Function.update_of_ne hne] at hq
    exact h q since pos own rsp toId hq

theorem Ahead.next (h : Ahead P s) (hinv : Inv P s) (hable : s.Able e) : Ahead P (s.next P e) := by
  cases e with
  | enter p => exact h.setPhase nofun
  | timeout p => exact h.setPhase nofun
  | send p cmd toId data =>
    obtain ⟨⟨since, hph⟩, hcmd⟩ := hable
    obtain ⟨r, hr⟩ := Option.isSome_iff_exists.mp hcmd
    simp only [SysWorld.next, hph, hr]
    have hlen : since ≤ s.log.length := hinv.since_le p since (by rw [hph]; rfl)
    intro q since' pos own rsp toId' hq
    have happ : Ahead P { s with
        log := s.log ++ [(⟨cmd, toId, P.src p, (s.procs p).requestId + 1, data⟩, .request p)] } := h.append
    dsimp only at hq ⊢
    rcases eq_or_ne q p with rfl | hne
    · rw [Function.update_self] at hq
      cases hq
      refine ⟨Nat.le_trans hlen (by simp), fun a m j ha _ => ?_⟩
      -- nobody can have answered what has just been written
      rcases stands_concat ha with ha | ⟨-, -, ho⟩
      · exact absurd (Nat.lt_trans (hinv.wrote a m _ ha).1 (Stands.lt ha)) (Nat.lt_irrefl _)
      · cases ho
    · rw [Function.update_of_ne hne] at hq
      exact happ q since' pos own rsp toId' hq
  | read p =>
    cases hph : (s.procs p).phase with
    | idle =>
      simp only [SysWorld.next, hph]
      exact h
    | opened since =>
      simp only [SysWorld.next, hph]
      exact h
    | waiting since pos own rsp toId =>
      obtain ⟨-, hahead⟩ := h p since pos own rsp toId hph
      simp only [SysWorld.next, hph]
      split
      · exact h.setPhase nofun
      · rename_i hnone
        split
        · rename_i hlt
          refine h.setPhase fun since' pos' own' rsp' toId' heq => ?_
          cases heq
          refine ⟨hlt, fun a m j ha hj => Nat.lt_of_le_of_ne (hahead a m j ha hj) ?_⟩
          rintro rfl
          exact hnone (by rw [hinv.returned_of_answer hph ha hj]; rfl)
        · exact h
  | start j => exact h
  | stop j => exact h
  | take j => exact h
  | answer j =>
    simp only [SysWorld.next]
    split
    · exact h.append
    · exact h
  | other m => exact h.append

/-- What the loop stops at is the answer to its own request. -/
theorem Inv.own {p : Nat} {m : SysMsg} {o : Origin} (h : Inv P s) (hret : s.returned P p = some (m, o)) :
    ∃ since pos own rsp toId j, (s.procs p).phase = .waiting since pos own rsp toId ∧
      o = .answer j own ∧ P.eid j = toId := by
  unfold returned at hret
  split at hret
  · rename_i since pos own rsp toId hph
    obtain ⟨hm, hmatch⟩ := Option.filter_eq_some_iff.mp hret
    obtain ⟨hcmd, hsource, hto, hb⟩ := of_decide_eq_true hmatch
    have hwaits := h.waits p
    rw [hph] at hwaits
    obtain ⟨hle, m₀, hm₀, hb₀, -, hr⟩ := hwaits
    have hwrote := h.wrote pos m o hm
    cases o with
    | request q =>
      dsimp only at hcmd
      have hsome := hwrote.2.1
      rw [hcmd, IOCmd.rsp_rsp hr] at hsome
      cases hsome
    | other => exact absurd (hr.trans (congrArg some hcmd.symm)) (hwrote.2 m₀.cmd)
    | answer j i =>
      obtain ⟨-, m', q, hm', hans⟩ := hwrote
      have hsrc : P.src q = P.src p :=
        (h.wrote i m' _ hm').1.symm.trans (hans.toId.symm.trans hto)
      rcases eq_or_ne q p with rfl | hne
      · have hi : i = own := h.numbered i own m' m₀ q hm' hm₀
          (hans.backWord.symm.trans (hb.trans hb₀.symm))
        exact ⟨since, pos, own, rsp, toId, j, hph, by rw [hi], hans.source.symm.trans hsource⟩
      · -- what the others of this name have asked is answered in front of `since` only
        obtain ⟨-, hover⟩ := h.alone p since (by rw [hph]; rfl) q hne hsrc
        exact absurd hm ((hover i m' hm').2 pos m j hle)
  · cases hret

/-- **Each call gets its own answer.** Whatever processes and engines do on the pages,
and however often they come and go: what `sysRequest` returns is the answer of the engine
that it has asked, to the request that this call has written, and no call reads past
such an answer. No engine answers a request twice. -/
theorem own_answer (h0 : (sys P).start s) (ha : (sys P).Admits s es)
    (hf : AtEach (fun pre e => ((sys P).exec s pre).Fresh P e) es) :
    (∀ p m o, ((sys P).exec s es).returned P p = some (m, o) →
      ∃ since pos own rsp toId j, (((sys P).exec s es).procs p).phase = .waiting since pos own rsp toId ∧
        o = .answer j own ∧ P.eid j = toId) ∧
    ((sys P).exec s es).Ahead P ∧
    ∀ a a' m m' j i, ((sys P).exec s es).Stands a m (.answer j i) →
      ((sys P).exec s es).Stands a' m' (.answer j i) → a = a' := by
  subst h0
  have hrun : Inv P ((sys P).exec {} es) ∧ Ahead P ((sys P).exec {} es) :=
    (sys P).invariant_atEach (I := fun s => Inv P s ∧ Ahead P s)
      (fun s e h hable hfresh => ⟨h.1.next hable hfresh, h.2.next h.1 hable⟩) {} es
      ⟨inv_start, ahead_start⟩ ha hf
  exact ⟨fun p m o => hrun.1.own, hrun.2, hrun.1.once⟩

/-- Two processes of one name, and an engine. -/
def twoOfAName : SysParties where
  src p := if p ≤ 1 then 5 else p + 10
  eid _ := 9
  kind _ := .td
  content _ _ _ _ := none

/-- A process asks and goes, and the next one of its name asks under the same number. -/
def restarted : List SysTurn :=
  [.start 0, .enter 0, .send 0 .IO_TD_ADD_CLIENT 9 [], .take 0, .answer 0, .timeout 0,
    .enter 1, .send 1 .IO_TD_ADD_CLIENT 9 [], .take 0, .take 0, .answer 0, .read 1]

theorem own_answer_restarted : ∃ since pos own rsp toId j,
    (((sys twoOfAName).exec {} restarted).procs 1).phase = .waiting since pos own rsp toId ∧
      Origin.answer 0 2 = .answer j own ∧ twoOfAName.eid j = toId := by
  have hname : ∀ p ≤ 1, ∀ p', p' ≠ p → twoOfAName.src p' = twoOfAName.src p → p' ≤ 1 := by
    intro p hp p' hne hsrc
    by_contra hp'
    simp only [twoOfAName, hp, hp', if_true, if_false] at hsrc
    omega
  have hadm : (sys twoOfAName).Admits {} restarted :=
    ⟨rfl, rfl, ⟨⟨0, rfl⟩, rfl⟩, ⟨rfl, rfl, Nat.lt_succ_self 0⟩, rfl, Phase.noConfusion, rfl, ⟨⟨2, rfl⟩, rfl⟩,
      ⟨rfl, rfl, Nat.lt_succ_of_lt (Nat.lt_succ_self 1)⟩, ⟨rfl, rfl, Nat.lt_succ_self 2⟩, rfl,
      Phase.noConfusion, trivial⟩
  refine (own_answer (P := twoOfAName) (s := {}) rfl hadm ?_).1 1 _ _ rfl
  rw [atEach_iff_getElem]
  intro i hi
  change i < 12 at hi
  rcases eq_or_ne i 1 with rfl | h1
  · intro p' hne hsrc
    exact ⟨rfl, fun i m hm => absurd hm (not_stands_start i m _)⟩
  rcases eq_or_ne i 6 with rfl | h6
  · intro p' hne hsrc
    obtain rfl : p' = 0 := by
      have hp' := hname 1 (Nat.le_refl 1) p' hne hsrc
      omega
    refine ⟨rfl, fun i m hm j hup => ?_⟩
    obtain rfl : i = 0 := by
      cases i with
      | zero => rfl
      | succ i => cases i <;> cases hm
    cases j with
    | zero => exact ⟨Nat.lt_succ_self 0, by decide⟩
    | succ j => cases hup
  interval_cases i
  all_goals first | exact absurd rfl h1 | exact absurd rfl h6 | trivial

end SysWorld

end NatFramework.Common
