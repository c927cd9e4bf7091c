import NatFramework.Lib.Run
import NatFramework.Tunnel.FileTransfer

/-!
# Remote shell

`CShellCmd` runs a shell command in a child whose output goes into a pipe. Two
watchers of the event loop serve it: one reads the pipe and relays what it gets,
the other is told that the child has exited, closes the pipe and says FINISH. The
exit handler does not read what is still in the pipe.

* `Relays`: what has been sent, with what is unread, is the output; `relays_next`.
* `output_iff`: a finished run has relayed all of it exactly when the pipe was
  empty as the exit was handled.
-/
namespace NatFramework.Tunnel

open Lib

/-- mirrors tunnel_agent/CShellCmd.h:15-19 -/
inductive RunState where
  | START
  | RUNNING
  | STOP
  deriving DecidableEq, Repr

def cmdFinish : UInt8 := 4
def cmdAllData : UInt8 := 7

/-- `WEXITSTATUS` -/
def wexitstatus (rstatus : Nat) : Nat := rstatus / 256 % 256

/-- The plain packet of `sayFinish` with the type the exit status gives.
mirrors tunnel_agent/CWaiter.cpp:396-401, tunnel_agent/CShellCmd.cpp:106-110 -/
def finishPkg (rstatus : Nat) : List UInt8 :=
  tCommand cmdFinish (if wexitstatus rstatus ≠ 0 then 1 else 0) 0

/-- `unread` is what is in the pipe behind `read_watcher_.fd`, `sent` the plain
packets given to `desSendData`.
mirrors tunnel_agent/CShellCmd.h:37-41 -/
structure CShellCmd where
  runState : RunState := .START
  unread : List UInt8 := []
  sent : List (List UInt8) := []
  deriving DecidableEq, Repr

/-- One turn of the loop in `onRead`: what the child writes while the waiter is at
it, and how much `read` gives. -/
structure PipeRead where
  meanwhile : List UInt8 := []
  got : Nat
  deriving DecidableEq, Repr

namespace CShellCmd

/-- `host`: whether `pipe` and `fork` succeed.
mirrors tunnel_agent/CShellCmd.cpp:37-91 -/
def run (host : Bool) (c : CShellCmd) : CShellCmd × TState :=
  match c.runState with
  | .STOP => (c, .next)
  | .RUNNING => (c, .abort)
  | .START => if host then ({ c with runState := .RUNNING }, .pending) else (c, .abort)

/-- mirrors tunnel_agent/CShellCmd.cpp:121-126 -/
def readBlock (r : PipeRead) (c : CShellCmd) : CShellCmd :=
  let avail := c.unread ++ r.meanwhile
  { c with unread := avail.drop r.got, sent := c.sent ++ [cmdAllData :: avail.take r.got] }

/-- mirrors tunnel_agent/CShellCmd.cpp:114-129 -/
def onRead (rs : List PipeRead) (c : CShellCmd) : CShellCmd :=
  rs.foldl (fun c r => c.readBlock r) c

/-- What `read` can give, one after the other. -/
def CanRead : List PipeRead → CShellCmd → Prop
  | [], _ => True
  | r :: rs, c => 0 < r.got ∧ r.got ≤ 1024 ∧ r.got ≤ (c.unread ++ r.meanwhile).length ∧
      CanRead rs (c.readBlock r)

instance canReadDecidable : ∀ (rs : List PipeRead) (c : CShellCmd), Decidable (CanRead rs c)
  | [], _ => isTrue trivial
  | r :: rs, c =>
    have := canReadDecidable rs (c.readBlock r)
    inferInstanceAs (Decidable (_ ∧ _ ∧ _ ∧ CanRead rs (c.readBlock r)))

/-- mirrors tunnel_agent/CShellCmd.cpp:99-111 -/
def onChildExit (rstatus : Nat) (c : CShellCmd) : CShellCmd :=
  { c with runState := .STOP, sent := c.sent ++ [finishPkg rstatus] }

end CShellCmd

/-! ## The event loop -/

/-- The command, the status of the child once it has exited, and all it wrote. -/
structure Shell where
  cmd : CShellCmd
  rstatus : Option Nat := none
  output : List UInt8 := []
  deriving DecidableEq, Repr

inductive ShellEvent where
  /-- the child writes -/
  | write (bs : List UInt8)
  /-- the child exits -/
  | exit (rstatus : Nat)
  /-- the loop calls `read_cb` -/
  | readable (rs : List PipeRead)
  /-- the loop calls `child_cb` -/
  | childExit
  deriving DecidableEq, Repr

namespace Shell

/-- The child writes until it exits; the watchers are started by `run` and stopped
by the exit handler. -/
def Ok (s : Shell) : ShellEvent → Prop
  | .write _ | .exit _ => s.rstatus = none
  | .readable rs => s.cmd.runState = .RUNNING ∧ rs ≠ [] ∧ CShellCmd.CanRead rs s.cmd ∧
      (s.rstatus = none ∨ ∀ r ∈ rs, r.meanwhile = [])
  | .childExit => s.cmd.runState = .RUNNING ∧ s.rstatus ≠ none

instance (s : Shell) (e : ShellEvent) : Decidable (s.Ok e) := by
  cases e <;> unfold Ok <;> infer_instance

def next (s : Shell) : ShellEvent → Shell
  | .write bs =>
    { s with cmd := { s.cmd with unread := s.cmd.unread ++ bs }, output := s.output ++ bs }
  | .exit rstatus => { s with rstatus := some rstatus }
  | .readable rs =>
    { s with cmd := s.cmd.onRead rs, output := s.output ++ rs.flatMap PipeRead.meanwhile }
  | .childExit => { s with cmd := s.cmd.onChildExit (s.rstatus.getD 0) }

/-- Just after the `run` that started the child. -/
def started : Shell := { cmd := (CShellCmd.run true {}).1 }

def sys : Sys Shell ShellEvent where
  start := (· = started)
  ok := Ok
  next := next

instance (s : Shell) (e : ShellEvent) : Decidable (sys.ok s e) :=
  inferInstanceAs (Decidable (s.Ok e))

/-! ## What is relayed -/

/-- The FINISH message, once the exit has been handled. -/
def finishing (s : Shell) : List (List UInt8) :=
  if s.cmd.runState = .STOP then [finishPkg (s.rstatus.getD 0)] else []

/-- The packets of the data are `chunks`; with what is unread they are the output. -/
structure Relays (s : Shell) (chunks : List (List UInt8)) : Prop where
  sent : s.cmd.sent = chunks.map (cmdAllData :: ·) ++ s.finishing
  output : chunks.flatten ++ s.cmd.unread = s.output
  sizes : ∀ c ∈ chunks, 0 < c.length ∧ c.length ≤ 1024
  running : s.cmd.runState = .RUNNING ∨ s.cmd.runState = .STOP ∧ s.rstatus ≠ none

variable {s : Shell} {chunks : List (List UInt8)}

theorem relays_started : Relays started [] := ⟨rfl, rfl, by simp, .inl rfl⟩

theorem onRead_runState (rs : List PipeRead) (c : CShellCmd) :
    (c.onRead rs).runState = c.runState := by
  induction rs generalizing c with
  | nil => rfl
  | cons r rs ih => exact ih (c.readBlock r)

/-- The packets of one call of `onRead`: together with what stays unread they are
what was in the pipe and what came into it. -/
theorem onRead_spec {rs : List PipeRead} {c : CShellCmd} (h : CShellCmd.CanRead rs c) :
    ∃ got : List (List UInt8),
    (c.onRead rs).sent = c.sent ++ got.map (cmdAllData :: ·) ∧
    got.flatten ++ (c.onRead rs).unread = c.unread ++ rs.flatMap PipeRead.meanwhile ∧
    ∀ g ∈ got, 0 < g.length ∧ g.length ≤ 1024 := by
  induction rs generalizing c with
  | nil => exact ⟨[], by simp [CShellCmd.onRead], by simp [CShellCmd.onRead], by simp⟩
  | cons r rs ih =>
    obtain ⟨hpos, hle, hfits, hrest⟩ := h
    obtain ⟨got, hsent, hunread, hsizes⟩ := ih hrest
    refine ⟨(c.unread ++ r.meanwhile).take r.got :: got, ?_, ?_, ?_⟩
    · rw [show c.onRead (r :: rs) = (c.readBlock r).onRead rs from rfl, hsent]
      simp [CShellCmd.readBlock]
    · rw [show c.onRead (r :: rs) = (c.readBlock r).onRead rs from rfl, List.flatten_cons,
        List.append_assoc, hunread, CShellCmd.readBlock, ← List.append_assoc, List.take_append_drop,
        List.append_assoc, List.flatMap_cons]
    · intro g hg
      rcases List.mem_cons.mp hg with rfl | hg
      · rw [List.length_take]
        omega
      · exact hsizes g hg

/-- A step relays more of the output, or leaves what is relayed. -/
theorem relays_next (h : Relays s chunks) {e : ShellEvent} (hok : s.Ok e) :
    ∃ chunks', Relays (s.next e) chunks' := by
  cases e with
  | write bs =>
    refine ⟨chunks, h.sent, ?_, h.sizes, h.running⟩
    simp only [next, ← h.output, List.append_assoc]
  | exit rstatus =>
    have hrun : s.cmd.runState = .RUNNING :=
      h.running.resolve_right fun hstop => hstop.2 hok
    refine ⟨chunks, ?_, h.output, h.sizes, .inl hrun⟩
    rw [show (s.next (.exit rstatus)).cmd = s.cmd from rfl, h.sent]
    simp [finishing, next, hrun]
  | readable rs =>
    obtain ⟨hrun, -, hcan, -⟩ := hok
    obtain ⟨got, hsent, hunread, hsizes⟩ := onRead_spec hcan
    have hstill : (s.next (.readable rs)).cmd.runState = .RUNNING := by
      rw [show (s.next (.readable rs)).cmd = s.cmd.onRead rs from rfl, onRead_runState, hrun]
    refine ⟨chunks ++ got, ?_, ?_, ?_, .inl hstill⟩
    · rw [show (s.next (.readable rs)).cmd.sent = (s.cmd.onRead rs).sent from rfl, hsent, h.sent]
      simp [finishing, hrun, hstill]
    · rw [show (s.next (.readable rs)).cmd = s.cmd.onRead rs from rfl, List.flatten_append,
        List.append_assoc, hunread, ← List.append_assoc, h.output]
      rfl
    · intro c hc
      exact (List.mem_append.mp hc).elim (h.sizes c) (hsizes c)
  | childExit =>
    obtain ⟨hrun, hexit⟩ := hok
    refine ⟨chunks, ?_, h.output, h.sizes, .inr ⟨rfl, hexit⟩⟩
    simp only [next, CShellCmd.onChildExit, h.sent, finishing]
    simp [hrun]

theorem relays_of_run {es : List ShellEvent} (h : sys.Admits started es) :
    ∃ chunks, Relays (sys.exec started es) chunks :=
  sys.invariant_run (I := fun s => ∃ chunks, Relays s chunks)
    (fun _ _ ⟨_, hs⟩ hok => relays_next hs hok) started es ⟨[], relays_started⟩ h

/-! ## A finished run -/

/-- All of the output was sent in order, in packets of at most 1024 bytes, and then
one FINISH. -/
def Complete (s : Shell) : Prop :=
  ∃ chunks : List (List UInt8),
    s.cmd.sent = chunks.map (cmdAllData :: ·) ++ [finishPkg (s.rstatus.getD 0)] ∧
    chunks.flatten = s.output ∧ ∀ c ∈ chunks, 0 < c.length ∧ c.length ≤ 1024

/-- The exit is handled with an empty pipe. -/
def Drained (s : Shell) (e : ShellEvent) : Prop := e = .childExit → s.cmd.unread = []

theorem complete_iff_unread (h : Relays s chunks) (hstop : s.cmd.runState = .STOP) :
    Complete s ↔ s.cmd.unread = [] := by
  have hsent := h.sent
  rw [finishing, if_pos hstop] at hsent
  constructor
  · rintro ⟨chunks', hsent', hout, -⟩
    have hmap := List.append_cancel_right (hsent.symm.trans hsent')
    have hchunks := (List.map_inj_right fun a b hab => (List.cons.inj hab).2).mp hmap
    have hall := h.output
    rw [hchunks, hout] at hall
    exact List.append_cancel_left (hall.trans (List.append_nil _).symm)
  · intro hnil
    have hall := h.output
    rw [hnil, List.append_nil] at hall
    exact ⟨chunks, hsent, hall, h.sizes⟩

/-- Nothing happens any more once the exit has been handled. -/
theorem stopped (h : Relays s chunks) (hstop : s.cmd.runState = .STOP) (e : ShellEvent) :
    ¬ s.Ok e := by
  have hne : s.cmd.runState ≠ .RUNNING := by simp [hstop]
  have hexit := (h.running.resolve_left hne).2
  cases e with
  | write bs => exact hexit
  | exit rstatus => exact hexit
  | readable rs => exact fun hok => hne hok.1
  | childExit => exact fun hok => hne hok.1

/-- The exit has not been handled before a state in which the command runs. -/
theorem before_running (h : Relays s chunks) {e : ShellEvent} (hok : s.Ok e)
    (hrun : (s.next e).cmd.runState = .RUNNING) :
    s.cmd.runState = .RUNNING ∧ e ≠ .childExit := by
  refine ⟨?_, ?_⟩
  · rcases h.running with hr | hr
    · exact hr
    · exact absurd hok (stopped h hr.1 e)
  · rintro rfl
    cases hrun

/-- Only the exit handler stops the command. -/
theorem childExit_of_stop {e : ShellEvent} (hrun : s.cmd.runState = .RUNNING)
    (hstop : (s.next e).cmd.runState = .STOP) : e = .childExit := by
  cases e with
  | childExit => rfl
  | write bs => simp [next, hrun] at hstop
  | exit rstatus => simp [next, hrun] at hstop
  | readable rs => simp [next, onRead_runState, hrun] at hstop

theorem drained_of_running {es : List ShellEvent} (h : sys.Admits started es)
    (hrun : (sys.exec started es).cmd.runState = .RUNNING) :
    AtEach (fun pre e => Drained (sys.exec started pre) e) es := by
  induction es using List.reverseRecOn with
  | nil => exact atEach_nil _
  | append_singleton es e ih =>
    obtain ⟨hpre, hok, -⟩ := (sys.admits_append started es [e]).mp h
    obtain ⟨chunks, hs⟩ := relays_of_run hpre
    rw [sys.exec_append] at hrun
    obtain ⟨hbefore, he⟩ := before_running hs hok hrun
    exact atEach_concat.mpr ⟨ih hpre hbefore, fun hexit => absurd hexit he⟩

/-- A run whose exit has been handled has relayed all of the output, and then said
FINISH once, exactly when the pipe was empty as the exit was handled. -/
theorem output_iff {es : List ShellEvent} (h : sys.Admits started es)
    (hdone : (sys.exec started es).cmd.runState = .STOP) :
    Complete (sys.exec started es) ↔
      AtEach (fun pre e => Drained (sys.exec started pre) e) es := by
  rcases List.eq_nil_or_concat es with rfl | ⟨pre, e, rfl⟩
  · cases hdone
  · rw [List.concat_eq_append] at h hdone ⊢
    obtain ⟨hpre, hok, -⟩ := (sys.admits_append started pre [e]).mp h
    obtain ⟨chunks, hs⟩ := relays_of_run hpre
    obtain ⟨chunks', hs'⟩ := relays_of_run h
    have hrun : (sys.exec started pre).cmd.runState = .RUNNING := by
      rcases hs.running with hr | hr
      · exact hr
      · exact absurd hok (stopped hs hr.1 e)
    -- the last event is the one that handles the exit, and it leaves the pipe as it is
    obtain rfl := childExit_of_stop hrun (by rwa [sys.exec_append] at hdone)
    rw [complete_iff_unread hs' hdone, atEach_concat, sys.exec_append]
    exact ⟨fun hnil => ⟨drained_of_running hpre hrun, fun _ => hnil⟩, fun hd => hd.2 rfl⟩

/-- The child writes three bytes, two are read, the rest is and the child exits. -/
theorem output_iff_three_bytes :
    Complete (sys.exec started [.write [1, 2, 3], .readable [{ got := 2 }], .exit 0,
      .readable [{ got := 1 }], .childExit]) := by
  refine (output_iff (by decide) (by decide)).mpr (atEach_iff_getElem.mpr ?_)
  simp only [Drained]
  decide

/-- The exit is handled before the byte in the pipe is read. -/
theorem output_lost : ¬ Complete (sys.exec started [.write [1], .exit 0, .childExit]) := by
  rintro ⟨chunks, hsent, hout, -⟩
  have hmap : chunks.map (cmdAllData :: ·) = [] :=
    (List.append_cancel_right (hsent : [] ++ [finishPkg 0] = _)).symm
  rw [List.map_eq_nil_iff.mp hmap] at hout
  exact absurd hout (by decide)

end Shell

end NatFramework.Tunnel
