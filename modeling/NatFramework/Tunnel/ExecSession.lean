import NatFramework.Tunnel.SendDir
import NatFramework.Utility.CmdLine

/-!
# EXEC

A strategy is started in four stages: the client sends the program, its configuration, its
directory and its arguments, and waits behind each for the server's word. `ExecWork` is
`CExecLoader` with the tree that its directory goes to.

* `ExecWork.checkedRun_eq`: the loader of `DoCommand`, with a tree behind its calls.
* `send_stage`: what a receiver makes of its packets, the session makes of them.
* `exec_round_trip`: what is started is what was sent.
-/
namespace NatFramework.Tunnel

open Lib Checked Utility

/-- mirrors tunnel_agent/protocol.h:46-50 -/
inductive FinishType where
  | TYPE_FINISH_SUCC
  | TYPE_FINISH_FAIL
  | TYPE_FINISH_ACK
  deriving DecidableEq

/-! ## The server -/

/-- A process: what `runChild` makes it of.
mirrors tunnel_agent/CExecLoader.cpp:203-275 -/
structure Started where
  name : List UInt8
  program : List UInt8
  conf : List UInt8
  workdir : List UInt8
  argv : List (List UInt8)
  deriving DecidableEq

structure ExecHost where
  baseDir : List UInt8
  /-- the name in a configuration that can be parsed -/
  stgName : List UInt8 → Option (List UInt8)
  /-- `findProcessByCmdLine(name) >= 0` -/
  running : List UInt8 → Bool
  realpath : List UInt8 → Option (List UInt8)
  /-- the directory, the table of strategies and `fork` -/
  load : Started → Bool

/-- mirrors tunnel_agent/CExecLoader.h:29-34 -/
inductive RecvState where
  | ST_RECV_FILE
  | ST_RECV_CONFIG
  | ST_RECV_DIR
  | ST_RECV_CMD

/-- `dirWork` has the tree of the server in every state.
mirrors tunnel_agent/CExecLoader.h:54-61 -/
structure ExecWork where
  dirWork : DirWork
  script : CFileReciever := {}
  confReciever : CFileReciever := {}
  name : List UInt8 := []
  conf : List UInt8 := []
  args : List UInt8 := []
  workdir : List UInt8 := []
  execState : RecvState := .ST_RECV_FILE
  started : Option Started := none

section Run

variable (L : StatLayout) (sha : Sha256) (host : ExecHost)

/-- mirrors tunnel_agent/CExecLoader.cpp:98-104 -/
def ExecHost.workdirOf (dirname : List UInt8) : List UInt8 :=
  if dirname = [] then [] else (host.realpath dirname).getD dirname

namespace ExecWork

/-- mirrors tunnel_agent/CExecLoader.cpp:55-88,121-125 -/
def takeConf (conf : List UInt8) (w : ExecWork) : ExecWork × TState × List FinishType :=
  match host.stgName conf with
  | none => ({ w with conf := conf }, .abort, [.TYPE_FINISH_FAIL])
  | some name =>
    let w := { w with conf := conf, name := name }
    if host.running name then (w, .finish, [.TYPE_FINISH_SUCC])
    else
      ({ w with dirWork := { tree := w.dirWork.tree } }, .pending, [.TYPE_FINISH_ACK])

/-- That the directory is deleted behind an abort is left out.
mirrors tunnel_agent/CExecLoader.cpp:110-125,203-275 -/
def loadArgs (args : List UInt8) (w : ExecWork) : ExecWork × TState × List FinishType :=
  let w := { w with args := args }
  let p : Started :=
    { name := w.name, program := w.script.content, conf := w.conf, workdir := w.workdir
      argv := splitCmdLine w.args }
  if host.load p then ({ w with started := some p }, .finish, [.TYPE_FINISH_SUCC])
  else (w, .abort, [.TYPE_FINISH_FAIL])

/-- mirrors tunnel_agent/CExecLoader.cpp:36-127 -/
def run (pkg : List UInt8) (w : ExecWork) : ExecWork × TState × List FinishType :=
  match w.execState with
  | .ST_RECV_FILE =>
    let r := w.script.run L sha pkg
    let w := { w with script := r.1 }
    match r.2 with
    | .finish => ({ w with execState := .ST_RECV_CONFIG, confReciever := {} }, .pending, [.TYPE_FINISH_ACK])
    | st => (w, st, [])
  | .ST_RECV_CONFIG =>
    let r := w.confReciever.run L sha pkg
    let w := { w with confReciever := r.1 }
    match r.2 with
    | .finish => { w with execState := .ST_RECV_DIR }.takeConf host r.1.content
    | st => (w, st, [])
  | .ST_RECV_DIR =>
    let r := w.dirWork.run L sha host.baseDir pkg
    let w := { w with dirWork := r.1 }
    match r.2 with
    | .finish =>
      ({ w with execState := .ST_RECV_CMD, workdir := host.workdirOf r.1.dirname }, .pending, [.TYPE_FINISH_ACK])
    | st => (w, st, [])
  | .ST_RECV_CMD => w.loadArgs host pkg

end ExecWork

/-- The loader and what it has said to the client; `closed` when it is no more. The end of a
connection is read as a failure. -/
structure ExecSession where
  work : ExecWork
  closed : Bool := false
  inbox : List FinishType := []

namespace ExecSession

def take (pkg : List UInt8) (s : ExecSession) : ExecSession :=
  if s.closed then s
  else
    let r := s.work.run L sha host pkg
    { work := r.1, closed := decide (r.2.1 ≠ .pending)
      inbox := s.inbox ++ r.2.2 ++ if r.2.1 = .abort then [.TYPE_FINISH_FAIL] else [] }

def send (d : Des) (pkgs : List (List UInt8)) (s : ExecSession) : ExecSession :=
  pkgs.foldl (fun s p => s.take L sha host (d.desDecrypt (d.desEncrypt p))) s

/-! ## The client -/

/-- `none`: nothing has come.
mirrors tunnel_agent/CClient.cpp:427-441 -/
def readEcho (s : ExecSession) : Option (ExecSession × FinishType) :=
  match s.inbox with
  | [] => none
  | e :: es => some ({ s with inbox := es }, e)

/-- One stage: what could be made to send is sent, and the answer read. -/
def stage (d : Des) (pkgs : Option (List (List UInt8))) (s : ExecSession)
    (next : ExecSession → FinishType → Option (ExecSession × Bool)) : Option (ExecSession × Bool) :=
  match pkgs with
  | none => some (s, false)
  | some pkgs =>
    match (s.send L sha host d pkgs).readEcho with
    | none => none
    | some (s, echo) => next s echo

end ExecSession

/-- mirrors libgen.h, `basename` -/
def basename (path : List UInt8) : List UInt8 :=
  match (components path).getLast? with
  | some x => x
  | none => if path = [] then [0x2e] else [slash]

/-- `stamp` is the time in digits.
mirrors tunnel_agent/CClient.cpp:571-579 -/
def remoteDir (workdir stamp : List UInt8) : List UInt8 :=
  if workdir = [] then [] else (tmpVar ++ basename workdir ++ 0x5f :: stamp).take 255

/-- `none`: the client still waits, or goes through its directory for ever.
mirrors tunnel_agent/CClient.cpp:538-588 -/
def doExecCmd (d : Des) (c : List UInt8 → Nat → Nat) (fs : LocalTree L) (stamp : List UInt8) (fuel : Nat)
    (config execfile argstr workdir : List UInt8) (s : ExecSession) : Option (ExecSession × Bool) :=
  match fs.openFile config with
  | none => some (s, false)
  | some content =>
    match host.stgName content.content with
    | none => some (s, false)
    | some name =>
      s.stage L sha host d (sendFile L sha (c execfile) fs.openFile execfile name cmdExec 0) fun s echo =>
        if echo ≠ .TYPE_FINISH_ACK then some (s, false)
        else
          s.stage L sha host d (sendFile L sha (c config) fs.openFile config name cmdExec 0) fun s echo =>
            match echo with
            | .TYPE_FINISH_SUCC => some (s, true)
            | .TYPE_FINISH_FAIL => some (s, false)
            | .TYPE_FINISH_ACK =>
              s.stage L sha host d (sendDir L sha c fs workdir cmdExec 0 fuel (remoteDir workdir stamp)) fun s echo =>
                if echo ≠ .TYPE_FINISH_ACK then some (s, false)
                else
                  s.stage L sha host d (some [argstr]) fun s echo => some (s, decide (echo = .TYPE_FINISH_SUCC))

/-! ### The line of a command -/

/-- What an EXEC or EXEC_DIR asks for. -/
structure ExecLine where
  config : List UInt8
  execfile : List UInt8
  argstr : List UInt8
  workdir : List UInt8
  deriving DecidableEq

def toLower (b : UInt8) : UInt8 := if 0x41 ≤ b ∧ b ≤ 0x5a then b + 0x20 else b

/-- `strcasecmp(order.c_str(), name) == 0`, for a name in lower case. -/
def isOrder (order name : List UInt8) : Bool := order.map toLower = name

def execName : List UInt8 := [0x65, 0x78, 0x65, 0x63]

def execDirName : List UInt8 := execName ++ [0x5f, 0x64, 0x69, 0x72]

/-- mirrors tunnel_agent/CClient.cpp:230-256, for EXEC and EXEC_DIR -/
def execLine (cmd : List UInt8) : Option ExecLine :=
  let cmdSplit := splitCmdLine cmd
  let order := cmdSplit.headD []
  if isOrder order execName then
    if cmdSplit.length < 3 then none
    else
      some
        { config := cmdSplit.getD 1 [], execfile := cmdSplit.getD 2 [], argstr := joinCmdVector cmdSplit space 3
          workdir := [] }
  else if isOrder order execDirName then
    if cmdSplit.length < 4 then none
    else
      some
        { config := cmdSplit.getD 2 [], execfile := cmdSplit.getD 3 [], argstr := joinCmdVector cmdSplit space 4
          workdir := cmdSplit.getD 1 [] }
  else none

def doOneCommand (d : Des) (c : List UInt8 → Nat → Nat) (fs : LocalTree L) (stamp : List UInt8) (fuel : Nat)
    (cmd : List UInt8) (s : ExecSession) : Option (ExecSession × Bool) :=
  match execLine cmd with
  | none => some (s, false)
  | some e => doExecCmd L sha host d c fs stamp fuel e.config e.execfile e.argstr e.workdir s

/-- Where the words of the program begin. -/
def argsFrom (cmd : List UInt8) : Nat := if isOrder ((splitCmdLine cmd).headD []) execName then 3 else 4

end Run

variable {L : StatLayout} {sha : Sha256} {host : ExecHost}

theorem execLine_words {cmd : List UInt8} {e : ExecLine} (h : execLine cmd = some e) :
    splitCmdLine e.argstr = (splitCmdLine cmd).drop (argsFrom cmd) := by
  unfold execLine at h
  unfold argsFrom
  dsimp only at h
  split at h
  · rename_i hexec
    rw [if_pos hexec]
    split at h
    · cases h
    · rw [← Option.some.inj h]
      exact split_join cmd 3
  · rename_i hexec
    rw [if_neg hexec]
    split at h
    · split at h
      · cases h
      · rw [← Option.some.inj h]
        exact split_join cmd 4
    · cases h

/-! ## The loader of a session -/

namespace ExecWork

variable {w : ExecWork} {c : CExecLoader} {pkg : List UInt8}

/-- The host of a session, with the tree for its directories. -/
def hostOf (L : StatLayout) (host : ExecHost) (host₀ : Host) (t : FileTree) : Host :=
  DirWork.hostOf L host.baseDir
    { host₀ with
      stgName := host.stgName
      running := host.running
      load := fun name program conf workdir args =>
        host.load ⟨name, program, conf, host.workdirOf workdir, splitCmdLine args⟩ } t

/-- The loader of `DoCommand` is in the same stage, with the same. -/
structure Matches (host : ExecHost) (w : ExecWork) (c : CExecLoader) : Prop where
  script : c.script = w.script
  name : c.name = w.name
  conf : c.conf = w.conf
  stage :
    match w.execState with
    | .ST_RECV_FILE => c.execState = .ST_RECV_FILE
    | .ST_RECV_CONFIG => c.execState = .ST_RECV_CONFIG w.confReciever
    | .ST_RECV_DIR => c.execState = .ST_RECV_DIR w.dirWork.recv
    | .ST_RECV_CMD => c.execState = .ST_RECV_CMD ∧ w.workdir = host.workdirOf c.workdir

theorem checkedRun_eq {host₀ : Host} (h : Matches host w c)
    (hfits : c.awaits.Fits (hostOf L host host₀ w.dirWork.tree) pkg) :
    ∃ c', c.checkedRun L sha (hostOf L host host₀ w.dirWork.tree) pkg = .ok (c', (w.run L sha host pkg).2.1) ∧
      ((w.run L sha host pkg).2.1 = .pending → Matches host (w.run L sha host pkg).1 c') := by
  obtain ⟨hscript, hname, hconf, hstage⟩ := h
  have hfile : ∀ r : CFileReciever, r.awaits.Fits (hostOf L host host₀ w.dirWork.tree) pkg →
      r.isFirstPkg = true → 6 ≤ pkg.length := by
    intro r hr hfirst
    rw [CFileReciever.awaits, if_pos hfirst] at hr
    exact hr
  unfold CExecLoader.awaits at hfits
  unfold CExecLoader.checkedRun Tunnel.stage run
  cases hstate : w.execState with
  | ST_RECV_FILE =>
    rw [hstate] at hstage
    simp only [hstage, hscript] at hfits ⊢
    rw [CFileReciever.checkedRun_eq (hfile _ hfits), ok_bind]
    cases hst : (w.script.run L sha pkg).2 with
    | finish => exact ⟨_, rfl, fun _ => ⟨rfl, hname, hconf, rfl⟩⟩
    | pending | next | abort =>
      exact ⟨_, rfl, fun _ => ⟨rfl, hname, hconf, by dsimp only⟩⟩
  | ST_RECV_CONFIG =>
    rw [hstate] at hstage
    simp only [hstage] at hfits ⊢
    rw [CFileReciever.checkedRun_eq (hfile _ hfits), ok_bind]
    cases hst : (w.confReciever.run L sha pkg).2 with
    | pending | next | abort => exact ⟨_, rfl, fun _ => ⟨hscript, hname, hconf, by dsimp only⟩⟩
    | finish =>
      dsimp only
      rw [if_pos rfl]
      unfold CExecLoader.takeConf takeConf
      dsimp only [hostOf, DirWork.hostOf]
      cases host.stgName (w.confReciever.run L sha pkg).1.content with
      | none => exact ⟨_, rfl, fun hp => by cases hp⟩
      | some name =>
        cases hrun : host.running name with
        | true =>
          simp only [hrun, if_true]
          exact ⟨_, rfl, fun hp => by cases hp⟩
        | false =>
          simp only [hrun, Bool.false_eq_true, if_false]
          exact ⟨_, rfl, fun _ => ⟨hscript, rfl, rfl, rfl⟩⟩
  | ST_RECV_DIR =>
    rw [hstate] at hstage
    simp only [hstage] at hfits ⊢
    unfold CDirReciever.awaits at hfits
    have hagrees : DirWork.Agrees (w.dirWork.recv.checkedRun L sha (hostOf L host host₀ w.dirWork.tree) pkg)
        (w.dirWork.run L sha host.baseDir pkg) := by
      cases hfirst : w.dirWork.isFirstPkg with
      | true =>
        rw [if_pos (show w.dirWork.recv.isFirstPkg = true from hfirst)] at hfits
        exact DirWork.checkedRun_eq (fun _ => hfits) fun _ _ _ => hfits
      | false =>
        rw [if_neg (show ¬w.dirWork.recv.isFirstPkg = true from Bool.not_eq_true _ ▸ hfirst)] at hfits
        refine DirWork.checkedRun_eq (fun h => absurd (hfirst.symm.trans h) (by decide)) fun r hr => ?_
        rw [show w.dirWork.recv.fileReciever = some r from hr] at hfits
        exact hfile r hfits
    obtain ⟨d, hd, hrecv⟩ := hagrees.run
    rw [hd, ok_bind]
    cases hst : (w.dirWork.run L sha host.baseDir pkg).2 with
    | finish =>
      refine ⟨_, rfl, fun _ => ⟨hscript, hname, hconf, rfl, ?_⟩⟩
      rw [hrecv (by rw [hst]; decide)]
      rfl
    | pending | next =>
      refine ⟨_, rfl, fun _ => ⟨hscript, hname, hconf, ?_⟩⟩
      dsimp only
      rw [hrecv (by rw [hst]; decide)]
    | abort => exact ⟨_, rfl, fun hp => by cases hp⟩
  | ST_RECV_CMD =>
    rw [hstate] at hstage
    simp only [hstage.1]
    unfold loadArgs
    dsimp only [hostOf, DirWork.hostOf]
    rw [hname, hconf, hscript, hstage.2]
    split
    · rename_i hload
      exact ⟨_, congrArg (fun st => Except.ok (_, st)) (if_pos hload), fun hp => by cases hp⟩
    · rename_i hload
      exact ⟨_, congrArg (fun st => Except.ok (_, st)) (if_neg hload), fun hp => by cases hp⟩

end ExecWork

/-! ## One stage -/

/-- The last packet of a receiver that finishes with it. -/
theorem feed_last {ρ : Type} {run : List UInt8 → ρ → ρ × TState} {r r' : ρ} {pkgs : List (List UInt8)}
    (hfeed : feed run r pkgs = (r', List.replicate (pkgs.length - 1) .pending ++ [.finish])) :
    ∃ front last, pkgs = front ++ [last] ∧ (feed run r front).2 = List.replicate front.length .pending ∧
      run last (feed run r front).1 = (r', .finish) := by
  rcases List.eq_nil_or_concat pkgs with rfl | ⟨front, last, rfl⟩
  · simp [feed] at hfeed
  · rw [List.concat_eq_append, feed_append] at hfeed
    obtain ⟨hr, hst⟩ := Prod.mk.inj hfeed
    rw [List.length_append, List.length_singleton, Nat.add_sub_cancel] at hst
    obtain ⟨hfront, hlast⟩ := List.append_inj' hst rfl
    exact ⟨front, last, List.concat_eq_append, hfront, Prod.ext hr (List.singleton_inj.mp hlast)⟩

/-- **One stage.** The session does with the packets what its receiver does; `put` is the
session with the receiver in it. -/
theorem ExecSession.send_stage {ρ : Type} {run : List UInt8 → ρ → ρ × TState} {put : ρ → ExecWork}
    (hput : ∀ r pkg, (run pkg r).2 = .pending →
      (put r).run L sha host pkg = (put (run pkg r).1, .pending, []))
    (d : Des) {r r' : ρ} {pkgs : List (List UInt8)} (hdel : ∀ p ∈ pkgs, Delivered p)
    (hfeed : feed run r pkgs = (r', List.replicate (pkgs.length - 1) .pending ++ [.finish])) :
    ∃ last r₁, run last r₁ = (r', .finish) ∧
      ExecSession.send L sha host d pkgs { work := put r } =
        ExecSession.take L sha host last { work := put r₁ } := by
  obtain ⟨front, last, rfl, hfront, hlast⟩ := feed_last hfeed
  have hmany : ∀ (front : List (List UInt8)) (r : ρ), (∀ p ∈ front, Delivered p) →
      (feed run r front).2 = List.replicate front.length .pending →
      ExecSession.send L sha host d front { work := put r } = { work := put (feed run r front).1 } := by
    intro front
    induction front with
    | nil => exact fun _ _ _ => rfl
    | cons p front ih =>
      intro r hdel hst
      rw [feed, List.length_cons, List.replicate_succ] at hst
      obtain ⟨hp, hst⟩ := List.cons.inj hst
      rw [feed, ← ih _ (fun p hp => hdel p (List.mem_cons_of_mem _ hp)) hst, ExecSession.send, List.foldl_cons,
        d.desDecrypt_desEncrypt p (hdel p List.mem_cons_self).lt, ExecSession.take, if_neg Bool.false_ne_true,
        hput r p hp]
      rfl
  refine ⟨last, _, hlast, ?_⟩
  rw [ExecSession.send, List.foldl_append]
  have hsent := hmany front r (fun p hp => hdel p (List.mem_append_left _ hp)) hfront
  rw [ExecSession.send] at hsent
  rw [hsent, List.foldl_cons, List.foldl_nil,
    d.desDecrypt_desEncrypt last (hdel last (List.mem_append_right _ List.mem_cons_self)).lt]

theorem ExecSession.stage_eq {d : Des} {s : ExecSession} {sent : Option (List (List UInt8))}
    {pkgs : List (List UInt8)} {w : ExecWork} {closed : Bool} {echo : FinishType} {es : List FinishType}
    (hsent : sent = some pkgs)
    (h : ExecSession.send L sha host d pkgs s = { work := w, closed := closed, inbox := echo :: es })
    (next : ExecSession → FinishType → Option (ExecSession × Bool)) :
    s.stage L sha host d sent next = next { work := w, closed := closed, inbox := es } echo := by
  subst hsent
  unfold ExecSession.stage
  dsimp only
  rw [h]
  rfl

/-! ## The four stages -/

section Stages

variable {d : Des} {c : Nat → Nat} {name : List UInt8} {f : FileEntry L} {w : ExecWork}

/-- A file that can be sent under a name. -/
structure FileOk (L : StatLayout) (sha : Sha256) (c : Nat → Nat) (name : List UInt8) (f : FileEntry L) : Prop where
  regular : L.isDir f.st = false
  size : f.content.length < 2 ^ 32
  delivered : ∀ p ∈ filePackets L sha c cmdExec 0 name f, Delivered p

/-- Both stages that take a file. -/
theorem send_file {put : CFileReciever → ExecWork}
    (hput : ∀ r pkg, (r.run L sha pkg).2 = .pending →
      (put r).run L sha host pkg = (put (r.run L sha pkg).1, .pending, []))
    (d : Des) (hname : 0 ∉ name) (hf : FileOk L sha c name f) :
    ∃ last r₁ r, r₁.run L sha last = (r, .finish) ∧ r.content = f.content ∧
      ExecSession.send L sha host d (filePackets L sha c cmdExec 0 name f) { work := put {} } =
        ExecSession.take L sha host last { work := put r₁ } := by
  obtain ⟨hres, hdone⟩ := CFileReciever.feed_filePackets hf.regular hf.size hname hf.delivered
  obtain ⟨last, r₁, hlast, hsend⟩ := ExecSession.send_stage hput d hf.delivered (Prod.ext rfl hres)
  exact ⟨last, r₁, _, hlast, hdone.content, hsend⟩

theorem send_program (host : ExecHost) (w : ExecWork) (d : Des) (hname : 0 ∉ name) (hf : FileOk L sha c name f)
    (hstate : w.execState = .ST_RECV_FILE) :
    ∃ r : CFileReciever, r.content = f.content ∧
      ExecSession.send L sha host d (filePackets L sha c cmdExec 0 name f) { work := { w with script := {} } } =
        { work := { w with script := r, execState := .ST_RECV_CONFIG, confReciever := {} }
          inbox := [.TYPE_FINISH_ACK] } := by
  have hput : ∀ (r : CFileReciever) pkg, (r.run L sha pkg).2 = .pending →
      ExecWork.run L sha host pkg { w with script := r } =
        ({ w with script := (r.run L sha pkg).1 }, .pending, []) := by
    intro r pkg hp
    simp [ExecWork.run, hstate, hp]
  obtain ⟨last, r₁, r, hlast, hcontent, hsend⟩ := send_file hput d hname hf
  refine ⟨r, hcontent, hsend.trans ?_⟩
  simp [ExecSession.take, ExecWork.run, hstate, hlast]

theorem send_config (host : ExecHost) (w : ExecWork) (d : Des) {name' : List UInt8} (hname : 0 ∉ name)
    (hf : FileOk L sha c name f) (hstg : host.stgName f.content = some name') (hstate : w.execState = .ST_RECV_CONFIG) :
    ∃ r, ExecSession.send L sha host d (filePackets L sha c cmdExec 0 name f)
        { work := { w with confReciever := {} } } =
      let w := { w with confReciever := r, execState := .ST_RECV_DIR, conf := f.content, name := name' }
      if host.running name' then { work := w, closed := true, inbox := [.TYPE_FINISH_SUCC] }
      else { work := { w with dirWork := { tree := w.dirWork.tree } }, inbox := [.TYPE_FINISH_ACK] } := by
  have hput : ∀ (r : CFileReciever) pkg, (r.run L sha pkg).2 = .pending →
      ExecWork.run L sha host pkg { w with confReciever := r } =
        ({ w with confReciever := (r.run L sha pkg).1 }, .pending, []) := by
    intro r pkg hp
    simp [ExecWork.run, hstate, hp]
  obtain ⟨last, r₁, r, hlast, hcontent, hsend⟩ := send_file hput d hname hf
  refine ⟨r, hsend.trans ?_⟩
  cases hrun : host.running name' <;>
    simp [ExecSession.take, ExecWork.run, ExecWork.takeConf, hstate, hlast, hcontent, hstg, hrun]

theorem send_directory (d : Des) {pkgs : List (List UInt8)} {v₀ v : DirWork} (hdel : ∀ p ∈ pkgs, Delivered p)
    (hfeed : feed (DirWork.run L sha host.baseDir) v₀ pkgs =
      (v, List.replicate (pkgs.length - 1) .pending ++ [.finish]))
    (hstate : w.execState = .ST_RECV_DIR) (hv : w.dirWork = v₀) :
    ExecSession.send L sha host d pkgs { work := w } =
      { work := { w with dirWork := v, execState := .ST_RECV_CMD, workdir := host.workdirOf v.dirname }
        inbox := [.TYPE_FINISH_ACK] } := by
  subst hv
  have hput : ∀ (v : DirWork) pkg, (v.run L sha host.baseDir pkg).2 = .pending →
      ExecWork.run L sha host pkg { w with dirWork := v } =
        ({ w with dirWork := (v.run L sha host.baseDir pkg).1 }, .pending, []) := by
    intro v pkg hp
    simp [ExecWork.run, hstate, hp]
  obtain ⟨last, v₁, hlast, hsend⟩ := ExecSession.send_stage hput d hdel hfeed
  refine hsend.trans ?_
  simp [ExecSession.take, ExecWork.run, hstate, hlast]

/-- The directory that is asked for, empty or not, and what is made of it. -/
structure DirOk (L : StatLayout) (baseDir : List UInt8) (fs : LocalTree L) (stamp workdir : List UInt8)
    (fuel : Nat) (t : FileTree) (l : Listing L) : Prop where
  bare : Bare workdir
  valid : l.Valid
  opens : l.Opens fs (workdir ++ [slash])
  shows : l.Shows fs (workdir ++ [slash])
  way : ∀ q, q <+: components (expand baseDir (remoteDir workdir stamp)) → t.isFile q = false
  free : ∀ x, t.node (components (expand baseDir (remoteDir workdir stamp)) ++ [x]) = none
  fuel : l.dirs < fuel

/-- The tree with the listing at `place`, and else as it was. -/
structure Grafted (t t' : FileTree) (place : List (List UInt8)) (l : Listing L) : Prop where
  found : ∀ q, q ≠ [] → t'.node (place ++ q) = l.lookup q
  same : ∀ q, (∀ x, ¬place ++ [x] <+: q) → t'.node q =
    if q <+: place ∧ (t.node q).isNone = true then some (.dir none) else t.node q

theorem remoteDir_ne_nil {workdir : List UInt8} (h : workdir ≠ []) (stamp : List UInt8) :
    remoteDir workdir stamp ≠ [] := by
  rw [remoteDir, if_neg h]
  simp [tmpVar]

theorem send_workdir (w : ExecWork) (d : Des) {c : List UInt8 → Nat → Nat} {fs : LocalTree L}
    {stamp workdir : List UInt8} {fuel : Nat} {l : Listing L}
    (hdir : workdir ≠ [] → DirOk L host.baseDir fs stamp workdir fuel w.dirWork.tree l)
    (hdel : ∀ pkgs, sendDir L sha c fs workdir cmdExec 0 fuel (remoteDir workdir stamp) = some pkgs →
      ∀ p ∈ pkgs, Delivered p)
    (hstate : w.execState = .ST_RECV_DIR) (hnew : w.dirWork = { tree := w.dirWork.tree }) :
    ∃ pkgs v, sendDir L sha c fs workdir cmdExec 0 fuel (remoteDir workdir stamp) = some pkgs ∧
      ExecSession.send L sha host d pkgs { work := w } =
        { work := { w with dirWork := v, execState := .ST_RECV_CMD, workdir := host.workdirOf v.dirname }
          inbox := [.TYPE_FINISH_ACK] } ∧
      (workdir = [] → v.dirname = [] ∧ v.tree = w.dirWork.tree) ∧
      (workdir ≠ [] → v.dirname = expand host.baseDir (remoteDir workdir stamp) ∧
        Grafted w.dirWork.tree v.tree (components (expand host.baseDir (remoteDir workdir stamp))) l) := by
  by_cases hw : workdir = []
  · subst hw
    have hsend : sendDir L sha c fs [] cmdExec 0 fuel (remoteDir [] stamp) = some [tCommand cmdExec 0 0] := rfl
    have hfeed : feed (DirWork.run L sha host.baseDir) { tree := w.dirWork.tree } [tCommand cmdExec 0 0] =
        ({ tree := w.dirWork.tree, isFirstPkg := false }, [.finish]) := rfl
    refine ⟨_, _, hsend, send_directory d (hdel _ hsend) hfeed hstate hnew, fun _ => ⟨rfl, rfl⟩, fun h => ?_⟩
    exact absurd rfl h
  · have h := hdir hw
    obtain ⟨pkgs, hsend, hround⟩ := feed_sendDir host.baseDir (show cmdExec ≠ cmdFinish by decide)
      (remoteDir_ne_nil hw stamp) h.bare h.valid h.opens h.shows h.way h.free h.fuel
    obtain ⟨v, hfeed, hdirname, hfound, hsame⟩ := hround (hdel pkgs hsend)
    exact ⟨pkgs, v, hsend, send_directory d (hdel pkgs hsend) hfeed hstate hnew, fun h => absurd h hw,
      fun _ => ⟨hdirname, hfound, hsame⟩⟩

theorem send_args (L : StatLayout) (sha : Sha256) (host : ExecHost) (w : ExecWork) (d : Des) {args : List UInt8}
    (hdel : Delivered args) (hstate : w.execState = .ST_RECV_CMD) :
    ExecSession.send L sha host d [args] { work := w } =
      let p : Started := ⟨w.name, w.script.content, w.conf, w.workdir, splitCmdLine args⟩
      if host.load p then
        { work := { w with args := args, started := some p }, closed := true, inbox := [.TYPE_FINISH_SUCC] }
      else
        { work := { w with args := args }, closed := true, inbox := [.TYPE_FINISH_FAIL, .TYPE_FINISH_FAIL] } := by
  rw [ExecSession.send, List.foldl_cons, List.foldl_nil, d.desDecrypt_desEncrypt args hdel.lt]
  cases hload : host.load ⟨w.name, w.script.content, w.conf, w.workdir, splitCmdLine args⟩ <;>
    simp [ExecSession.take, ExecWork.run, ExecWork.loadArgs, hstate, hload]

end Stages

/-- What the client has, and can send. -/
structure ExecOk (L : StatLayout) (sha : Sha256) (host : ExecHost) (c : List UInt8 → Nat → Nat) (fs : LocalTree L)
    (stamp : List UInt8) (fuel : Nat) (e : ExecLine) (t : FileTree) (cf ef : FileEntry L) (l : Listing L)
    (name : List UInt8) : Prop where
  /-- the configuration is opened twice, once without its quotes -/
  config : fs.openFile e.config = some cf ∧ fs.openFile (unquote e.config) = some cf
  execfile : fs.openFile (unquote e.execfile) = some ef
  stgName : host.stgName cf.content = some name
  name_nul : 0 ∉ name
  configOk : FileOk L sha (c e.config) name cf
  execOk : FileOk L sha (c e.execfile) name ef
  dirOk : e.workdir ≠ [] → DirOk L host.baseDir fs stamp e.workdir fuel t l
  dirDelivered : ∀ pkgs, sendDir L sha c fs e.workdir cmdExec 0 fuel (remoteDir e.workdir stamp) = some pkgs →
    ∀ p ∈ pkgs, Delivered p
  argsDelivered : Delivered e.argstr

/-- **What is started is what was sent.** A line EXEC or EXEC_DIR, with files and a
directory that can be sent: the client comes to its end; unless a process of the name runs,
the server starts the program, with the configuration, in the directory, which it has made, with
the words of the line; the client is told how it went. -/
theorem exec_round_trip (L : StatLayout) (sha : Sha256) (host : ExecHost) (d : Des) (c : List UInt8 → Nat → Nat)
    (fs : LocalTree L) (stamp : List UInt8) (fuel : Nat) (cmd : List UInt8) (e : ExecLine) (t : FileTree)
    (cf ef : FileEntry L) (l : Listing L) (name : List UInt8) (hline : execLine cmd = some e)
    (h : ExecOk L sha host c fs stamp fuel e t cf ef l name) :
    let place := if e.workdir = [] then [] else expand host.baseDir (remoteDir e.workdir stamp)
    let p : Started :=
      { name := name, program := ef.content, conf := cf.content, workdir := host.workdirOf place
        argv := (splitCmdLine cmd).drop (argsFrom cmd) }
    ∃ s, doOneCommand L sha host d c fs stamp fuel cmd { work := { dirWork := { tree := t } } } =
        some (s, host.running name || host.load p) ∧
      s.work.started = (if host.running name = false ∧ host.load p = true then some p else none) ∧
      (host.running name = true ∨ e.workdir = [] → s.work.dirWork.tree = t) ∧
      (s.work.started = some p → e.workdir ≠ [] → Grafted t s.work.dirWork.tree (components place) l) := by
  intro place p
  have hwords : splitCmdLine e.argstr = (splitCmdLine cmd).drop (argsFrom cmd) := execLine_words hline
  let w₀ : ExecWork := { dirWork := { tree := t } }
  have hexec : sendFile L sha (c e.execfile) fs.openFile e.execfile name cmdExec 0 =
      some (filePackets L sha (c e.execfile) cmdExec 0 name ef) := by
    rw [sendFile, h.execfile, Option.map_some]
  have hconfig : sendFile L sha (c e.config) fs.openFile e.config name cmdExec 0 =
      some (filePackets L sha (c e.config) cmdExec 0 name cf) := by
    rw [sendFile, h.config.2, Option.map_some]
  obtain ⟨r₁, hcontent, hsend₁⟩ := send_program host w₀ d h.name_nul h.execOk rfl
  let w₁ : ExecWork := { w₀ with script := r₁, execState := .ST_RECV_CONFIG }
  obtain ⟨r₂, hsend₂⟩ := send_config host w₁ d h.name_nul h.configOk h.stgName rfl
  let w₂ : ExecWork := { w₁ with confReciever := r₂, execState := .ST_RECV_DIR, conf := cf.content, name := name }
  rw [doOneCommand, hline]
  dsimp only
  rw [doExecCmd, h.config.1]
  dsimp only
  rw [h.stgName]
  dsimp only
  rw [ExecSession.stage_eq hexec hsend₁, if_neg (by decide)]
  cases hrun : host.running name with
  | true =>
    dsimp only at hsend₂
    rw [if_pos hrun] at hsend₂
    rw [ExecSession.stage_eq hconfig hsend₂]
    exact ⟨_, rfl, rfl, fun _ => rfl, fun hstarted => by cases hstarted⟩
  | false =>
    dsimp only at hsend₂
    rw [if_neg (by rw [hrun]; decide)] at hsend₂
    rw [ExecSession.stage_eq hconfig hsend₂]
    dsimp only
    obtain ⟨pkgs, v, hdir, hsend₃, hnone, hsome⟩ := send_workdir w₂ d h.dirOk h.dirDelivered rfl rfl
    let w₃ : ExecWork := { w₂ with dirWork := v, execState := .ST_RECV_CMD, workdir := host.workdirOf v.dirname }
    have hsend₄ := send_args L sha host w₃ d h.argsDelivered rfl
    have hplace : v.dirname = place := by
      by_cases hw : e.workdir = []
      · exact (hnone hw).1.trans (if_pos hw).symm
      · exact (hsome hw).1.trans (if_neg hw).symm
    have hp : (⟨w₃.name, w₃.script.content, w₃.conf, w₃.workdir, splitCmdLine e.argstr⟩ : Started) = p := by
      dsimp only [w₃, w₂, w₁, p]
      rw [hcontent, hplace, hwords]
    have htree : ∀ hw : e.workdir ≠ [], Grafted t v.tree (components place) l := by
      intro hw
      rw [show place = _ from if_neg hw]
      exact (hsome hw).2
    dsimp only at hsend₄
    rw [hp] at hsend₄
    rw [ExecSession.stage_eq hdir hsend₃, if_neg (by decide)]
    cases hload : host.load p with
    | true =>
      rw [if_pos hload] at hsend₄
      rw [ExecSession.stage_eq rfl hsend₄]
      refine ⟨_, rfl, (if_pos ⟨rfl, rfl⟩).symm, fun hw => ?_, fun _ hw => htree hw⟩
      exact (hnone (hw.resolve_left (by decide))).2
    | false =>
      rw [if_neg (by rw [hload]; decide)] at hsend₄
      rw [ExecSession.stage_eq rfl hsend₄]
      refine ⟨_, rfl, (if_neg (by decide)).symm, fun hw => ?_, fun hstarted => by cases hstarted⟩
      exact (hnone (hw.resolve_left (by decide))).2

/-! ### A directory, a configuration and a program of six bytes -/

def execTree : LocalTree byteStat where
  opendir := nestedTree.opendir
  openFile p := if p = [102] ∨ p = [101] then some sixBytes else nestedTree.openFile p

def willingHost : ExecHost where
  baseDir := [slash]
  stgName _ := some [110]
  running _ := false
  realpath _ := none
  load _ := true

/-- `exec_dir c f e a "b c"` -/
def execDirLine : List UInt8 :=
  execDirName ++ [0x20, 99, 0x20, 102, 0x20, 101, 0x20, 97, 0x20, 0x22, 98, 0x20, 99, 0x22]

theorem exec_round_trip_dir :
    ∃ s, doOneCommand byteStat byteSum willingHost reversed (fun _ _ => 1) execTree [49] 3 execDirLine
        { work := { dirWork := { tree := rootOnly } } } = some (s, true) ∧
      s.work.started = some
        { name := [110], program := [1, 2, 3, 4, 5, 6], conf := [1, 2, 3, 4, 5, 6]
          workdir := [slash] ++ tmpDir ++ [99, 0x5f, 49, slash], argv := [[97], [0x22, 98, 0x20, 99, 0x22]] } := by
  let e : ExecLine := ⟨[102], [101], [97, 0x20, 0x22, 98, 0x20, 99, 0x22], [99]⟩
  have hline : execLine execDirLine = some e := by decide +kernel
  have hfile : FileOk byteStat byteSum (fun _ => 1) [110] sixBytes :=
    ⟨rfl, by decide, delivered_of_all (by decide +kernel) (Eq.refl (some _))⟩
  have hdir : DirOk byteStat willingHost.baseDir execTree [49] e.workdir 3 rootOnly nested :=
    ⟨⟨by decide, by decide⟩, nested_valid, ⟨_, rfl, rfl⟩, ⟨rfl, ⟨_, rfl, rfl⟩, ⟨rfl, trivial⟩, trivial⟩,
      fun q _ => rootOnly_isFile q, rootOnly_free _, by decide⟩
  obtain ⟨s, hrun, hstarted, -, -⟩ := exec_round_trip byteStat byteSum willingHost reversed (fun _ _ => 1) execTree
    [49] 3 execDirLine e rootOnly sixBytes sixBytes nested [110] hline
    ⟨⟨rfl, rfl⟩, rfl, rfl, by decide, hfile, hfile, fun _ => hdir, fun pkgs => delivered_of_all (by decide +kernel),
      by unfold Delivered; decide +kernel⟩
  exact ⟨s, hrun, hstarted.trans (by decide +kernel)⟩

end NatFramework.Tunnel
