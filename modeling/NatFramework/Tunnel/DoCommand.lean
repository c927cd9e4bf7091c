import NatFramework.Tunnel.CShellCmd
import NatFramework.Tunnel.FirstPkg

/-!
# Commands

`CWaiter::doCommand` and the commanders it hands a decrypted packet to, under the
checker, for a session whose keys have been exchanged. What the rest of the host
answers is `Host`; the messages to the client are left out but for those of
`CSaveFileCmd`.

* `Await`: what a session waits for, with `Short`, what is too short for it, and
  `Fits`, what it needs.
* `Commander.handles`: a commander reads inside a packet that fits, and refuses what
  is too short.
* `bounded_iff`: so does a session, and only then.
-/
namespace NatFramework.Tunnel

open Lib Checked

/-- mirrors tunnel_agent/protocol.h:32-43 -/
def cmdShell : UInt8 := 1
def cmdPython : UInt8 := 2
def cmdExec : UInt8 := 3
def cmdStg : UInt8 := 5
def cmdBye : UInt8 := 6

structure Host where
  fs : LocalFs
  /-- `pipe` and `fork` of a shell command -/
  shellOk : Bool
  /-- the directory that `makedir` makes of a name -/
  makedir : List UInt8 → Option (List UInt8)
  /-- `CDirReciever::writeFile`, for a directory -/
  writeFile : List UInt8 → CFileReciever → Bool
  /-- the name in a configuration that can be parsed -/
  stgName : List UInt8 → Option (List UInt8)
  /-- `findProcessByCmdLine(name) >= 0` -/
  running : List UInt8 → Bool
  /-- whether name, program, configuration, directory and arguments are made a process -/
  load : List UInt8 → List UInt8 → List UInt8 → List UInt8 → List UInt8 → Bool

/-! ## The commanders -/

/-- mirrors tunnel_agent/CDirReciever.h:39-42 -/
structure CDirReciever where
  isFirstPkg : Bool := true
  dirname : List UInt8 := []
  fileReciever : Option CFileReciever := none

/-- One stage of a command: on FINISH it is `done`, else it is kept. -/
def stage {ρ κ : Type} (x : Checked (ρ × TState)) (keep : ρ → κ) (done : ρ → κ × TState) :
    Checked (κ × TState) := do
  let r ← x
  if r.2 = .finish then .ok (done r.1) else .ok (keep r.1, r.2)

section Run

variable (L : StatLayout) (sha : Sha256) (host : Host)

namespace CDirReciever

/-- mirrors tunnel_agent/CDirReciever.cpp:109-124 -/
def fileRun (r : CFileReciever) (pkg : List UInt8) (d : CDirReciever) :
    Checked (CDirReciever × TState) :=
  stage (r.checkedRun L sha pkg) (fun r => { d with fileReciever := some r }) fun r =>
    if host.writeFile d.dirname r then ({ d with fileReciever := none }, .pending)
    else ({ d with fileReciever := some r }, .abort)

/-- mirrors tunnel_agent/CDirReciever.cpp:97-108 -/
def checkedPkg (pkg : List UInt8) (d : CDirReciever) : Checked (CDirReciever × TState) :=
  match d.fileReciever with
  | some r => fileRun L sha host r pkg d
  | none =>
    if pkg.length < 6 then .ok (d, .abort)
    else do
      let cmd ← readByte pkg 0
      if cmd = cmdFinish then .ok (d, .finish) else fileRun L sha host {} pkg d

/-- `substr` throws behind the end of the string.
mirrors tunnel_agent/CDirReciever.cpp:30-46 -/
def checkedRun (pkg : List UInt8) (d : CDirReciever) : Checked (CDirReciever × TState) :=
  if d.isFirstPkg then do
    let dirname ← readTail pkg 6
    let d := { d with isFirstPkg := false, dirname := dirname }
    if dirname.length = 0 then .ok (d, .finish)
    else
      match host.makedir dirname with
      | some dir => .ok ({ d with dirname := dir }, .pending)
      | none => .ok (d, .abort)
  else checkedPkg L sha host pkg d

end CDirReciever

/-- The child reads its command behind the head.
mirrors tunnel_agent/CShellCmd.cpp:37-91 -/
def CShellCmd.checkedRun (pkg : List UInt8) (c : CShellCmd) : Checked (CShellCmd × TState) :=
  if c.runState = .START ∧ host.shellOk = true then do
    let _cmd ← readTail pkg 6
    .ok (c.run host.shellOk)
  else .ok (c.run host.shellOk)

/-- The receivers are there in the states that use them.
mirrors tunnel_agent/CPythonExecutor.h:21-28 -/
inductive PyExecState where
  | RECV_SCRIPT
  | RECV_CONF (r : CFileReciever)
  | RECV_WORKDIR (d : CDirReciever)
  | RECV_ARGS (d : CDirReciever)
  | RUN (d : CDirReciever)

/-- mirrors tunnel_agent/CPythonExecutor.h:54-58 -/
structure CPythonExecutor where
  script : CFileReciever := {}
  conf : List UInt8 := []
  args : List UInt8 := []
  state : PyExecState := .RECV_SCRIPT

namespace CPythonExecutor

/-- mirrors tunnel_agent/CPythonExecutor.cpp:75-103 -/
def runStg (d : CDirReciever) (c : CPythonExecutor) : TState :=
  match host.stgName c.conf with
  | none => .abort
  | some name =>
    if host.running name then .finish
    else if host.load name c.script.content c.conf d.dirname c.args then .finish
    else .abort

/-- mirrors tunnel_agent/CPythonExecutor.cpp:36-109 -/
def checkedRun (pkg : List UInt8) (c : CPythonExecutor) : Checked (CPythonExecutor × TState) :=
  match c.state with
  | .RECV_SCRIPT =>
    stage (c.script.checkedRun L sha pkg) (fun r => { c with script := r }) fun r =>
      ({ c with script := r, state := .RECV_CONF {} }, .pending)
  | .RECV_CONF r =>
    stage (r.checkedRun L sha pkg) (fun r => { c with state := .RECV_CONF r }) fun r =>
      ({ c with conf := r.content, state := .RECV_WORKDIR {} }, .pending)
  | .RECV_WORKDIR d =>
    stage (d.checkedRun L sha host pkg) (fun d => { c with state := .RECV_WORKDIR d }) fun d =>
      ({ c with state := .RECV_ARGS d }, .pending)
  | .RECV_ARGS d =>
    let c := { c with args := pkg, state := .RUN d }
    .ok (c, c.runStg host d)
  | .RUN d => .ok (c, c.runStg host d)

end CPythonExecutor

/-- mirrors tunnel_agent/CExecLoader.h:29-34 -/
inductive ExecState where
  | ST_RECV_FILE
  | ST_RECV_CONFIG (r : CFileReciever)
  | ST_RECV_DIR (d : CDirReciever)
  | ST_RECV_CMD

/-- mirrors tunnel_agent/CExecLoader.h:54-61 -/
structure CExecLoader where
  script : CFileReciever := {}
  name : List UInt8 := []
  conf : List UInt8 := []
  args : List UInt8 := []
  workdir : List UInt8 := []
  execState : ExecState := .ST_RECV_FILE

namespace CExecLoader

/-- A configuration is there: is it good, and not of a strategy that runs?
mirrors tunnel_agent/CExecLoader.cpp:53-88 -/
def takeConf (conf : List UInt8) (c : CExecLoader) : CExecLoader × TState :=
  match host.stgName conf with
  | none => ({ c with conf := conf }, .abort)
  | some name =>
    let c := { c with conf := conf, name := name }
    if host.running name then (c, .finish)
    else ({ c with execState := .ST_RECV_DIR {} }, .pending)

/-- mirrors tunnel_agent/CExecLoader.cpp:36-127 -/
def checkedRun (pkg : List UInt8) (c : CExecLoader) : Checked (CExecLoader × TState) :=
  match c.execState with
  | .ST_RECV_FILE =>
    stage (c.script.checkedRun L sha pkg) (fun r => { c with script := r }) fun r =>
      ({ c with script := r, execState := .ST_RECV_CONFIG {} }, .pending)
  | .ST_RECV_CONFIG r =>
    stage (r.checkedRun L sha pkg) (fun r => { c with execState := .ST_RECV_CONFIG r }) fun r =>
      c.takeConf host r.content
  | .ST_RECV_DIR d =>
    stage (d.checkedRun L sha host pkg) (fun d => { c with execState := .ST_RECV_DIR d }) fun d =>
      ({ c with workdir := d.dirname, execState := .ST_RECV_CMD }, .pending)
  | .ST_RECV_CMD =>
    let c := { c with args := pkg }
    .ok (c, if host.load c.name c.script.content c.conf c.workdir c.args then .finish else .abort)

end CExecLoader

/-- mirrors tunnel_agent/protocol.h:66-71 -/
structure StgRequest where
  type : UInt8
  data : Nat
  name : List UInt8

/-- What is asked of the table of strategies, if the packet has it.
mirrors tunnel_agent/CStrategyManager.cpp:24-85 -/
def stgRun (pkg : List UInt8) : Checked (Option StgRequest × TState) :=
  if pkg.length < 10 then .ok (none, .abort)
  else do
    let type ← readByte pkg 1
    let data ← readSpan pkg 2 8
    let name ← readSpan pkg 10 (pkg.length - 10)
    .ok (some { type := type, data := ofLe data, name := name }, .finish)

/-! ## The session -/

inductive Commander where
  | saveFile (c : CSaveFileCmd)
  | shell (c : CShellCmd)
  | python (c : CPythonExecutor)
  | exec (c : CExecLoader)
  | stg (asked : Option StgRequest)

namespace Commander

/-- mirrors tunnel_agent/CWaiter.cpp:337-367 -/
def create (cmd : UInt8) : Option Commander :=
  if cmd = cmdSaveFile then some (.saveFile {})
  else if cmd = cmdShell then some (.shell {})
  else if cmd = cmdPython then some (.python {})
  else if cmd = cmdExec then some (.exec {})
  else if cmd = cmdStg then some (.stg none)
  else none

def checkedRun (pkg : List UInt8) : Commander → Checked (Commander × TState)
  | .saveFile c => Prod.map .saveFile id <$> c.checkedRun L sha host.fs pkg
  | .shell c => Prod.map .shell id <$> c.checkedRun host pkg
  | .python c => Prod.map .python id <$> c.checkedRun L sha host pkg
  | .exec c => Prod.map .exec id <$> c.checkedRun L sha host pkg
  | .stg _ => Prod.map .stg id <$> stgRun pkg

end Commander

/-- A session from the exchange of the keys on; `finished` is `state_ == FINISH`.
mirrors tunnel_agent/CWaiter.h:70-91 -/
structure Session where
  commander : Option Commander := none
  finished : Bool := false

namespace Session

/-- mirrors tunnel_agent/CWaiter.cpp:370-380 -/
def runCommander (c : Commander) (pkg : List UInt8) (s : Session) : Checked (Session × TState) := do
  let r ← c.checkedRun L sha host pkg
  match r.2 with
  | .finish => .ok ({ s with commander := none }, .pending)
  | .next => .ok ({ s with commander := none }, .next)
  | .pending => .ok ({ s with commander := some r.1 }, .pending)
  | .abort => .ok ({ s with commander := some r.1 }, .abort)

/-- mirrors tunnel_agent/CWaiter.cpp:334-384 -/
def doCommand (pkg : List UInt8) (s : Session) : Checked (Session × TState) :=
  match s.commander with
  | some c => s.runCommander L sha host c pkg
  | none => do
    let cmd ← readByte pkg 0
    if cmd = cmdBye then .ok ({ s with finished := true }, .next)
    else
      match Commander.create cmd with
      | some c => s.runCommander L sha host c pkg
      | none => .ok (s, .abort)

/-- The body of the loop of `processPkg`, in the states `DO_COMMAND` and `FINISH`.
mirrors tunnel_agent/CWaiter.cpp:226-249 -/
def turn (pkg : List UInt8) (s : Session) : Checked (Session × TState) :=
  if s.finished then .ok (s, .finish) else s.doCommand L sha host pkg

end Session

end Run

/-! ## What is awaited -/

/-- What the next packet has to be: a command, a command for the shell, the name of a
directory behind a command, a file, a file of a directory or its end, a request for
the strategies, or anything. -/
inductive Await where
  | command
  | shell
  | dirname
  | file
  | dirFile
  | stg
  | any

def cmdAt (pkg : List UInt8) : UInt8 := pkg.getD 0 0

namespace Await

/-- Too short for the head of a command, the file head or the terminated name. -/
def Short (L : StatLayout) (pkg : List UInt8) : Await → Prop
  | .command => pkg.length < 6 ∨ cmdAt pkg = cmdStg ∧ pkg.length < 10 ∨
      (cmdAt pkg = cmdSaveFile ∨ cmdAt pkg = cmdPython ∨ cmdAt pkg = cmdExec) ∧ ShortFile L pkg
  | .shell | .dirname => pkg.length < 6
  | .file => ShortFile L pkg
  | .dirFile => pkg.length < 6 ∨ cmdAt pkg ≠ cmdFinish ∧ ShortFile L pkg
  | .stg => pkg.length < 10
  | .any => False

/-- What is read without a test is there: the head of a command, or of shorter
packets the command alone, if it is none that needs more. -/
def Fits (host : Host) (pkg : List UInt8) : Await → Prop
  | .command => 6 ≤ pkg.length ∨ 1 ≤ pkg.length ∧
      cmdAt pkg ∉ [cmdSaveFile, cmdPython, cmdExec, cmdBye] ∧
      (cmdAt pkg = cmdShell → host.shellOk = false)
  | .shell => host.shellOk = true → 6 ≤ pkg.length
  | .dirname | .file => 6 ≤ pkg.length
  | .dirFile | .stg | .any => True

end Await

def CFileReciever.awaits (r : CFileReciever) : Await := if r.isFirstPkg then .file else .any

def CSaveFileCmd.awaits (r : CSaveFileCmd) : Await := if r.isFirstPkg then .file else .any

def CDirReciever.awaits (d : CDirReciever) : Await :=
  if d.isFirstPkg then .dirname
  else
    match d.fileReciever with
    | some r => r.awaits
    | none => .dirFile

def CShellCmd.awaits (c : CShellCmd) : Await :=
  match c.runState with
  | .START => .shell
  | .RUNNING => .any
  | .STOP => .command

def CPythonExecutor.awaits (c : CPythonExecutor) : Await :=
  match c.state with
  | .RECV_SCRIPT => c.script.awaits
  | .RECV_CONF r => r.awaits
  | .RECV_WORKDIR d => d.awaits
  | .RECV_ARGS _ | .RUN _ => .any

def CExecLoader.awaits (c : CExecLoader) : Await :=
  match c.execState with
  | .ST_RECV_FILE => c.script.awaits
  | .ST_RECV_CONFIG r => r.awaits
  | .ST_RECV_DIR d => d.awaits
  | .ST_RECV_CMD => .any

def Commander.awaits : Commander → Await
  | .saveFile c => c.awaits
  | .shell c => c.awaits
  | .python c => c.awaits
  | .exec c => c.awaits
  | .stg _ => .stg

def Session.awaits (s : Session) : Await :=
  if s.finished then .any
  else
    match s.commander with
    | some c => c.awaits
    | none => .command

/-! ## The commanders keep to what is there -/

section Handles

variable {L : StatLayout} {sha : Sha256} {host : Host} {pkg : List UInt8} {ρ κ : Type}
  {x : Checked (ρ × TState)} {fits short : Prop}

/-- `x` handles a packet as what is awaited needs. -/
abbrev HandlesAs (L : StatLayout) (host : Host) (pkg : List UInt8) (x : Checked (ρ × TState))
    (a : Await) : Prop := Handles x (a.Fits host pkg) (a.Short L pkg)

theorem Handles.stage (h : Handles x fits short) {keep : ρ → κ} {done : ρ → κ × TState}
    (hdone : ∀ r, (done r).2 ≠ .next) : Handles (stage x keep done) fits short := by
  cases x with
  | error f => exact .of_error rfl fun hfits => not_passes_error f (h.passes.mpr hfits)
  | ok r =>
    have hfits := h.passes.mp (passes_ok r)
    by_cases hfin : r.2 = .finish
    · refine .of_ok (if_pos hfin) hfits (fun hshort => ?_) (hdone r.1)
      rw [h.aborts r rfl hshort] at hfin
      cases hfin
    · exact .of_ok (if_neg hfin) hfits (h.aborts r rfl) (h.used r rfl)

theorem Handles.map (h : Handles x fits short) (f : ρ → κ) :
    Handles (Prod.map f id <$> x) fits short := by
  cases x with
  | error e => exact .of_error rfl fun hfits => not_passes_error e (h.passes.mpr hfits)
  | ok r =>
    exact .of_ok (r := Prod.map f id r) rfl (h.passes.mp (passes_ok r)) (h.aborts r rfl)
      (h.used r rfl)

theorem Handles.congr {fits' short' : Prop} (h : Handles x fits short) (hfits : fits ↔ fits')
    (hshort : short' → short) : Handles x fits' short' where
  passes := h.passes.trans hfits
  aborts := fun r hr hs => h.aborts r hr (hshort hs)
  used := h.used

theorem CFileReciever.handles (r : CFileReciever) :
    HandlesAs L host pkg (r.checkedRun L sha pkg) r.awaits := by
  refine (r.handles_run pkg).congr ?_ ?_
  · cases hfirst : r.isFirstPkg <;> simp [awaits, hfirst, Await.Fits]
  · cases hfirst : r.isFirstPkg <;> simp [awaits, hfirst, Await.Short]

theorem CSaveFileCmd.handles (r : CSaveFileCmd) :
    HandlesAs L host pkg (r.checkedRun L sha host.fs pkg) r.awaits := by
  refine (r.handles_run pkg).congr ?_ ?_
  · cases hfirst : r.isFirstPkg <;> simp [awaits, hfirst, Await.Fits]
  · cases hfirst : r.isFirstPkg <;> simp [awaits, hfirst, Await.Short]

namespace CDirReciever

theorem handles_fileRun (r : CFileReciever) (d : CDirReciever) :
    HandlesAs L host pkg (d.fileRun L sha host r pkg) r.awaits :=
  r.handles.stage fun r => by split <;> simp

/-- Before a new file there is a test. -/
theorem handles_newFile {d : CDirReciever} (hnone : d.fileReciever = none) :
    HandlesAs L host pkg (d.checkedPkg L sha host pkg) .dirFile := by
  unfold checkedPkg
  rw [hnone]
  dsimp only
  by_cases hlen : pkg.length < 6
  · rw [if_pos hlen]
    exact .of_ok rfl trivial (fun _ => rfl) (by simp)
  · have hread : readByte pkg 0 = .ok (cmdAt pkg) := readByte_of_lt (by omega)
    rw [if_neg hlen, hread, ok_bind]
    by_cases hend : cmdAt pkg = cmdFinish
    · rw [if_pos hend]
      exact .of_ok rfl trivial (fun hshort => absurd hend (hshort.resolve_left hlen).1) (by simp)
    · rw [if_neg hend]
      refine (handles_fileRun {} d).congr ?_ ?_
      · exact iff_of_true (Nat.le_of_not_lt hlen) trivial
      · exact fun hshort => (hshort.resolve_left hlen).2

theorem handles (d : CDirReciever) :
    HandlesAs L host pkg (d.checkedRun L sha host pkg) d.awaits := by
  unfold checkedRun awaits
  by_cases hfirst : d.isFirstPkg = true
  · rw [if_pos hfirst, if_pos hfirst]
    by_cases hlen : 6 ≤ pkg.length
    · rw [readTail_of_le hlen, ok_bind]
      have hnot : ¬Await.Short L pkg .dirname := Nat.not_lt.mpr hlen
      dsimp only
      split
      · exact .of_ok rfl hlen (fun h => absurd h hnot) (by simp)
      · split
        · exact .of_ok rfl hlen (fun h => absurd h hnot) (by simp)
        · exact .of_ok rfl hlen (fun _ => rfl) (by simp)
    · rw [readTail_of_lt (by omega)]
      exact .of_error rfl hlen
  · rw [if_neg hfirst, if_neg hfirst]
    cases hfile : d.fileReciever with
    | none => exact handles_newFile hfile
    | some r =>
      unfold checkedPkg
      rw [hfile]
      exact handles_fileRun r d

end CDirReciever

theorem CShellCmd.handles {c : CShellCmd} (hrun : c.runState ≠ .STOP) :
    HandlesAs L host pkg (c.checkedRun host pkg) c.awaits := by
  unfold checkedRun awaits run
  cases hstate : c.runState with
  | STOP => exact absurd hstate hrun
  | RUNNING => exact .of_ok rfl trivial (fun h => h.elim) (by simp)
  | START =>
    cases hok : host.shellOk with
    | false =>
      refine .of_ok rfl (fun h => ?_) (fun _ => rfl) (by simp)
      rw [hok] at h
      cases h
    | true =>
      by_cases hlen : 6 ≤ pkg.length
      · rw [if_pos ⟨rfl, rfl⟩, readTail_of_le hlen]
        exact .of_ok rfl (fun _ => hlen) (fun h => absurd h (Nat.not_lt.mpr hlen)) (by simp)
      · rw [if_pos ⟨rfl, rfl⟩, readTail_of_lt (by omega)]
        exact .of_error rfl fun hfits => hlen (hfits hok)

theorem CPythonExecutor.handles (c : CPythonExecutor) :
    HandlesAs L host pkg (c.checkedRun L sha host pkg) c.awaits := by
  have hrun : ∀ (c : CPythonExecutor) (d : CDirReciever), c.runStg host d ≠ .next := by
    intro c d
    unfold runStg
    repeat' split
    all_goals simp
  unfold checkedRun awaits
  cases c.state with
  | RECV_SCRIPT => exact c.script.handles.stage fun r => by simp
  | RECV_CONF r => exact r.handles.stage fun r => by simp
  | RECV_WORKDIR d => exact d.handles.stage fun d => by simp
  | RECV_ARGS d => exact .of_ok rfl trivial (fun h => h.elim) (hrun _ d)
  | RUN d => exact .of_ok rfl trivial (fun h => h.elim) (hrun _ d)

theorem CExecLoader.handles (c : CExecLoader) :
    HandlesAs L host pkg (c.checkedRun L sha host pkg) c.awaits := by
  have htake : ∀ r : CFileReciever, (c.takeConf host r.content).2 ≠ .next := by
    intro r
    unfold takeConf
    repeat' split
    all_goals simp
  unfold checkedRun awaits
  cases c.execState with
  | ST_RECV_FILE => exact c.script.handles.stage fun r => by simp
  | ST_RECV_CONFIG r => exact r.handles.stage htake
  | ST_RECV_DIR d => exact d.handles.stage fun d => by simp
  | ST_RECV_CMD => exact .of_ok rfl trivial (fun h => h.elim) (by dsimp only; split <;> simp)

theorem handles_stg : HandlesAs L host pkg (stgRun pkg) .stg := by
  unfold stgRun
  by_cases hlen : pkg.length < 10
  · rw [if_pos hlen]
    exact .of_ok rfl trivial (fun _ => rfl) (by simp)
  · rw [if_neg hlen, readByte_of_lt (by omega), ok_bind, readSpan_of_le (by omega), ok_bind,
      readSpan_of_le (by omega), ok_bind]
    exact .of_ok rfl trivial (fun h => absurd h hlen) (by simp)

/-- A shell command that has ended, and hands the packet on. -/
def Commander.Ended (c : Commander) : Prop := ∃ s : CShellCmd, c = .shell s ∧ s.runState = .STOP

theorem Commander.handles {c : Commander} (hrun : ¬c.Ended) :
    HandlesAs L host pkg (c.checkedRun L sha host pkg) c.awaits := by
  cases c with
  | saveFile c => exact c.handles.map _
  | shell c => exact (CShellCmd.handles fun hstop => hrun ⟨c, rfl, hstop⟩).map _
  | python c => exact c.handles.map _
  | exec c => exact c.handles.map _
  | stg _ => exact handles_stg.map _

theorem Session.handles_runCommander {c : Commander} (hrun : ¬c.Ended) (s : Session) :
    HandlesAs L host pkg (s.runCommander L sha host c pkg) c.awaits := by
  have h : HandlesAs L host pkg (c.checkedRun L sha host pkg) c.awaits := Commander.handles hrun
  unfold runCommander
  cases hx : c.checkedRun L sha host pkg with
  | error f =>
    rw [hx] at h
    exact .of_error rfl fun hfits => not_passes_error f (h.passes.mpr hfits)
  | ok r =>
    have hfits := h.passes.mp ⟨r, hx⟩
    have hshort := h.aborts r hx
    have hused := h.used r hx
    obtain ⟨c', ret⟩ := r
    cases ret with
    | pending => exact .of_ok rfl hfits hshort hused
    | abort => exact .of_ok rfl hfits hshort hused
    | finish => exact .of_ok rfl hfits (fun hs => by cases hshort hs) (by simp)
    | next => exact absurd rfl hused

/-! ## The session does -/

theorem Commander.create_none {cmd : UInt8} (h : create cmd = none) :
    cmd ∉ [cmdSaveFile, cmdShell, cmdPython, cmdExec] := by
  intro hmem
  simp only [List.mem_cons, List.not_mem_nil, or_false] at hmem
  rcases hmem with rfl | rfl | rfl | rfl <;> cases h

theorem Commander.create_cases {cmd : UInt8} {c : Commander} (h : create cmd = some c) :
    cmd = cmdSaveFile ∧ c = .saveFile {} ∨ cmd = cmdShell ∧ c = .shell {} ∨
      cmd = cmdPython ∧ c = .python {} ∨ cmd = cmdExec ∧ c = .exec {} ∨
      cmd = cmdStg ∧ c = .stg none := by
  unfold create at h
  split at h
  · exact .inl ⟨‹_›, (Option.some.inj h).symm⟩
  split at h
  · exact .inr (.inl ⟨‹_›, (Option.some.inj h).symm⟩)
  split at h
  · exact .inr (.inr (.inl ⟨‹_›, (Option.some.inj h).symm⟩))
  split at h
  · exact .inr (.inr (.inr (.inl ⟨‹_›, (Option.some.inj h).symm⟩)))
  split at h
  · exact .inr (.inr (.inr (.inr ⟨‹_›, (Option.some.inj h).symm⟩)))
  · cases h

/-- The commands that send a file need their head. -/
theorem Await.file_command (h : cmdAt pkg ∈ [cmdSaveFile, cmdPython, cmdExec]) :
    (Await.Fits host pkg .file ↔ Await.Fits host pkg .command) ∧
      (Await.Short L pkg .command → Await.Short L pkg .file) := by
  constructor
  · refine (or_iff_left fun hcmd => hcmd.2.1 ?_).symm
    exact List.mem_append_left [cmdBye] h
  · rintro (hlen | ⟨hstg, -⟩ | ⟨-, hshort⟩)
    · exact Or.inl (by omega)
    · rw [hstg] at h
      exact absurd h (by decide)
    · exact hshort

/-- A shell command needs its head where a shell can be had. -/
theorem Await.shell_command (h : cmdAt pkg = cmdShell) (hlen : 1 ≤ pkg.length) :
    (Await.Fits host pkg .shell ↔ Await.Fits host pkg .command) ∧
      (Await.Short L pkg .command → Await.Short L pkg .shell) := by
  have hnot : cmdAt pkg ∉ [cmdSaveFile, cmdPython, cmdExec, cmdBye] := by
    rw [h]
    decide
  constructor
  · unfold Await.Fits
    cases host.shellOk with
    | false => exact iff_of_true (fun hok => by cases hok) (.inr ⟨hlen, hnot, fun _ => rfl⟩)
    | true =>
      refine ⟨fun hhead => .inl (hhead rfl), fun hfits _ => hfits.resolve_right ?_⟩
      rintro ⟨-, -, hshell⟩
      cases hshell h
  · rintro (hshort | ⟨hstg, -⟩ | ⟨hfile, -⟩)
    · exact hshort
    · rw [h] at hstg
      exact absurd hstg (by decide)
    · rw [h] at hfile
      exact absurd hfile (by decide)

theorem Await.stg_command (h : cmdAt pkg = cmdStg) (hlen : 1 ≤ pkg.length) :
    (Await.Fits host pkg .stg ↔ Await.Fits host pkg .command) ∧
      (Await.Short L pkg .command → Await.Short L pkg .stg) := by
  have hnot : cmdAt pkg ∉ [cmdSaveFile, cmdPython, cmdExec, cmdBye] := by
    rw [h]
    decide
  constructor
  · refine iff_of_true trivial (.inr ⟨hlen, hnot, fun hshell => ?_⟩)
    rw [h] at hshell
    exact absurd hshell (by decide)
  · rintro (hshort | ⟨-, hshort⟩ | ⟨hfile, -⟩)
    · exact Nat.lt_of_lt_of_le hshort (by decide)
    · exact hshort
    · rw [h] at hfile
      exact absurd hfile (by decide)

/-- A commander just made awaits what the command needs. -/
theorem Commander.create_spec {c : Commander} (h : create (cmdAt pkg) = some c)
    (hlen : 1 ≤ pkg.length) : ¬c.Ended ∧
      (c.awaits.Fits host pkg ↔ Await.Fits host pkg .command) ∧
      (Await.Short L pkg .command → c.awaits.Short L pkg) := by
  rcases create_cases h with ⟨hcmd, rfl⟩ | ⟨hcmd, rfl⟩ | ⟨hcmd, rfl⟩ | ⟨hcmd, rfl⟩ | ⟨hcmd, rfl⟩
  · exact ⟨fun ⟨_, he, _⟩ => (by cases he), Await.file_command (by rw [hcmd]; decide)⟩
  · exact ⟨fun ⟨_, he, hs⟩ => (by cases he; cases hs), Await.shell_command hcmd hlen⟩
  · exact ⟨fun ⟨_, he, _⟩ => (by cases he), Await.file_command (by rw [hcmd]; decide)⟩
  · exact ⟨fun ⟨_, he, _⟩ => (by cases he), Await.file_command (by rw [hcmd]; decide)⟩
  · exact ⟨fun ⟨_, he, _⟩ => (by cases he), Await.stg_command hcmd hlen⟩

theorem Session.handles_create {c : Commander} (h : Commander.create (cmdAt pkg) = some c)
    (hlen : 1 ≤ pkg.length) (s : Session) :
    HandlesAs L host pkg (s.runCommander L sha host c pkg) .command := by
  have hspec : ¬c.Ended ∧ (c.awaits.Fits host pkg ↔ Await.Fits host pkg .command) ∧
      (Await.Short L pkg .command → c.awaits.Short L pkg) := Commander.create_spec h hlen
  exact (s.handles_runCommander hspec.1).congr hspec.2.1 hspec.2.2

end Handles

namespace Session

variable {L : StatLayout} {sha : Sha256} {host : Host} {pkg : List UInt8} {s s' : Session}

theorem runCommander_ended {c : Commander} (h : c.Ended) (s : Session) :
    s.runCommander L sha host c pkg = .ok ({ s with commander := none }, .next) := by
  obtain ⟨sh, rfl, hstop⟩ := h
  have hrun : sh.checkedRun host pkg = .ok (sh, .next) := by
    unfold CShellCmd.checkedRun CShellCmd.run
    rw [hstop]
    exact if_neg fun h => by cases h.1
  unfold runCommander Commander.checkedRun
  dsimp only
  rw [hrun]
  rfl

/-- A session with a command under way, one that awaits a command, and one that is over. -/
def rank (s : Session) : Nat := if s.finished then 0 else if s.commander.isNone then 1 else 2

theorem turn_command (hopen : s.finished = false) (hnone : s.commander = none)
    (hlen : 1 ≤ pkg.length) : s.turn L sha host pkg =
      if cmdAt pkg = cmdBye then .ok ({ s with finished := true }, .next)
      else
        match Commander.create (cmdAt pkg) with
        | some c => s.runCommander L sha host c pkg
        | none => .ok (s, .abort) := by
  have hread : readByte pkg 0 = .ok (cmdAt pkg) := readByte_of_lt hlen
  unfold turn doCommand
  rw [hopen, hnone, if_neg (by decide)]
  dsimp only
  rw [hread, ok_bind]

theorem turn_empty (hopen : s.finished = false) (hnone : s.commander = none)
    (hlen : pkg.length = 0) : s.turn L sha host pkg = .error (.read 0) := by
  unfold turn doCommand
  rw [hopen, hnone, if_neg (by decide)]
  dsimp only
  rw [readByte_of_le (by omega), error_bind]

theorem turn_some {c : Commander} (hopen : s.finished = false) (hsome : s.commander = some c) :
    s.turn L sha host pkg = s.runCommander L sha host c pkg := by
  unfold turn doCommand
  rw [hopen, hsome, if_neg (by decide)]

/-- The loop goes on only behind a shell command that has ended, and then once more
to the end of the session. -/
theorem rank_lt (h : s.turn L sha host pkg = .ok (s', .next)) : s'.rank < s.rank := by
  cases hopen : s.finished with
  | true =>
    unfold turn at h
    rw [if_pos hopen] at h
    cases h
  | false =>
    cases hcmd : s.commander with
    | some c =>
      rw [turn_some hopen hcmd] at h
      by_cases hend : c.Ended
      · rw [runCommander_ended hend] at h
        cases h
        simp [rank, hopen, hcmd]
      · exact absurd rfl ((s.handles_runCommander hend).used _ h)
    | none =>
      by_cases hlen : pkg.length = 0
      · rw [turn_empty hopen hcmd hlen] at h
        cases h
      · rw [turn_command hopen hcmd (by omega)] at h
        split at h
        · cases h
          simp [rank, hopen, hcmd]
        · cases hc : Commander.create (cmdAt pkg) with
          | none =>
            rw [hc] at h
            cases h
          | some c =>
            rw [hc] at h
            exact absurd rfl ((s.handles_create hc (by omega)).used _ h)

/-- The loop of `processPkg`.
mirrors tunnel_agent/CWaiter.cpp:210-253 -/
def processPkg (L : StatLayout) (sha : Sha256) (host : Host) (pkg : List UInt8) (s : Session) :
    Checked (Session × TState) :=
  match _h : s.turn L sha host pkg with
  | .ok (s', .next) => processPkg L sha host pkg s'
  | r => r
termination_by s.rank
decreasing_by exact rank_lt _h

theorem processPkg_next (h : s.turn L sha host pkg = .ok (s', .next)) :
    s.processPkg L sha host pkg = s'.processPkg L sha host pkg := by
  rw [processPkg]
  split
  · rename_i hturn
    rw [h] at hturn
    cases hturn
    rfl
  · rename_i hother
    exact absurd h (hother s')

theorem processPkg_of_ne (h : ∀ s', s.turn L sha host pkg ≠ .ok (s', .next)) :
    s.processPkg L sha host pkg = s.turn L sha host pkg := by
  rw [processPkg]
  split
  · rename_i hturn
    exact absurd hturn (h _)
  · rfl

/-- What a session makes of a packet keeps inside it, and refuses what is too short. -/
def Bounded (L : StatLayout) (sha : Sha256) (host : Host) (pkg : List UInt8) (s : Session) : Prop :=
  ∃ r, s.processPkg L sha host pkg = .ok r ∧ (s.awaits.Short L pkg → r.2 = .abort)

theorem bounded_of_handles {a : Await} (hx : HandlesAs L host pkg (s.turn L sha host pkg) a)
    (ha : s.awaits = a) : s.Bounded L sha host pkg ↔ s.awaits.Fits host pkg := by
  subst ha
  unfold Bounded
  rw [processPkg_of_ne fun s' h => hx.used _ h rfl, ← hx.passes]
  exact ⟨fun ⟨r, hr, _⟩ => ⟨r, hr⟩, fun ⟨r, hr⟩ => ⟨r, hr, hx.aborts r hr⟩⟩

theorem bounded_finished (hend : s.finished = true) :
    s.Bounded L sha host pkg ↔ s.awaits.Fits host pkg := by
  have hturn : s.turn L sha host pkg = .ok (s, .finish) := if_pos hend
  refine bounded_of_handles (a := .any) ?_ (if_pos hend)
  exact .of_ok hturn trivial (fun h => h.elim) (by simp)

/-- A packet for a session that awaits a command. -/
theorem bounded_command (hopen : s.finished = false) (hnone : s.commander = none) :
    s.Bounded L sha host pkg ↔ s.awaits.Fits host pkg := by
  have hawaits : s.awaits = .command := by
    unfold awaits
    rw [hopen, hnone, if_neg (by decide)]
  by_cases hlen : pkg.length = 0
  · refine bounded_of_handles (.of_error (turn_empty hopen hnone hlen) ?_) hawaits
    rintro (hhead | ⟨hbyte, -⟩)
    · omega
    · omega
  have hone : 1 ≤ pkg.length := Nat.one_le_iff_ne_zero.mpr hlen
  have hturn : s.turn L sha host pkg = _ := turn_command hopen hnone hone
  by_cases hbye : cmdAt pkg = cmdBye
  · rw [if_pos hbye] at hturn
    have hend : ({ s with finished := true } : Session).processPkg L sha host pkg =
        .ok ({ s with finished := true }, .finish) :=
      (processPkg_of_ne fun s' h => by cases h).trans rfl
    have hfits : Await.Fits host pkg .command ↔ ¬pkg.length < 6 := by
      refine (or_iff_left fun hcmd => hcmd.2.1 ?_).trans Nat.not_lt.symm
      rw [hbye]
      decide
    unfold Bounded
    rw [processPkg_next hturn, hend, hawaits, hfits]
    constructor
    · rintro ⟨r, hr, hshort⟩ hlt
      cases hr
      cases hshort (.inl hlt)
    · refine fun hlt => ⟨_, rfl, ?_⟩
      rintro (hshort | ⟨hstg, -⟩ | ⟨hfile, -⟩)
      · exact absurd hshort hlt
      · rw [hbye] at hstg
        exact absurd hstg (by decide)
      · rw [hbye] at hfile
        exact absurd hfile (by decide)
  · rw [if_neg hbye] at hturn
    cases hc : Commander.create (cmdAt pkg) with
    | some c =>
      rw [hc] at hturn
      refine bounded_of_handles ?_ hawaits
      rw [hturn]
      exact s.handles_create hc (by omega)
    | none =>
      rw [hc] at hturn
      have hnot := Commander.create_none hc
      simp only [List.mem_cons, List.not_mem_nil, or_false, not_or] at hnot
      refine bounded_of_handles (a := .command)
        (.of_ok hturn (Or.inr ⟨by omega, ?_, ?_⟩) (fun _ => rfl) (by simp)) hawaits
      · simpa only [List.mem_cons, List.not_mem_nil, or_false, not_or] using
          ⟨hnot.1, hnot.2.2.1, hnot.2.2.2, hbye⟩
      · exact fun hshell => absurd hshell hnot.2.1

/-- In every state of a session, for every packet and whatever the host answers: it
is read inside its bounds, every length is at most what is left, and what is too short
is refused, exactly when the packet fits what is awaited. -/
theorem bounded_iff (L : StatLayout) (sha : Sha256) (host : Host) (pkg : List UInt8) (s : Session) :
    s.Bounded L sha host pkg ↔ s.awaits.Fits host pkg := by
  cases hopen : s.finished with
  | true => exact bounded_finished hopen
  | false =>
    cases hcmd : s.commander with
    | none => exact bounded_command hopen hcmd
    | some c =>
      have hawaits : s.awaits = c.awaits := by
        unfold awaits
        rw [hopen, hcmd, if_neg (by decide)]
      have hturn : s.turn L sha host pkg = s.runCommander L sha host c pkg := turn_some hopen hcmd
      by_cases hend : c.Ended
      · have hcommand : Bounded L sha host pkg { s with commander := none } ↔ _ :=
          bounded_command hopen rfl
        have hnone : ({ s with commander := none } : Session).awaits = .command := by
          unfold awaits
          rw [hopen, if_neg (by decide)]
        rw [runCommander_ended hend] at hturn
        obtain ⟨sh, rfl, hstop⟩ := hend
        have hshell : (Commander.shell sh).awaits = .command := by
          unfold Commander.awaits CShellCmd.awaits
          dsimp only
          rw [hstop]
        rw [hnone] at hcommand
        rw [hawaits, hshell, ← hcommand, Bounded, Bounded, processPkg_next hturn, hnone, hawaits,
          hshell]
      · refine bounded_of_handles ?_ hawaits
        rw [hturn]
        exact s.handles_runCommander hend

/-- A host on which everything goes well. -/
def goodHost : Host where
  fs := ⟨fun _ _ => true, fun _ _ => true, List.length⟩
  shellOk := true
  makedir := some
  writeFile _ _ := true
  stgName := some
  running _ := false
  load _ _ _ _ _ := true

/-- A file to be saved, by a packet of three bytes. -/
theorem not_bounded_short :
    ¬({} : Session).Bounded byteStat byteSum goodHost [cmdSaveFile, 0, 0] := by
  rw [bounded_command rfl rfl]
  rintro (hlen | ⟨-, hcmd, -⟩)
  · exact absurd hlen (by decide)
  · exact hcmd (by decide)

end Session

end NatFramework.Tunnel
