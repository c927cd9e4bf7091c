import Mathlib.Data.List.TakeWhile
import NatFramework.Lib.Checked
import NatFramework.Lib.Run
import NatFramework.Signal.CService

/-!
# The signal relay

`CSignalServer` reads the pages of the signals a client asked for and sends
each frame as a package behind a head that names the signal by its place in the
request; `CSignalRequester` writes what it receives to pages of its own. The
pages are queues of frames here: `publish` makes a frame readable.

* Events are single steps: a call of `read` or `write` on either side, one turn
  of the loop of `tryRead`, a heart-beat. `history` is what the server passed.
* `Clean`: no frame is taken that fills the write buffer to the last byte, the
  counters of the buffer stay good, and the client can hold the package.
* `relayed_of_run`: through clean steps the stream is the packages of the frames
  passed, and the client writes them to the pages they belong to.
-/
namespace NatFramework.Signal

open Lib

/-! ## Packages -/

/-- A signal's name, without the byte that ends it. -/
abbrev Name := { bs : List UInt8 // 0 ∉ bs }

/-- A frame of a page of 64 MB. -/
structure Frame where
  payload : List UInt8
  fits : payload.length + 65 ≤ 64 * 1024 * 1024
  deriving DecidableEq

/-- mirrors signal_agent/SignalAgentProtocol.h:39-45 -/
def SACMD_REQ_SIG : UInt8 := 1
def SACMD_SIGNAL_DATA : UInt8 := 2
def SACMD_REQ_HEATBEAT : UInt8 := 3
def SACMD_REP_HEATBEAT : UInt8 := 4

/-- `tSACmdHead`: `stx`, `ver`, `cmd`, `len`.
mirrors signal_agent/SignalAgentProtocol.h:18-25 -/
def saHead (cmd : UInt8) (len : Nat) : List UInt8 := [0x88, 1, cmd] ++ leBytes 4 len

/-- `CHECK_SA_HEAD` and `setPkgSize`, with a read buffer of `size`.
mirrors signal_agent/CSignalServer.cpp:24-32, signal_agent/CSignalRequester.cpp:25-32 -/
def processHead (size : Nat) (p : List UInt8) : Option Nat :=
  let len := ofLe ((p.drop 3).take 4)
  if p.getD 0 0 = 0x88 ∧ p.getD 1 0 = 1 ∧ len ≤ size then some len else none

def cmdOf (p : List UInt8) : UInt8 := p.getD 2 0

/-- The field behind the head: `sig_cnt` or `sig_idx`. -/
def fieldOf (p : List UInt8) : Nat := ofLe ((p.drop 7).take 4)

/-- `sizeof(tSASignalData) + frame->len` -/
def dataSize (f : Frame) : Nat := 11 + f.payload.length

/-- mirrors signal_agent/SignalAgentProtocol.h:33-37 -/
def dataHead (i : Nat) (f : Frame) : List UInt8 :=
  saHead SACMD_SIGNAL_DATA (dataSize f) ++ leBytes 4 i

def dataPkg (i : Nat) (f : Frame) : List UInt8 := dataHead i f ++ f.payload

def replyPkg : List UInt8 := saHead SACMD_REP_HEATBEAT 0

def heartPkg : List UInt8 := saHead SACMD_REQ_HEATBEAT 0

/-- The names of a request, each behind its 0. -/
def nameBytes (names : List Name) : List UInt8 := names.flatMap fun n => n.1 ++ [0]

def requestLen (names : List Name) : Nat := 11 + (nameBytes names).length

/-- mirrors signal_agent/SignalAgentProtocol.h:27-31 -/
def requestHead (names : List Name) : List UInt8 :=
  saHead SACMD_REQ_SIG (requestLen names) ++ leBytes 4 names.length

def requestPkg (names : List Name) : List UInt8 := requestHead names ++ nameBytes names

/-! ## The server -/

/-- A reader of a signal's pages: the frames it can read and has not passed. -/
structure SignalReader where
  name : Name
  pending : List Frame := []

/-- What the server has put into the stream, or passed over. -/
inductive Item where
  | reply
  | frame (i : Nat) (f : Frame)
  deriving DecidableEq

/-- mirrors signal_agent/CSignalServer.h:24-50 -/
structure CSignalServer extends CService where
  readers : List SignalReader := []
  history : List Item := []
  closed : Bool := false

namespace CSignalServer

def close (s : CSignalServer) : CSignalServer := { s with closed := true }

/-- `read_signal_set_` is the set of the readers' names.
mirrors signal_agent/CSignalServer.cpp:66-76 -/
def addReader (s : CSignalServer) (name : Name) : CSignalServer :=
  if s.readers.any (fun r => r.name = name) then s
  else { s with readers := s.readers ++ [{ name := name }] }

/-- The bytes up to the next 0. -/
def cString (bs : List UInt8) : Name :=
  ⟨bs.takeWhile (fun b => decide (b ≠ 0)), fun h => by simpa using List.mem_takeWhile_imp h⟩

/-- The names of a request. -/
def sigNames : Nat → List UInt8 → List Name
  | 0, _ => []
  | k + 1, bs => cString bs :: sigNames k (bs.drop ((cString bs).1.length + 1))

/-- `none` closes the connection. `sig_cnt` is an `int`.
mirrors signal_agent/CSignalServer.cpp:34-61 -/
def processPkg (p : List UInt8) (s : CSignalServer) : Option CSignalServer :=
  if cmdOf p = SACMD_REQ_SIG then
    some ((sigNames (asInt32 (fieldOf p)).toNat (p.drop 11)).foldl addReader s)
  else if cmdOf p = SACMD_REQ_HEATBEAT then
    let r := s.toCService.sendData replyPkg
    some { s with toCService := r.1, history := if r.2 then s.history ++ [.reply] else s.history }
  else none

/-- One `read` that gives `bytes`. -/
def readBytes (bytes : List UInt8) (s : CSignalServer) : CSignalServer :=
  let r := s.toCService.readTurn (processHead s.readSize) bytes
  let s := { s with toCService := r.1 }
  match r.2 with
  | .more => s
  | .pkg p => (s.processPkg p).getD s.close
  | .bad => s.close

/-- The frame reader `i` stands at. -/
def curFrame (i : Nat) (s : CSignalServer) : Option Frame :=
  s.readers[i]?.bind fun r => r.pending.head?

def passFrame (i : Nat) (f : Frame) (s : CSignalServer) : CSignalServer :=
  { s with
    readers := s.readers.modify i fun r => { r with pending := r.pending.tail }
    history := s.history ++ [.frame i f] }

/-- One turn of the loop of `tryRead` for reader `i`; the results of `sendData`
are not looked at.
mirrors signal_agent/CSignalServer.cpp:94-112 -/
def tryReadTurn (i : Nat) (s : CSignalServer) : CSignalServer :=
  match s.curFrame i with
  | none => s
  | some f =>
    if s.writeBuf.left ≥ dataSize f then
      let c := (s.toCService.sendData (dataHead i f)).1
      let c := (c.sendData f.payload).1
      { s with toCService := c }.passFrame i f
    else if s.writeBuf.size < dataSize f then s.passFrame i f
    else s

/-- `tryRead`, where `loaded i` tells whether reader `i` has a page mapped. A
turn that waits for room changes nothing, so that it may be repeated.
mirrors signal_agent/CSignalServer.cpp:83-115 -/
def tryRead (scanUnload : Bool) (loaded : Nat → Bool) (s : CSignalServer) : CSignalServer :=
  (List.range s.readers.length).foldl (fun s i =>
    if !loaded i && !scanUnload then s
    else (List.replicate ((s.readers[i]?.map (·.pending.length)).getD 0) i).foldl
      (fun s i => s.tryReadTurn i) s) s

/-- A scan is a row of turns. -/
theorem tryRead_eq_turns (scanUnload : Bool) (loaded : Nat → Bool) (s : CSignalServer) :
    ∃ turns : List Nat, s.tryRead scanUnload loaded = turns.foldl (fun s i => s.tryReadTurn i) s := by
  unfold tryRead
  generalize List.range s.readers.length = is
  induction is generalizing s with
  | nil => exact ⟨[], rfl⟩
  | cons i is ih =>
    simp only [List.foldl_cons]
    split
    · exact ih s
    · obtain ⟨turns, hturns⟩ := ih ((List.replicate ((s.readers[i]?.map (·.pending.length)).getD 0) i).foldl
        (fun s i => s.tryReadTurn i) s)
      refine ⟨List.replicate ((s.readers[i]?.map (·.pending.length)).getD 0) i ++ turns, ?_⟩
      rw [hturns, List.foldl_append]

/-- A frame becomes readable. -/
def publish (name : Name) (f : Frame) (s : CSignalServer) : CSignalServer :=
  { s with
    readers := s.readers.map fun r =>
      if r.name = name then { r with pending := r.pending ++ [f] } else r }

end CSignalServer

/-! ## The client -/

/-- mirrors signal_agent/CSignalRequester.h:21-63 -/
structure CSignalRequester extends CService where
  signames : List Name
  /-- what was written to the pages of each signal -/
  pages : Nat → List (List UInt8) := fun _ => []
  /-- the packages queued -/
  asked : List (List UInt8) := []
  closed : Bool := false

namespace CSignalRequester

def close (c : CSignalRequester) : CSignalRequester := { c with closed := true }

/-- mirrors signal_agent/CSignalRequester.cpp:61-73 -/
def sendRequest (c : CSignalRequester) : CSignalRequester :=
  let t := (c.toCService.sendData (requestHead c.signames)).1
  { c with
    toCService := c.signames.foldl (fun t n => (t.sendData (n.1 ++ [0])).1) t
    asked := [requestPkg c.signames] }

/-- mirrors signal_agent/CSignalRequester.cpp:121-129 -/
def tryHeartBeat (c : CSignalRequester) : CSignalRequester :=
  let r := c.toCService.sendData heartPkg
  { c with toCService := r.1, asked := if r.2 then c.asked ++ [heartPkg] else c.asked }

/-- mirrors signal_agent/CSignalRequester.cpp:37-56 -/
def processPkg (p : List UInt8) (c : CSignalRequester) : Option CSignalRequester :=
  if cmdOf p = SACMD_SIGNAL_DATA then
    some { c with
      pages := fun i => if i = fieldOf p then c.pages i ++ [p.drop 11] else c.pages i }
  else if cmdOf p = SACMD_REP_HEATBEAT then some c
  else none

def readBytes (bytes : List UInt8) (c : CSignalRequester) : CSignalRequester :=
  let r := c.toCService.readTurn (processHead c.readSize) bytes
  let c := { c with toCService := r.1 }
  match r.2 with
  | .more => c
  | .pkg p => (c.processPkg p).getD c.close
  | .bad => c.close

end CSignalRequester

/-! ## Both ends of a connection -/

structure Relay where
  server : CSignalServer
  client : CSignalRequester
  /-- how many of the bytes sent the other side has read -/
  upGot : Nat := 0
  downGot : Nat := 0

inductive Event where
  | publish (name : Name) (f : Frame)
  | tryRead (i : Nat)
  | heartBeat
  | serverWrite (n : Nat)
  | serverRead (n : Nat)
  | clientWrite (n : Nat)
  | clientRead (n : Nat)

namespace Relay

/-- The bytes that a `read` of at most `n + 1` gives. -/
def nextBytes (out : List UInt8) (got n : Nat) (t : CService) : List UInt8 :=
  (out.drop got).take (min (n + 1) t.want)

/-- A closed side does nothing. -/
def next (s : Relay) : Event → Relay
  | .publish name f => { s with server := s.server.publish name f }
  | .tryRead i => if s.server.closed then s else { s with server := s.server.tryReadTurn i }
  | .heartBeat => if s.client.closed then s else { s with client := s.client.tryHeartBeat }
  | .serverWrite n =>
    if s.server.closed then s
    else { s with server := { s.server with toCService := s.server.toCService.writeTurn n } }
  | .serverRead n =>
    let bytes := nextBytes s.client.out s.upGot n s.server.toCService
    if s.server.closed || bytes.isEmpty then s
    else { s with server := s.server.readBytes bytes, upGot := s.upGot + bytes.length }
  | .clientWrite n =>
    if s.client.closed then s
    else { s with client := { s.client with toCService := s.client.toCService.writeTurn n } }
  | .clientRead n =>
    let bytes := nextBytes s.server.out s.downGot n s.client.toCService
    if s.client.closed || bytes.isEmpty then s
    else { s with client := s.client.readBytes bytes, downGot := s.downGot + bytes.length }

def exec (s : Relay) (es : List Event) : Relay := es.foldl next s

/-- A buffer as its constructor leaves it. -/
def newBuf (p : Mem) (size : Nat) (h : size < 2 ^ 32) : CBuffer := { p := p, size := size, size_lt := h }

/-- The server's side of a new connection, with a write buffer of `size` bytes.
mirrors signal_agent/CSignalServer.cpp:16-21 -/
def newServer (p : Mem) (size : Nat) (h : size < 2 ^ 32) : CSignalServer where
  toCService := ({ readSize := 4096, writeBuf := newBuf p size h } : CService).setHeadSize 7

/-- The client's side, which has sent its request; its read buffer has `bufSize` bytes.
mirrors signal_agent/CSignalRequester.cpp:18-21, 79-89 -/
def newClient (p : Mem) (bufSize : Nat) (names : List Name) : CSignalRequester :=
  { toCService := ({ readSize := bufSize, writeBuf := newBuf p 4096 (by decide) } :
      CService).setHeadSize 7
    signames := names : CSignalRequester }.sendRequest

def start (p p' : Mem) (size : Nat) (h : size < 2 ^ 32) (bufSize : Nat) (names : List Name) : Relay where
  server := newServer p size h
  client := newClient p' bufSize names

/-! ## What a run is to keep -/

/-- The package of an item: none for a frame that the buffer can never hold. -/
def pkgOf (size : Nat) : Item → Option (List UInt8)
  | .reply => some replyPkg
  | .frame i f => if dataSize f ≤ size then some (dataPkg i f) else none

/-- The packages due. -/
def due (s : CSignalServer) : List (List UInt8) := s.history.filterMap (pkgOf s.writeBuf.size)

/-- The frames of signal `i` that were passed and fit the buffer. -/
def framesOf (i size : Nat) (history : List Item) : List (List UInt8) :=
  history.filterMap fun
    | .reply => none
    | .frame j f => if j = i ∧ dataSize f ≤ size then some f.payload else none

/-- The stream is the packages due, and each frame arrives at its own signal. -/
structure Relayed (names : List Name) (s : Relay) : Prop where
  stream : s.server.out <+: (due s.server).flatten ∧
    (s.server.writeBuf.len = 0 → s.server.out = (due s.server).flatten)
  readers : s.server.readers.map (·.name) <+: names
  pages : ∀ i, s.client.pages i <+: framesOf i s.server.writeBuf.size s.server.history
  arrived : s.server.writeBuf.len = 0 → s.downGot = s.server.out.length →
    ∀ i, s.client.pages i = framesOf i s.server.writeBuf.size s.server.history

/-- The frame that a turn for reader `i` queues. -/
def taken (i : Nat) (s : CSignalServer) : Option Frame :=
  (s.curFrame i).bind fun f => if dataSize f ≤ s.writeBuf.left then some f else none

/-- How many bytes were ever queued. -/
def queued (s : CSignalServer) : Nat := s.out.length + s.writeBuf.len

/-- The frame to be queued leaves a byte of room, the counters of the buffer keep
their place, and the client can hold the package. -/
def SendsWhole (s : Relay) : Option Frame → Prop
  | none => True
  | some f => s.server.writeBuf.left ≠ dataSize f ∧
      CBuffer.Counts s.server.writeBuf.size (queued s.server + dataSize f) ∧
      dataSize f ≤ s.client.readSize

/-- A step that queues frames whole and keeps the counters good. -/
def Clean (s : Relay) : Event → Prop
  | .tryRead i => s.SendsWhole (taken i s.server)
  | .serverRead _ => CBuffer.Counts s.server.writeBuf.size (queued s.server + 7)
  | .publish .. | .heartBeat | .serverWrite _ | .clientWrite _ | .clientRead _ => True

instance (size n : Nat) : Decidable (CBuffer.Counts size n) :=
  inferInstanceAs (Decidable (_ ∨ _))

instance (s : Relay) : ∀ o, Decidable (s.SendsWhole o)
  | none => isTrue trivial
  | some _ => inferInstanceAs (Decidable (_ ∧ _ ∧ _))

instance (s : Relay) : ∀ e, Decidable (s.Clean e)
  | .tryRead _ => inferInstanceAs (Decidable (s.SendsWhole _))
  | .serverRead _ => inferInstanceAs (Decidable (CBuffer.Counts _ _))
  | .publish .. | .heartBeat | .serverWrite _ | .clientWrite _ | .clientRead _ => isTrue trivial

end Relay

end NatFramework.Signal
