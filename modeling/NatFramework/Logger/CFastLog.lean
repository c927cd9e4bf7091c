import NatFramework.Lib.Run
import NatFramework.Lib.Tiles

/-!
# The logger's ring buffer

`logger/CFastLog`: `write()` of the producer against `read()` and `commitRead()` of
the consumer's loop. The two advance by single loads and stores of `write_pos_` and
`read_pos_`, in any order; what `write()` puts into the buffer is a step of its own.

* `Writer`, `Reader`: what comes next, with the local variables that are alive.
* Positions and lengths are `uint32_t`: `add32`, `sub32`. `fmt` tells how many bytes
  the formatter of a tag takes.
* `live`, `accepted`, `seen`: the records that have been accepted and not committed
  and where they lie, all accepted ones, and those the consumer has formatted.
-/
namespace NatFramework.Logger

open Lib

def add32 (a b : Nat) : Nat := (a + b) % 2 ^ 32

def sub32 (a b : Nat) : Nat := (a + 2 ^ 32 - b) % 2 ^ 32

/-- mirrors logger/CFastLog.h:32 -/
def logFromHead : UInt8 := 20

structure LogRecord where
  tag : UInt8
  data : List UInt8
deriving DecidableEq

/-- A record in the buffer. -/
def LogRecord.bytes (r : LogRecord) : List UInt8 := r.tag :: r.data

structure CFastLog where
  bufSize : Nat
  buf : Mem
  writePos : Nat := 0
  readPos : Nat := 0

/-- `buf` is what `new` finds in the memory. mirrors logger/CFastLog.cpp:33-41 -/
def CFastLog.init (buf : Mem) (bufsize : Nat) : CFastLog := { bufSize := sub32 bufsize 1, buf := buf }

/-- What `write` does next. mirrors logger/CFastLog.cpp:48-76 -/
inductive Writer
  | idle
  /-- `wpos = write_pos_` -/
  | enter (r : LogRecord)
  /-- `read_pos_ <= wpos` -/
  | compare (r : LogRecord) (wpos : Nat)
  /-- `read_pos_ != 0 ? buf_size_ - wpos : buf_size_ - wpos - 1` -/
  | behind (r : LogRecord) (wpos : Nat)
  /-- `read_pos_ != 0 ?` -/
  | wrap (r : LogRecord) (wpos : Nat)
  /-- `read_pos_ - 1` -/
  | wrapLeft (r : LogRecord) (wpos : Nat)
  /-- `read_pos_ - wpos - 1` -/
  | ahead (r : LogRecord) (wpos : Nat)
  /-- `buf_[wpos] = LOG_FROM_HEAD` -/
  | mark (r : LogRecord) (wpos : Nat)
  /-- `buf_[wpos++] = tag` and `memcpy` -/
  | place (r : LogRecord) (wpos : Nat)
  /-- `write_pos_ = wpos + len`, the record being at `start` -/
  | publish (r : LogRecord) (start : Nat)
deriving DecidableEq

/-- What the consumer's loop does next.
mirrors logger/CFastLog.cpp:92-113 and logger/CFastLog.h:52-55 -/
inductive Reader
  /-- `read_pos_ !=` -/
  | idle
  /-- `!= write_pos_` -/
  | other (rpos : Nat)
  /-- `buf_[read_pos_] == LOG_FROM_HEAD` -/
  | check
  /-- `read_pos_ = 0` -/
  | jump
  /-- `buf_ + read_pos_` -/
  | locate
  /-- the formatter of the tag at `p` -/
  | format (p : Nat)
  /-- `read_pos_ +` of `read_pos_ += n` -/
  | commit (n : Nat)
  /-- and its store -/
  | store (rpos : Nat)
deriving DecidableEq

structure LogRun where
  log : CFastLog
  writer : Writer := .idle
  reader : Reader := .idle
  live : List (Nat × LogRecord) := []
  accepted : List LogRecord := []
  seen : List LogRecord := []

/-- The room behind `wpos`, up to the byte that is kept for the mark. -/
def CFastLog.spare (l : CFastLog) (wpos : Nat) : Nat :=
  if l.readPos ≠ 0 then sub32 l.bufSize wpos else sub32 (sub32 l.bufSize wpos) 1

namespace LogRun

/-- mirrors logger/CFastLog.cpp:48-76 -/
def writeStep (s : LogRun) : LogRun :=
  match s.writer with
  | .idle => s
  | .enter r => { s with writer := .compare r s.log.writePos }
  | .compare r wpos =>
    { s with writer := if s.log.readPos ≤ wpos then .behind r wpos else .ahead r wpos }
  | .behind r wpos =>
    { s with writer := if s.log.spare wpos ≤ r.data.length then .wrap r wpos else .place r wpos }
  | .wrap r wpos => { s with writer := if s.log.readPos ≠ 0 then .wrapLeft r wpos else .idle }
  | .wrapLeft r wpos =>
    { s with writer := if sub32 s.log.readPos 1 ≤ r.data.length then .idle else .mark r wpos }
  | .ahead r wpos =>
    { s with
        writer :=
          if sub32 (sub32 s.log.readPos wpos) 1 ≤ r.data.length then .idle else .place r wpos }
  | .mark r wpos =>
    { s with
        log := { s.log with buf := blit s.log.buf wpos [logFromHead] }
        writer := .place r 0 }
  | .place r wpos =>
    { s with
        log := { s.log with buf := blit s.log.buf wpos r.bytes }
        writer := .publish r wpos }
  | .publish r start =>
    { s with
        log := { s.log with writePos := add32 (start + 1) r.data.length }
        writer := .idle
        live := s.live ++ [(start, r)]
        accepted := s.accepted ++ [r] }

/-- mirrors logger/CFastLog.cpp:78-113 and logger/CFastLog.h:52-55 -/
def readStep (fmt : UInt8 → Mem → Nat → Nat) (s : LogRun) : LogRun :=
  match s.reader with
  | .idle => { s with reader := .other s.log.readPos }
  | .other rpos => { s with reader := if rpos ≠ s.log.writePos then .check else .idle }
  | .check =>
    { s with reader := if s.log.buf s.log.readPos = logFromHead then .jump else .locate }
  | .jump => { s with log := { s.log with readPos := 0 }, reader := .locate }
  | .locate => { s with reader := .format s.log.readPos }
  | .format p =>
    let tag := s.log.buf p
    let ret := fmt tag s.log.buf (p + 1)
    { s with
        seen := s.seen ++ [{ tag := tag, data := slice s.log.buf (p + 1) ret }]
        reader := .commit (ret + 1) }
  | .commit n => { s with reader := .store (add32 s.log.readPos n) }
  | .store rpos =>
    { s with log := { s.log with readPos := rpos }, reader := .idle, live := s.live.tail }

/-- The addresses that the next step of the producer writes to. -/
def writes (s : LogRun) : List Nat :=
  match s.writer with
  | .mark _ wpos => [wpos]
  | .place r wpos => piece wpos r.bytes.length
  | _ => []

end LogRun

/-! ## Runs -/

inductive LogEvent
  | write (r : LogRecord)
  | writer
  | reader
deriving DecidableEq

/-- The formatter of the tag returns the length of the data, wherever they lie;
`LOG_FROM_HEAD` has none. -/
def Formats (fmt : UInt8 → Mem → Nat → Nat) (r : LogRecord) : Prop :=
  r.tag ≠ logFromHead ∧
    ∀ m a, slice m a r.data.length = r.data → fmt r.tag m a = r.data.length

/-- The producer calls `write` when its last call has returned. -/
def logSys (fmt : UInt8 → Mem → Nat → Nat) (buf : Mem) (bufsize : Nat) : Sys LogRun LogEvent where
  start s := s = { log := .init buf bufsize }
  ok s
    | .write r => s.writer = .idle ∧ r.data.length < 2 ^ 32 ∧ Formats fmt r
    | .writer | .reader => True
  next s
    | .write r => { s with writer := .enter r }
    | .writer => s.writeStep
    | .reader => s.readStep fmt

end NatFramework.Logger
