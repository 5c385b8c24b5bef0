import Mathlib.Logic.Function.Basic

/-!
# The log pump and `logs --follow`

A detached shim sends the output of its container through a pipe to a process of its own,
`log_pump`, which appends it to `container.log` and rotates that file. `show_log` prints
the log and, with `--follow`, goes on printing until the record of the container no longer
says that it runs. The three take turns here, one system call or library call at a time.

Files are numbered in the order of their creation. `container.log` has the index 0 among
the names, and `container.log.k` has the index `k`.
-/

namespace MiniContainer.Logs

open Function (update)

abbrev Bytes := List UInt8

def newline : UInt8 := 10

/-- `MC_LOG_MAX_SIZE`. -/
def logMaxSize : Nat := 1024 * 1024

/-- `MC_LOG_MAX_FILES`. -/
def logMaxFiles : Nat := 3

/-- The size of the buffers of `log_pump` and `show_file`. -/
def bufferSize : Nat := 16384

/-! ## Streams -/

/-- A `FILE` that is read. -/
structure Stream where
  file : Nat
  position : Nat := 0
  /-- The end was met. It is remembered until `clearerr`. -/
  eof : Bool := false
  deriving DecidableEq, Repr

/-- The bytes up to the first newline, which is included. -/
def firstLine : Bytes → Bytes
  | [] => []
  | b :: bs => if b = newline then [b] else b :: firstLine bs

/-- `getline`. The last line of a file need not end in a newline. -/
def getline (content : Bytes) (s : Stream) : Option Bytes × Stream :=
  if s.eof then (none, s)
  else
    match firstLine (content.drop s.position) with
    | [] => (none, { s with eof := true })
    | b :: bs =>
      (some (b :: bs), { s with
        position := s.position + (b :: bs).length
        eof := !(b :: bs).contains newline })

/-- `fread` into a buffer. -/
def fread (content : Bytes) (s : Stream) : Bytes × Stream :=
  if s.eof then ([], s)
  else
    let chunk := (content.drop s.position).take bufferSize
    (chunk, { s with
      position := s.position + chunk.length
      eof := decide (chunk.length < bufferSize) })

def clearerr (s : Stream) : Stream := { s with eof := false }

/-- What `fputs` writes of a line: it ends in front of the first null byte. -/
def fputs (line : Bytes) : Bytes := line.takeWhile (· ≠ 0)

/-! ## The parties -/

/-- Where `log_pump` stands. Between a read and the end of the write it has data in its buffer. -/
inductive Pump where
  | reading
  /-- `rotate_log`: the oldest file is removed. -/
  | unlinking (data : Bytes)
  /-- `rotate_log`: an older file gets the next number. -/
  | shifting (index : Nat) (data : Bytes)
  /-- `rotate_log`: the log becomes the first of the older files. -/
  | moving (data : Bytes)
  /-- `rotate_log`: a new log is created. -/
  | creating (data : Bytes)
  /-- `write_all`, with what remains of so many bytes. -/
  | writing (count : Nat) (rest : Bytes)
  | ended
  deriving DecidableEq, Repr

/-- Where the shim stands. -/
inductive Shim where
  | running
  /-- The record says that the container has ended. -/
  | recorded
  /-- Nobody writes into the pipe any more. -/
  | closed
  deriving DecidableEq, Repr

/-- Where `show_log` stands. -/
inductive Follower where
  | absent
  /-- `show_file`, because the log could not be opened. -/
  | fallback
  /-- The loop of `show_file`. -/
  | copying (stream : Stream)
  /-- The first loop, with the last lines that were read. -/
  | first (stream : Stream) (ring : List Bytes)
  /-- The second loop, in front of `getline`. -/
  | following (stream : Stream)
  /-- There was no line: the status is looked at. -/
  | checking (stream : Stream)
  /-- The container runs: the log is compared with the open file. -/
  | comparing (stream : Stream)
  /-- They differ: the log is opened. -/
  | replacing (stream : Stream)
  | ended
  /-- The log was never opened. -/
  | refused
  deriving DecidableEq, Repr

structure State where
  names : Nat → Option Nat
  contents : Nat → Bytes
  nextFile : Nat
  pipe : Bytes
  shim : Shim
  pump : Pump
  /-- The file that the pump has open. -/
  output : Nat
  /-- What the pump takes for its size. -/
  size : Nat
  follower : Follower
  /-- The value of `--tail`. -/
  tail : Option Nat
  /-- The output of the follower. -/
  printed : Bytes
  /-- The log when the follower opened it. -/
  before : Bytes
  /-- What the pump has appended since. -/
  appended : Bytes

/-- The file that the follower has open. -/
def Follower.stream : Follower → Option Stream
  | .copying s | .first s _ | .following s | .checking s | .comparing s | .replacing s => some s
  | .absent | .fallback | .ended | .refused => none

/-- The follower has opened the log. -/
def Follower.opened (f : Follower) : Bool := f.stream.isSome || f = .ended

/-! ## The pump -/

/-- `rename` of one log file, or `none` if it fails. A file that does not exist is no failure
    here. -/
def renameLog (fault : Bool) (S : State) (source target : Nat) : Option State :=
  match S.names source with
  | none => some S
  | some f =>
    if fault then none
    else some { S with names := update (update S.names source none) target (some f) }

/-- One call of `log_pump`. A read and a write move at least one byte. -/
def logPump (fault : Bool) (count : Nat) (S : State) : Option State :=
  match S.pump with
  | .reading =>
    if fault then some { S with pump := .ended }
    else
      match S.pipe.take (min (count + 1) bufferSize) with
      | [] => if S.shim = .closed then some { S with pump := .ended } else none
      | b :: bs =>
        let data := b :: bs
        some { S with
          pipe := S.pipe.drop data.length
          pump := if 0 < S.size ∧ logMaxSize < S.size + data.length then .unlinking data
            else .writing data.length data }
  | .unlinking data =>
    let names := if fault then S.names else update S.names logMaxFiles none
    some { S with names := names, pump := .shifting (logMaxFiles - 1) data }
  | .shifting index data =>
    match renameLog fault S index (index + 1) with
    | none => some { S with pump := .ended }
    | some S' =>
      some { S' with pump := if index ≤ 1 then .moving data else .shifting (index - 1) data }
  | .moving data =>
    match renameLog fault S 0 1 with
    | none => some { S with pump := .ended }
    | some S' => some { S' with pump := .creating data }
  | .creating data =>
    if fault then some { S with pump := .ended }
    else
      let S' := { S with size := 0, pump := .writing data.length data }
      match S.names 0 with
      | some f => some { S' with output := f }
      | none =>
        some { S' with
          names := update S.names 0 (some S.nextFile)
          contents := update S.contents S.nextFile []
          output := S.nextFile
          nextFile := S.nextFile + 1 }
  | .writing total rest =>
    if fault then some { S with pump := .ended }
    else
      let chunk := rest.take (count + 1)
      let S' := { S with
        contents := update S.contents S.output (S.contents S.output ++ chunk)
        appended := if S.follower.opened then S.appended ++ chunk else S.appended }
      match rest.drop (count + 1) with
      | [] => some { S' with size := S.size + total, pump := .reading }
      | b :: bs => some { S' with pump := .writing total (b :: bs) }
  | .ended => none

/-- `start_log_pump` behind the `open` of the launcher, with `fstat` at the start of `log_pump`: a
    pump that appends to the log, with an empty pipe. -/
def startLogPump (S : State) : State :=
  let S' := { S with pipe := [], shim := .running, pump := .reading }
  match S.names 0 with
  | some f => { S' with output := f, size := (S.contents f).length }
  | none =>
    { S' with
      names := update S.names 0 (some S.nextFile)
      contents := update S.contents S.nextFile []
      output := S.nextFile
      size := 0
      nextFile := S.nextFile + 1 }

/-! ## The follower -/

/-- The log is opened. -/
def State.openLog (S : State) (file : Nat) (follower : Follower) : State :=
  { S with follower := follower, before := S.contents file }

/-- The lines that a ring of this size holds. -/
def lastLines (n : Nat) (lines : List Bytes) : List Bytes := lines.drop (lines.length - n)

/-- The start of `show_log`. -/
def attach (tail : Option Nat) (S : State) : Option State :=
  match S.follower with
  | .absent =>
    match S.names 0 with
    | none => some { S with tail := tail, follower := .fallback }
    | some f => some ({ S with tail := tail }.openLog f (.first { file := f } []))
  | _ => none

/-- One call of `show_file` or `show_log`, with what is done before the next one. -/
def showLog (fault : Bool) (S : State) : Option State :=
  match S.follower with
  | .fallback =>
    match S.names 0 with
    | none => some { S with follower := .refused }
    | some f => some (S.openLog f (.copying { file := f }))
  | .copying s =>
    match fread (S.contents s.file) s with
    | ([], _) => some { S with follower := .ended }
    | (b :: bs, s') =>
      some { S with printed := S.printed ++ b :: bs, follower := .copying s' }
  | .first s ring =>
    match getline (S.contents s.file) s with
    | (none, s') =>
      some { S with printed := S.printed ++ ring.flatMap fputs, follower := .following s' }
    | (some line, s') =>
      match S.tail with
      | none => some { S with printed := S.printed ++ fputs line, follower := .first s' ring }
      | some n => some { S with follower := .first s' (lastLines n (ring ++ [line])) }
  | .following s =>
    match getline (S.contents s.file) (clearerr s) with
    | (none, s') => some { S with follower := .checking s' }
    | (some line, s') =>
      some { S with printed := S.printed ++ fputs line, follower := .following s' }
  | .checking s =>
    if fault ∨ S.shim ≠ .running then some { S with follower := .ended }
    else some { S with follower := .comparing s }
  | .comparing s =>
    if fault ∨ S.names 0 = none ∨ S.names 0 = some s.file then
      some { S with follower := .following s }
    else some { S with follower := .replacing s }
  | .replacing s =>
    match S.names 0 with
    | none => some { S with follower := .following s }
    | some f =>
      some { S with follower := .following (if fault then s else { file := f }) }
  | .absent | .ended | .refused => none

/-! ## Runs -/

inductive Event where
  /-- Somebody writes into the pipe. -/
  | workload (data : Bytes)
  /-- The shim records that the container has ended. -/
  | record
  /-- The shim closes the pipe, whose other writers have ended. -/
  | close
  | pump (fault : Bool) (count : Nat)
  | attach (tail : Option Nat)
  | follower (fault : Bool)
  deriving DecidableEq, Repr

def step (S : State) : Event → Option State
  | .workload data => if S.shim = .closed then none else some { S with pipe := S.pipe ++ data }
  | .record => if S.shim = .running then some { S with shim := .recorded } else none
  | .close => if S.shim = .recorded then some { S with shim := .closed } else none
  | .pump fault count => logPump fault count S
  | .attach tail => Logs.attach tail S
  | .follower fault => showLog fault S

def run : List Event → State → Option State
  | [], S => some S
  | e :: es, S =>
    match step S e with
    | none => none
    | some S' => run es S'

end MiniContainer.Logs
