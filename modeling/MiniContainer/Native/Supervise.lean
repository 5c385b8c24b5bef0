import MiniContainer.Native.Signals

/-!
# The supervisor of a container

`supervise` of `linux/container.c` call by call, with the children that it reaps: the
workload, and orphans of the namespace that the kernel hands over to it. Children have
process IDs, and a zombie has the status word that `waitpid` stores.

The kernel gives the ID of the workload to no later process: it hands out IDs in cycles
that leave out the first 300, the workload is among the first processes of the namespace,
and the system call filter keeps `clone3`, with which a process can ask for an ID, from it.
-/

namespace MiniContainer.Supervise

open Signals (Signal sigchld supervisedSignals nsig)

/-! ## Status words -/

/-- `WTERMSIG`. -/
def wtermsig (status : Nat) : Nat := status &&& 0x7f

/-- `WIFEXITED`. -/
def wifexited (status : Nat) : Bool := wtermsig status == 0

/-- `WEXITSTATUS`. -/
def wexitstatus (status : Nat) : Nat := (status &&& 0xff00) >>> 8

/-- `WIFSIGNALED`: `((signed char)((status & 0x7f) + 1) >> 1) > 0`. -/
def wifsignaled (status : Nat) : Bool :=
  0 < ((BitVec.ofNat 8 ((status &&& 0x7f) + 1)).sshiftRight 1).toInt

/-- The end of `supervise`. -/
def exitValue (status : Nat) : Nat :=
  if wifexited status then wexitstatus status
  else if wifsignaled status then 128 + wtermsig status
  else 125

/-- How a process ends. -/
inductive Ending where
  | exited (code : UInt8)
  | killed (signal : Signal) (core : Bool) (range : 0 < signal ∧ signal < nsig)
  deriving DecidableEq, Repr

/-- The status word of the kernel. -/
def Ending.status : Ending → Nat
  | .exited code => code.toNat <<< 8
  | .killed signal core _ => signal ||| if core then 0x80 else 0

/-! ## States -/

/-- A child that is not reaped yet. -/
structure Child where
  pid : Nat
  /-- The status of a zombie. -/
  status : Option Nat := none
  deriving DecidableEq, Repr

/-- The next call of `supervise`. -/
inductive Position where
  /-- `sigprocmask` -/
  | blocking
  | forking
  /-- `sigwaitinfo` -/
  | waiting
  /-- `waitpid` of the inner loop -/
  | reaping
  /-- `kill(-workload, received)` -/
  | forwarding (received : Signal)
  /-- `kill(-workload, SIGKILL)` -/
  | aborting
  /-- `kill(-1, SIGKILL)` -/
  | killing
  /-- `waitpid` behind the loop -/
  | draining
  | returned (value : Nat)
  deriving DecidableEq, Repr

structure State where
  position : Position := .blocking
  /-- The variable `workload`, once it is assigned. -/
  workload : Option Nat := none
  workloadStatus : Nat := 0
  workloadExited : Bool := false
  children : List Child := []
  /-- The pending signals; each is pending at most once. -/
  pending : List Signal := []
  /-- How the workload has ended, for the specification only. -/
  ending : Option Ending := none
  /-- A call has failed, for the specification only. -/
  failed : Bool := false

namespace State

def child (s : State) (pid : Nat) : Option Child := s.children.find? (·.pid == pid)

/-- The status of a child that can be reaped. -/
def zombie (s : State) (pid : Nat) : Option Nat := (s.child pid).bind Child.status

/-- `waitpid` takes the child. -/
def reap (s : State) (pid : Nat) : State :=
  { s with children := s.children.filter (·.pid != pid) }

/-- A signal for the init. Before the signals are blocked, those with the default disposition
    are dropped. -/
def deliver (s : State) (signal : Signal) : State :=
  if s.position ≠ .blocking ∧ signal ∈ supervisedSignals then
    { s with pending := s.pending.insert signal }
  else s

/-- A child becomes a zombie. -/
def exit (s : State) (pid status : Nat) : State :=
  let children := s.children.map fun c =>
    if c.pid == pid then { c with status := some status } else c
  { s with children }.deliver sigchld

end State

/-! ## Steps -/

/-- What the system decides about a call. -/
structure Answer where
  fault : Bool := false
  /-- The child that is forked or reaped. -/
  pid : Nat := 0
  /-- The signal that `sigwaitinfo` takes; `none` for `EINTR`. -/
  received : Option Signal := none

/-- The next call of `supervise`. -/
def superviseNext (answer : Answer) (s : State) : Option State :=
  match s.position with
  | .blocking =>
    if answer.fault then some { s with position := .returned 125, failed := true }
    else some { s with position := .forking }
  | .forking =>
    if answer.fault then some { s with position := .returned 125, failed := true }
    else if answer.pid = 0 ∨ s.child answer.pid ≠ none then none
    else
      some { s with
        position := .waiting
        workload := some answer.pid
        children := { pid := answer.pid } :: s.children }
  | .waiting =>
    if answer.fault then some { s with position := .aborting, failed := true }
    else
      match answer.received with
      | none => some s
      | some received =>
        if received ∈ s.pending then
          some { s with
            pending := s.pending.filter (· ≠ received)
            position := if received = sigchld then .reaping else .forwarding received }
        else none
  | .reaping =>
    -- without a zombie `waitpid` returns 0 or fails with `ECHILD`
    if s.children.all (·.status.isNone) then
      some { s with position := if s.workloadExited then .killing else .waiting }
    else
      match s.zombie answer.pid with
      | none => none
      | some status =>
        if s.workload = some answer.pid then
          some { s.reap answer.pid with workloadStatus := status, workloadExited := true }
        else some (s.reap answer.pid)
  | .forwarding _ => some { s with position := .waiting }
  | .aborting => some { s with position := .returned 125 }
  | .killing => some { s with position := .draining }
  | .draining =>
    if s.children = [] then some { s with position := .returned (exitValue s.workloadStatus) }
    else
      match s.zombie answer.pid with
      | none => none
      | some _ => some (s.reap answer.pid)
  | .returned _ => none

inductive Event where
  | supervise (answer : Answer)
  | workloadExits (ending : Ending)
  /-- An orphan of the namespace becomes a child of the init. -/
  | adopted (pid : Nat)
  | orphanExits (pid : Nat) (ending : Ending)
  /-- A signal arrives, `SIGCHLD` for a child that stops among them. -/
  | signal (number : Signal)

/-- The child is running. -/
def State.runs (s : State) (pid : Nat) : Bool := s.child pid == some { pid }

def next : Event → State → Option State
  | .supervise answer, s => superviseNext answer s
  | .workloadExits ending, s =>
    match s.workload with
    | none => none
    | some pid =>
      if s.runs pid then some { s.exit pid ending.status with ending := some ending } else none
  | .adopted pid, s =>
    if pid = 0 ∨ s.child pid ≠ none ∨ s.workload = some pid then none
    else some { s with children := { pid } :: s.children }
  | .orphanExits pid ending, s =>
    if s.runs pid ∧ s.workload ≠ some pid then some (s.exit pid ending.status) else none
  | .signal number, s => some (s.deliver number)

/-- The states that `supervise` can be in. -/
inductive Reached : State → Prop where
  /-- Orphans may have been handed over before. -/
  | start (children : List Child) : Reached { children }
  | step {s s' : State} {e : Event} : Reached s → next e s = some s' → Reached s'

end MiniContainer.Supervise
