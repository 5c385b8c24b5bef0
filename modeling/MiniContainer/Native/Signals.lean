import Mathlib.Data.List.Basic
import MiniContainer.Native.ConfigJson

/-!
# Signals on their way to the workload

Three processes of `linux/container.c`, system call by system call:

* the container's init: the end of `child_main` and `supervise`
* the workload: the child that `supervise` forks
* the shim: `mc_container_run` from the read of the ready byte on, with `handle_control` and
  the handlers of `install_forwarders`

The init is PID 1 of its namespace. A signal from outside with the default disposition is
dropped there unless it is blocked, and a blocked one is pending at most once. When the init
is gone, the kernel has ended every process of the namespace.
-/

namespace MiniContainer.Signals

open JsonC (Value)

/-! ## Signal numbers -/

abbrev Signal := Nat

def sighup : Signal := 1

def sigint : Signal := 2

def sigquit : Signal := 3

def sigkill : Signal := 9

def sigterm : Signal := 15

def sigchld : Signal := 17

def nsig : Nat := 65

/-- The set `signals` of `supervise`. -/
def supervisedSignals : List Signal := [sigchld, sigterm, sigint, sighup, sigquit]

/-- `forwarded_signals`. -/
def forwardedSignals : List Signal := [sigterm, sigint, sighup, sigquit]

/-! ## The processes -/

/-- Where the init is, in front of its next call. -/
inductive Init where
  /-- the set-up of `child_main`, up to its write of the ready byte -/
  | settingUp
  /-- `sigprocmask` -/
  | announced
  /-- `fork` -/
  | blocked
  /-- `sigwaitinfo` -/
  | waiting
  /-- `waitpid` behind a `SIGCHLD`; the flag is `workload_exited` -/
  | reaping (exited : Bool)
  /-- `kill(-workload, received)` -/
  | forwarding (received : Signal)
  /-- behind the loop -/
  | leaving
  | gone
  deriving DecidableEq, Repr

/-- Where the workload is. It leaves the init's process group with `setsid`. -/
inductive Workload where
  | unborn
  /-- `sigprocmask` -/
  | forked
  /-- `setsid` -/
  | unmasked
  /-- in its own session and process group: the rest of its set-up and the user's program -/
  | session
  | zombie
  | reaped
  deriving DecidableEq, Repr

/-- A connection to the control socket. -/
structure Request where
  /-- A message of one byte at least came in time. -/
  received : Bool := true
  /-- The user of the peer. -/
  uid : Nat := 0
  /-- What the tokener makes of the message. -/
  root : Option Value

/-- Where the shim is. The flag `listening` says that the control socket is open. -/
inductive Shim where
  /-- `read` of the ready byte -/
  | awaiting
  | openingSocket
  /-- `write_state` with the status `running` -/
  | recording
  /-- `write` to the launcher -/
  | notifying
  | installingForwarders (listening : Bool)
  /-- `waitpid` at the head of the loop -/
  | waiting (listening : Bool)
  | polling (listening : Bool)
  /-- the checks and the signal of `handle_control` -/
  | handling (request : Request)
  | replying (ok : Bool) (message : String)
  | finished

/-- A signal that the shim has sent for a control request. -/
structure Sent where
  signal : Signal
  /-- The reply `ok: true` was sent. -/
  acknowledged : Bool := false
  /-- Since the request the signal was sent to a process group with the workload in it. -/
  arrived : Bool := false
  deriving DecidableEq, Repr

structure State where
  init : Init := .settingUp
  workload : Workload := .unborn
  shim : Shim := .awaiting
  /-- The ready byte is written. -/
  ready : Bool := false
  /-- The pending signals of the init. -/
  pending : List Signal := []
  /-- The signals sent for control requests, the newest first. -/
  sent : List Sent := []
  /-- The container has a cgroup. -/
  cgroupActive : Bool := true

/-! ## The kernel -/

namespace State

/-- The workload has exited, or there will be none any more. -/
def isOver (s : State) : Bool :=
  s.init = .gone || s.workload = .zombie || s.workload = .reaped

/-- The init blocks `supervisedSignals`. -/
def masked (s : State) : Bool :=
  match s.init with
  | .settingUp | .announced | .gone => false
  | _ => true

/-- A signal for the init. -/
def deliver (s : State) (signal : Signal) : State :=
  if s.masked && supervisedSignals.contains signal then
    { s with pending := s.pending.insert signal }
  else s

/-- The end of the init, and with it of the namespace. -/
def endNamespace (s : State) : State :=
  { s with
    init := .gone
    workload := match s.workload with
      | .unborn => .unborn
      | _ => .reaped }

/-- `kill(-workload, signal)`: the group is there once the workload has called `setsid`. -/
def killGroup (s : State) (signal : Signal) : State :=
  if s.workload = .session then
    { s with
      sent := s.sent.map fun r => if r.signal = signal then { r with arrived := true } else r }
  else s

end State

/-! ## Steps -/

/-- What the system decides about a call. -/
structure Answer where
  fault : Bool := false
  /-- The pending signal that `sigwaitinfo` takes; `none` for `EINTR`. -/
  received : Option Signal := none
  /-- The child that `waitpid` reaps: the workload, another one, or none. -/
  reaped : Option Bool := none
  /-- The connection that `poll` reports. -/
  request : Option Request := none

/-- The next call of the init. -/
def initNext (answer : Answer) (s : State) : Option State :=
  match s.init with
  | .settingUp =>
    if answer.fault then some s.endNamespace
    else some { s with init := .announced, ready := true }
  | .announced =>
    if answer.fault then some s.endNamespace else some { s with init := .blocked }
  | .blocked =>
    if answer.fault then some s.endNamespace
    else some { s with init := .waiting, workload := .forked }
  | .waiting =>
    if answer.fault then
      -- `kill(-workload, SIGKILL)` and `return 125`
      some { s with
        init := .leaving
        workload := if s.workload = .session then .zombie else s.workload }
    else
      match answer.received with
      | none => some s
      | some received =>
        if received ∈ s.pending then
          some { s with
            pending := s.pending.filter (· ≠ received)
            init := if received = sigchld then .reaping false else .forwarding received }
        else none
  | .reaping exited =>
    match answer.reaped with
    | some true =>
      if s.workload = .zombie then some { s with workload := .reaped, init := .reaping true }
      else none
    | some false => some s
    | none =>
      if s.workload = .zombie then none
      else some { s with init := if exited then .leaving else .waiting }
  | .forwarding received => some { s.killGroup received with init := .waiting }
  | .leaving => some s.endNamespace
  | .gone => none

/-- The next call of the workload; with a fault, or at any time in the user's program, it
    exits. -/
def workloadNext (answer : Answer) (s : State) : Option State :=
  let exit := { s.deliver sigchld with workload := .zombie }
  match s.workload with
  | .forked => if answer.fault then some exit else some { s with workload := .unmasked }
  | .unmasked => if answer.fault then some exit else some { s with workload := .session }
  | .session => some exit
  | _ => none

/-- Another child of the init exits, one that it has inherited. -/
def orphanExits (s : State) : State := s.deliver sigchld

/-- The checks of the document up to the number of the signal: `none` if `strcmp` gets a null
    pointer, `some none` for `goto invalid`. -/
def requested (root : Value) : Option (Option Int) :=
  match root.getEx "version" with
  | none => some none
  | some version =>
    if version.getInt ≠ 1 then some none
    else
      match root.getEx "operation" with
      | none => some none
      | some operation =>
        match operation.getString with
        | none => none
        | some text =>
          if untilNul text ≠ "signal".toList then some none
          else some ((root.getEx "signal").map Value.getInt)

/-- The signal that a control request asks for. -/
def Request.signal (r : Request) : Option (Option Int) :=
  match r.root with
  | none => some none
  | some root => requested root

/-- `handle_control` up to its reply. `SIGKILL` goes to the container's cgroup. -/
def handleControl (answer : Answer) (r : Request) (s : State) : State :=
  let invalid := { s with shim := .replying false "invalid request" }
  if !r.received then invalid
  else if r.uid ≠ 0 then { s with shim := .replying false "permission denied" }
  else
    match r.signal with
    -- the shim crashes; its end is the end of the init, by `PR_SET_PDEATHSIG`
    | none => { s.endNamespace with shim := .finished }
    | some none => invalid
    | some (some number) =>
      if number ≤ 0 ∨ (nsig : Int) ≤ number then invalid
      else
        let signal := number.toNat
        let reply := Shim.replying true "signal delivered"
        let sent := { signal } :: s.sent
        if signal = sigkill then
          let failed := if s.cgroupActive then "cgroup kill failed" else "pidfd signal failed"
          if answer.fault then { s with shim := .replying false failed }
          else { s.endNamespace with sent, shim := reply }
        else if answer.fault then { s with shim := .replying false "pidfd signal failed" }
        else { s.deliver signal with sent, shim := reply }

/-- The newest signal is acknowledged. -/
def acknowledge : List Sent → List Sent
  | [] => []
  | r :: rs => { r with acknowledged := true } :: rs

/-- The next call of the shim. `kill(child, SIGKILL)` ends the namespace. -/
def shimNext (answer : Answer) (s : State) : Option State :=
  match s.shim with
  | .awaiting =>
    if s.ready then some { s with shim := .openingSocket }
    else if s.init = .gone then some { s with shim := .installingForwarders false }
    else none
  | .openingSocket =>
    if answer.fault then some { s.endNamespace with shim := .installingForwarders false }
    else some { s with shim := .recording }
  | .recording =>
    if answer.fault then some { s.endNamespace with shim := .installingForwarders true }
    else some { s with shim := .notifying }
  | .notifying =>
    if answer.fault then some { s.endNamespace with shim := .installingForwarders true }
    else some { s with shim := .installingForwarders true }
  | .installingForwarders listening =>
    if answer.fault then some { s.endNamespace with shim := .waiting listening }
    else some { s with shim := .waiting listening }
  | .waiting listening =>
    if s.init = .gone || answer.fault then some { s with shim := .finished }
    else some { s with shim := .polling listening }
  | .polling listening =>
    match listening, answer.request with
    | true, some request => some { s with shim := .handling request }
    | _, _ => some { s with shim := .waiting listening }
  | .handling request => some (handleControl answer request s)
  | .replying ok _ =>
    -- a reply that cannot be sent is nobody's acknowledgement
    if ok && !answer.fault then
      some { s with sent := acknowledge s.sent, shim := .waiting true }
    else some { s with shim := .waiting true }
  | .finished => none

/-- `forward_signal`: the shim itself gets one of `forwardedSignals` while its handlers are
    installed. -/
def forwardSignal (signal : Signal) (s : State) : Option State :=
  match s.shim with
  | .waiting _ | .polling _ | .handling _ | .replying _ _ =>
    if forwardedSignals.contains signal then some (s.deliver signal) else none
  | _ => none

inductive Event where
  | init (answer : Answer)
  | workload (answer : Answer)
  | orphan
  | shim (answer : Answer)
  | forward (signal : Signal)

def next : Event → State → Option State
  | .init answer, s => initNext answer s
  | .workload answer, s => workloadNext answer s
  | .orphan, s => some (orphanExits s)
  | .shim answer, s => shimNext answer s
  | .forward signal, s => forwardSignal signal s

end MiniContainer.Signals
