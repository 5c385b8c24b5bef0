import MiniContainer.Native.Main

/-!
# Entering a running container

`mc_exec_container`: the record of the container is read, the identity of its init
process is checked, and the namespaces and the root directory of the process are
opened below `/proc`, by its process ID. The machine is the one that runs the commands
and shims, with these operations added to theirs.

The worker that joins what was opened is one operation. A `waitpid` that fails is left
out.
-/

namespace MiniContainer.Exec

open CString (Text)

/-! ## Operations -/

/-- What `mc_exec_container` opens below `/proc/<pid>`, by its name there. -/
inductive Target where
  | mnt
  | uts
  | ipc
  | net
  | cgroup
  | pid
  | user
  | root
  deriving DecidableEq, Repr

/-- The members of `struct namespace_set`, in the order in which they are opened. -/
def targets : List Target := [.mnt, .uts, .ipc, .net, .cgroup, .pid, .user, .root]

/-- An open file below `/proc`. It belongs to the process that had the process ID when it was
    opened. -/
structure Descriptor where
  target : Target
  pid : Nat
  process : Proc
  deriving DecidableEq, Repr

/-- What `mc_exec_container` knows of the container when its worker starts. -/
structure Entry where
  /-- The record that was read. -/
  document : StateDoc
  set : List Descriptor
  cgroup : Text
  config : RunConfig
  command : List Text

inductive Op where
  | registry (o : MiniContainer.Op)
  /-- The comparison of a recorded start time with `process_start_time`. -/
  | checkStart (pid start : Nat)
  | openTarget (target : Target) (pid : Nat)
  | closeNamespaces
  /-- `fork`, `exec_worker` in the child, and `waitpid`. -/
  | worker (entry : Entry)

abbrev Res : Op → Type
  | .registry o => MiniContainer.Res o
  | .checkStart _ _ => Bool
  | .openTarget _ _ => Option Descriptor
  | .closeNamespaces => Unit
  | .worker _ => Option Nat

/-! ## `mc_exec_container` -/

abbrev Action := Prog Op Res

abbrev Attempt := ExceptT McError Action

/-- A program of the registry. -/
def registry {α : Type} (p : MiniContainer.Action α) : Action α :=
  p.translate (fun o => .registry o) fun _ r => r

/-- One operation. -/
def perform (o : Op) : Action (Res o) := Prog.perform o

/-- The container that a reference denotes, its record, and what `mc_state_runtime` takes from
    the record. -/
structure Runtime where
  id : Name
  document : StateDoc
  initPid : Nat
  cgroup : Text

/-- `mc_state_runtime`. -/
def stateRuntime (reference : Text) : Attempt Runtime := do
  let unavailable := errorSet .conflict .esrch "runtime-identity" reference
    "container runtime identity is unavailable or stale"
  match ← ExceptT.lift (registry (resolve reference).run) with
  | .error _ => throw unavailable
  | .ok id =>
    match ← ExceptT.lift (perform (.registry (.readState id))) with
    | none => throw unavailable
    | some document =>
      match document.status, document.initPid, document.initStart, document.cgroupPath with
      | .running, some initPid, some initStart, some cgroup =>
        if initPid = 0 ∨ initStart = 0 then throw unavailable
        else if ← ExceptT.lift (perform (.checkStart initPid initStart)) then
          return ⟨id, document, initPid, cgroup⟩
        else throw unavailable
      | _, _, _, _ => throw unavailable

/-- The calls of `open`. A failure does not keep the others from being made. -/
def openTargets (pid : Nat) : List Target → Action (List (Option Descriptor))
  | [] => return []
  | target :: rest => do
    let descriptor ← perform (.openTarget target pid)
    let descriptors ← openTargets pid rest
    return descriptor :: descriptors

/-- The part of `mc_exec_container` behind the calls of `open`. -/
def enterNamespaces (runtime : Runtime) (config : RunConfig) (command : List Text)
    (opened : List (Option Descriptor)) : Attempt Nat := do
  match opened.mapM id with
  | none =>
    ExceptT.lift (perform .closeNamespaces)
    throw (errorSet .runtime .system "exec-container" runtime.id
      "cannot open container namespace identity")
  | some set =>
    match ← ExceptT.lift (perform (.worker
        ⟨runtime.document, set, runtime.cgroup, config, command⟩)) with
    | none => throw (errorSet .runtime .system "exec-container" runtime.id
        "cannot fork namespace worker")
    | some status => return status

/-- `mc_exec_container` of a process that is root or not. -/
def execContainer (root : Bool) (reference : Text) (command : List Text) : Attempt Nat := do
  if root = false ∨ command = [] then
    throw (errorSet .permission .eperm "exec-container" reference
      "container exec requires root and a command")
  else
    let runtime ← stateRuntime reference
    match ← ExceptT.lift (registry (loadConfig runtime.id).run) with
    | .error e => throw e
    | .ok (config, _) =>
      let opened ← ExceptT.lift (openTargets runtime.initPid targets)
      enterNamespaces runtime config command opened

/-- The command `exec`. -/
def execCommand (root : Bool) (args : List Text) : Action Outcome :=
  match args with
  | reference :: separator :: first :: rest =>
    if separator = "--".toList then do
      return .ofExcept (← (execContainer root reference (first :: rest)).run)
    else return usageOutcome
  | _ => return usageOutcome

/-! ## The machine -/

/-- What the processes share, and the process IDs that were checked by processes which have not
    started their workers yet. -/
structure World where
  base : MiniContainer.World
  checked : List (Tid × Nat) := []

/-- The descriptors are given up, or the worker has its own. -/
def World.uncheck (w : World) (t : Tid) : World :=
  { w with checked := w.checked.filter (·.1 ≠ t) }

/-- What an operation of process `t` answers and does. -/
def step (ch : Choice) (w : World) (t : Tid) : (o : Op) → Option (Res o × World)
  | .registry o => (MiniContainer.step ch w.base t o).map fun (r, base) => (r, { w with base })
  | .checkStart pid start =>
    if w.base.startTime pid = start then
      some (true, { w with checked := (t, pid) :: w.checked })
    else some (false, w)
  | .openTarget target pid =>
    match w.base.procs pid with
    | none => some (none, w)
    | some process => some (if ch.fault = .none then some ⟨target, pid, process⟩ else none, w)
  | .closeNamespaces => some ((), w.uncheck t)
  | .worker _ => some (if ch.fault = .none then some (ch.status.getD 125) else none, w.uncheck t)

inductive Cmd where
  | registry (c : MiniContainer.Cmd)
  | exec (root : Bool) (args : List Text)

/-- The process that an operation starts. -/
def spawn : (o : Op) → Res o → Option (Tid × Cmd)
  | .registry o, r => (forked o r).map fun (t, c) => (t, .registry c)
  | _, _ => none

/-- Any number of commands, shims and processes that enter containers. -/
def machine (host : Host) (build : Build) : Machine Op Res Outcome World Choice Cmd where
  step := step
  spawn := spawn
  prog
    | .registry c => registry ((MiniContainer.machine host build).prog c)
    | .exec root args => do
      let outcome ← execCommand root args
      perform (.registry (.exit outcome.code))
      return outcome
  enter ch w t
    | .registry c =>
      ((MiniContainer.machine host build).enter ch w.base t c).map fun base => { w with base }
    | .exec _ _ =>
      if w.base.canStart t ch.pid ch.start then
        some { w with base := w.base.addProc t ch.pid ch.start }
      else none
  kill w t := { w with base := w.base.leave t killedCode }
  killed := ⟨killedCode, none⟩
  env ch w := (envStep ch w.base).map fun base => { w with base }

/-- An empty registry and no process. -/
def initialSystem : Sys Op Res Outcome World := ⟨{ base := {} }, fun _ => none⟩

end MiniContainer.Exec
