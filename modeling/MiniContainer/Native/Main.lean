import MiniContainer.Native.Cli
import MiniContainer.Native.Shim

/-!
# Commands

The subcommands of `minicontainer` that work on the registry (`ps`, `gc`, `kill`,
`stop`, `rm`, `start`, `run` and `create`), `mc_launch_shim`, and the machine that
runs any number of these commands and of the shims they launch side by side.
-/

namespace MiniContainer

open CString (Text)

/-- What a process leaves behind: its exit code and the error it printed. -/
structure Outcome where
  code : Nat
  error : Option McError
  deriving DecidableEq, Repr

def Outcome.ofExcept : Except McError Nat → Outcome
  | .ok code => ⟨code, none⟩
  | .error e => ⟨e.code.toNat, some e⟩

/-- `usage(stderr)` and the exit code that follows it. -/
def usageOutcome : Outcome := ⟨ExitCode.usage.toNat, none⟩

/-! ## Locked sections -/

/-- A section under the registry lock. -/
def underRegistry {α : Type} (p : Attempt α) : Attempt α := do
  registryLock
  Prog.bind p fun result => Prog.bind (perform .unlockRegistry) fun _ => Prog.ret result

/-- A section under a container's lock. -/
def underContainer {α : Type} (c : Name) (p : Attempt α) : Attempt α := do
  containerLock c
  Prog.bind p fun result => Prog.bind (perform (.unlockContainer c)) fun _ => Prog.ret result

/-! ## Launching -/

/-- The descriptors of a detached container: the write end of the readiness pipe. -/
def detachedDescriptors (c : Name) : Attempt Nat := do
  match ← perform .pipe with
  | none => Attempt.fail (errorSet .runtime .system "launch-shim" c
      "cannot create readiness channel")
  | some fd =>
    Attempt.check (perform (.openLog c)) (errorSet .runtime .system "launch-shim"
      ("/var/log/minicontainer/".toList ++ c ++ "/container.log".toList)
      "cannot open detached standard streams")
    return fd

/-- The descriptor that a shim is given for its readiness, 0 in the foreground. -/
def readyDescriptor (config : RunConfig) : Attempt Nat :=
  if config.detach then detachedDescriptors config.id else return 0

/-- The end of `mc_launch_shim` in the parent. -/
def awaitShim (config : RunConfig) (child : Tid) : Attempt Nat :=
  if config.detach then do
    if ← perform (.awaitReady child) then return 0
    else
      let _ ← perform (.waitShim child)
      Attempt.fail (errorSet .runtime .zero "launch-shim" config.id
        "detached container failed before reaching running state")
  else perform (.waitShim child)

/-- `mc_launch_shim`. -/
def launchShim (config : RunConfig) : Attempt Nat := do
  let fd ← readyDescriptor config
  match ← perform (.fork config (shimArguments config fd)) with
  | none => Attempt.fail (errorSet .runtime .system "launch-shim"
      "/usr/libexec/minicontainer/minicontainer-shim".toList "cannot execute shim")
  | some child => awaitShim config child

/-! ## Subcommands -/

/-- One row of `mc_state_print_list`. -/
def listRow (includeStopped : Bool) (d : Name) : Action (Option (Name × Text × Status)) := do
  let state ← perform (.readState d)
  let config ← perform (.readConfig d)
  match state with
  | none => return none
  | some document =>
    if !includeStopped && document.status != .running then return none
    else
      let name := (config.bind (·.getEx "name")).bind JsonC.Value.getString
      return some (d, name.getD [], document.status)

/-- The loop of `mc_state_print_list`. -/
def listRows (includeStopped : Bool) : List Name → Action (List (Name × Text × Status))
  | [] => return []
  | d :: ds =>
    if !containerEntry d then listRows includeStopped ds
    else do
      let row ← listRow includeStopped d
      let rows ← listRows includeStopped ds
      return row.toList ++ rows

/-- `mc_state_print_list`: the rows that it prints. -/
def printList (includeStopped : Bool) : Attempt (List (Name × Text × Status)) := do
  match ← perform .opendir with
  | .absent => return []
  | .failed => Attempt.fail (errorSet .runtime .system "list-containers" containersDir
      "cannot read container registry")
  | .entries names => listRows includeStopped names

/-- `ps`. -/
def ps (root includeStopped : Bool) : Attempt Nat := do
  if root then
    let _ ← reconcile
  let _ ← printList includeStopped
  return 0

/-- `gc`. -/
def gc : Attempt Nat := underRegistry do
  let _ ← reconcile
  return 0

/-- `kill`. -/
def kill (reference : Text) (number : Nat) : Attempt Nat := underRegistry do
  let id ← resolve reference
  underContainer id (signal id number)
  return 0

/-- The loop of `stop`: whether the container was seen not running. -/
def awaitExit (c : Name) : Nat → Action Bool
  | 0 => return false
  | attempts + 1 => do
    match ← getStatus c with
    | .ok status => if status ≠ .running then return true else awaitExit c attempts
    | .error _ => awaitExit c attempts

/-- `SIGTERM` and `SIGKILL`. -/
def sigterm : Nat := 15

@[inherit_doc sigterm]
def sigkill : Nat := 9

/-- `stop`. -/
def stop (reference : Text) (timeout : Nat) : Attempt Nat := do
  let id ← underRegistry do
    let id ← resolve reference
    underContainer id (signal id sigterm)
    return id
  if ← awaitExit id (timeout * 10) then return 0
  else
    underRegistry (underContainer id (signal id sigkill))
    return 0

/-- The loop of `rm` behind a forced signal: the last status seen. -/
def awaitForced (c : Name) : Nat → Status → Action Status
  | 0, status => return status
  | attempts + 1, status => do
    match ← getStatus c with
    | .ok now => if now ≠ .running then return now else awaitForced c attempts now
    | .error _ => awaitForced c attempts status

/-- The part of `rm` under the container's lock. -/
def ensureStopped (force : Bool) (c : Name) : Attempt Unit := do
  let status ← getStatus c
  if status = .running then
    if !force then
      Attempt.fail (errorSet .conflict .ebusy "remove-container" c
        "running container requires --force")
    else
      signal c sigkill
      let status ← awaitForced c 100 status
      if status = .running then
        Attempt.fail (errorSet .runtime .etimedout "remove-container" c
          "forced container did not stop")
      else return ()
  else return ()

/-- `rm`. -/
def rm (force : Bool) (reference : Text) : Attempt Nat := underRegistry do
  let _ ← reconcile
  let id ← resolve reference
  underContainer id (ensureStopped force id)
  remove id
  return 0

/-- The part of `start` under the container's lock. -/
def startStored (stored : RunConfig) : Attempt Nat := do
  let status ← getStatus stored.id
  if status = .created ∨ status = .stopped then launchShim { stored with detach := true }
  else
    Attempt.fail (errorSet .conflict .ebusy "start" stored.id
      "container is not in a startable state")

/-- `start`. -/
def start (reference : Text) : Attempt Nat := underRegistry do
  let _ ← reconcile
  let (stored, _) ← loadConfig reference
  underContainer stored.id (startStored stored)

/-- The address of a new container. -/
def leaseAddress (config : RunConfig) : Attempt UInt32 :=
  if config.networkBridge then allocateIp else return 0

/-- The critical section of `run` and `create`, up to its first failure. -/
def registerSteps (build : Build) (createOnly : Bool) (config : RunConfig) (image : Text) :
    Attempt RunConfig := do
  registryLock
  let _ ← reconcile
  containerLock config.id
  let ipv4Host ← leaseAddress config
  let config := { config with ipv4Host }
  saveConfig build config image
  if createOnly then
    markCreated config.id
    return config
  else return config

/-- The critical section of `run` and `create`. -/
def register (build : Build) (createOnly : Bool) (config : RunConfig) (image : Text) :
    Attempt RunConfig :=
  Prog.bind (registerSteps build createOnly config image) fun
    | .ok registered => do
      perform (.unlockContainer config.id)
      perform .unlockRegistry
      return .ok registered
    | .error e =>
      Prog.bind (perform (.unlockContainer config.id)) fun _ =>
      Prog.bind (remove config.id) fun _ =>
      Prog.bind (perform .unlockRegistry) fun _ =>
      Prog.ret (.error e)

/-- `run` and `create` behind their arguments. -/
def runOrCreate (build : Build) (createOnly : Bool) (request : RunRequest) : Action Outcome := do
  match ← perform .generateId with
  | none =>
    return .ofExcept (.error (errorSet .internal .system "generate-id" "getrandom".toList
      "cannot obtain cryptographic randomness"))
  | some id =>
    if request.publishesWithoutBridge then return usageOutcome
    else
      match ← register build createOnly (request.config id.text) request.image with
      | .error e => return .ofExcept (.error e)
      | .ok config =>
        if createOnly then return ⟨0, none⟩ else return .ofExcept (← launchShim config)

/-! ## `main` -/

/-- The options of `ps`: whether stopped containers are listed. -/
def psOptions : List Text → Option Bool
  | [] => some false
  | option :: options =>
    if option = "--all".toList then (psOptions options).map fun _ => true
    else if option = "--json".toList then psOptions options
    else none

/-- The value of `kill --signal`. -/
def signalNumber (value : Text) : Option Nat :=
  if value = "TERM".toList ∨ value = "SIGTERM".toList then some sigterm
  else if value = "KILL".toList ∨ value = "SIGKILL".toList then some sigkill
  else if value = "INT".toList ∨ value = "SIGINT".toList then some 2
  else if value = "HUP".toList ∨ value = "SIGHUP".toList then some 1
  else if value = "QUIT".toList ∨ value = "SIGQUIT".toList then some 3
  else none

/-- The exit code of a command that needs root. -/
def permissionOutcome : Outcome := ⟨ExitCode.permission.toNat, none⟩

/-- The end of a subcommand: its result as the outcome of the process. -/
def report (p : Attempt Nat) : Action Outcome := Prog.bind p fun result => return .ofExcept result

/-- The arguments of `ps`. -/
def psCommand (root : Bool) (args : List Text) : Action Outcome :=
  match psOptions args with
  | some includeStopped => report (ps root includeStopped)
  | none => return usageOutcome

/-- The arguments of `run` and `create`. -/
def runCommand (host : Host) (build : Build) (createOnly : Bool) (args : List Text) :
    Action Outcome :=
  match runRequest host args with
  | .error (.reported e) => return .ofExcept (.error e)
  | .error .usage => return usageOutcome
  | .ok request => runOrCreate build createOnly request

/-- The arguments of `gc`. -/
def gcCommand (root : Bool) (args : List Text) : Action Outcome :=
  match args with
  | [] => if root then report gc else return permissionOutcome
  | _ => return usageOutcome

/-- The arguments of `kill`. -/
def killCommand (args : List Text) : Action Outcome :=
  match args with
  | [reference] => report (kill reference sigkill)
  | [option, value, reference] =>
    match decide (option = "--signal".toList), signalNumber value with
    | true, some number => report (kill reference number)
    | _, _ => return usageOutcome
  | _ => return usageOutcome

/-- The arguments of `stop`. -/
def stopCommand (args : List Text) : Action Outcome :=
  match args with
  | [reference] => report (stop reference 10)
  | [option, value, reference] =>
    match decide (option = "--time".toList), parsePositiveU64 value 3600 with
    | true, some timeout => report (stop reference timeout.toNat)
    | _, _ => return usageOutcome
  | _ => return usageOutcome

/-- The arguments of `rm`. -/
def rmCommand (args : List Text) : Action Outcome :=
  match args with
  | [reference] => report (rm false reference)
  | [option, reference] =>
    if option = "--force".toList then report (rm true reference) else return usageOutcome
  | _ => return usageOutcome

/-- The arguments of `start`. -/
def startCommand (root : Bool) (args : List Text) : Action Outcome :=
  match args with
  | [reference] => if root then report (start reference) else return permissionOutcome
  | _ => return usageOutcome

/-- The subcommands that are modelled. -/
def subcommand (host : Host) (build : Build) (root : Bool) (name : Text) (args : List Text) :
    Action Outcome :=
  if name = "ps".toList then psCommand root args
  else if name = "run".toList then runCommand host build false args
  else if name = "create".toList then runCommand host build true args
  else if name = "gc".toList then gcCommand root args
  else if name = "kill".toList then killCommand args
  else if name = "stop".toList then stopCommand args
  else if name = "rm".toList then rmCommand args
  else if name = "start".toList then startCommand root args
  else return usageOutcome

/-- A process that ends with its outcome. -/
def exiting (p : Action Outcome) : Action Outcome := do
  let outcome ← p
  perform (.exit outcome.code)
  return outcome

/-- `main` of `minicontainer`, for the subcommands that are modelled. -/
def main (host : Host) (build : Build) (root : Bool) : List Text → Action Outcome
  | [] => exiting (return usageOutcome)
  | name :: args => exiting (subcommand host build root name args)

/-- `main` of the shim. -/
def shimMain (host : Host) (args : List Text) : Action Outcome :=
  match shimConfig host args with
  | none => exiting (return usageOutcome)
  | some config => exiting do return .ofExcept (← shimRun config)

/-! ## The machine -/

/-- The programs: a command line, and the arguments of a shim. -/
inductive Cmd where
  | cli (root : Bool) (args : List Text)
  | shim (args : List Text)

/-- The shim that a fork starts. -/
def forked : (o : Op) → Res o → Option (Tid × Cmd)
  | .fork _ args, some t => some (t, .shim args)
  | _, _ => none

/-- Only shims are forked. -/
theorem forked_eq_some {o : Op} {r : Res o} {t : Tid} {c : Cmd} (h : forked o r = some (t, c)) :
    ∃ args, c = .shim args := by
  unfold forked at h
  split at h
  · exact ⟨_, (Prod.mk.inj (Option.some.inj h)).2.symm⟩
  · exact nomatch h

/-- A shim gets the handle that the choice gives. -/
theorem forked_tid {ch : Choice} {w w' : World} {t t' : Tid} {o : Op} {r : Res o} {c : Cmd}
    (hs : step ch w t o = some (r, w')) (h : forked o r = some (t', c)) : t' = ch.tid := by
  unfold forked at h
  split at h
  · simp only [step] at hs
    split at hs
    · exact nomatch hs
    · split at hs
      · have ht := Option.some.inj (Prod.mk.inj (Option.some.inj hs)).1
        exact (Prod.mk.inj (Option.some.inj h)).1.symm.trans ht.symm
      · exact nomatch hs
  · exact nomatch h

/-- The exit code of a process killed by `SIGKILL`. -/
def killedCode : Nat := 137

/-- Any number of commands and shims on one machine. -/
def machine (host : Host) (build : Build) : Machine Op Res Outcome World Choice Cmd where
  step := step
  spawn := forked
  prog
    | .cli root args => main host build root args
    | .shim args => shimMain host args
  enter ch w t
    | .cli _ _ => if w.canStart t ch.pid ch.start then some (w.addProc t ch.pid ch.start) else none
    | .shim _ => none
  kill w t := w.leave t killedCode
  killed := ⟨killedCode, none⟩
  env := envStep

/-- The same machine with reads that may fail. -/
def faultyMachine (host : Host) (build : Build) : Machine Op Res Outcome World Choice Cmd :=
  { machine host build with step := faultyStep }

/-- An empty registry and no process. -/
def initialSystem : Sys Op Res Outcome World := ⟨{}, fun _ => none⟩

end MiniContainer
