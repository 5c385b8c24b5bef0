import MiniContainer.ForStd.Credentials
import MiniContainer.Native.Identity
import MiniContainer.Native.Launch
import MiniContainer.Native.Seccomp

/-!
# The credentials of workloads

`mc_security_prepare` and `mc_security_apply` of `linux/security.c`, and the two processes that
call them in front of `execvp`: the child of `supervise` in `linux/container.c`, and the child of
`exec_worker` in `linux/exec.c`. Both come from a process of root that enters the user namespace
of the container.

The kernel is the one of `ForStd.Credentials`. What it decides about anything else, and what
`libseccomp` does, are parameters.
-/

namespace MiniContainer.Security

open CString (Text)
open Linux (CapSet Cred Namespace)

/-- A process: its credentials and the filters that it has loaded. -/
structure Task where
  cred : Cred
  filters : List Seccomp.Filter := []

/-! ## `linux/security.c` -/

section

variable (ns : Namespace) (mask : UInt64)

/-- `setgroups(0U, NULL)`. Where it is not allowed, there has to be no group. -/
def clearGroups (c : Cred) : Except Linux.Error Cred :=
  match c.call ns (.setgroups []) with
  | .ok c => .ok c
  | .error e => if e ≠ .eperm ∨ c.groups.length ≠ 0 then .error e else .ok c

/-- The loop of `mc_security_prepare` over some of the capabilities. -/
def dropBounding : List Nat → Cred → Except Linux.Error Cred
  | [], c => .ok c
  | n :: rest, c =>
    if hasCapability mask n then dropBounding rest c
    else
      match c.call ns (.capbsetDrop n) with
      | .ok c => dropBounding rest c
      | .error e => if e ≠ .einval then .error e else dropBounding rest c

/-- `mc_security_prepare`. -/
def prepare (c : Cred) : Except Linux.Error Cred := do
  let c ← clearGroups ns c
  let c ← dropBounding ns mask (List.range 41) c
  c.call ns (.setKeepcaps true)

/-- `struct __user_cap_data_struct`. -/
structure CapData where
  effective : UInt32 := 0
  permitted : UInt32 := 0
  inheritable : UInt32 := 0

/-- `SYS_capset`: the lower and the upper halves of the sets. -/
def capset (data₀ data₁ : CapData) (c : Cred) : Except Linux.Error Cred :=
  c.call ns (.capset (.ofWords data₀.effective data₁.effective)
    (.ofWords data₀.permitted data₁.permitted) (.ofWords data₀.inheritable data₁.inheritable))

/-- The loop of `mc_security_apply` over some of the capabilities. -/
def raiseAmbient : List Nat → Cred → Except Linux.Error Cred
  | [], c => .ok c
  | n :: rest, c =>
    if hasCapability mask n then do raiseAmbient rest (← c.call ns (.ambientRaise n))
    else raiseAmbient rest c

/-- `mc_security_apply` up to the filter. -/
def applyCapabilities (c : Cred) : Except Linux.Error Cred := do
  let preparationMask := addCapability mask 8
  let low := preparationMask.toUInt32
  let high := (preparationMask >>> 32).toUInt32
  let c ← capset ns { effective := low, permitted := low }
    { effective := high, permitted := high } c
  let c ← c.call ns (.setSecurebits (1 ||| 2 ||| 4 ||| 8))
  let low := mask.toUInt32
  let high := (mask >>> 32).toUInt32
  let c ← capset ns ⟨low, low, low⟩ ⟨high, high, high⟩ c
  let c ← c.call ns .ambientClear
  let c ← raiseAmbient ns mask (List.range 64) c
  c.call ns .setNoNewPrivs

/-- `mc_security_apply`. A process that has given up new privileges may load a filter. -/
def apply (lib : Seccomp.Library) (denies : List Text) (task : Task) : Except Linux.Error Task := do
  let cred ← applyCapabilities ns mask task.cred
  match Seccomp.installSeccomp lib denies with
  | some filter => return { cred, filters := filter :: task.filters }
  | none => throw .other

end

/-! ## Workloads -/

/-- What else a workload depends on. -/
structure Surroundings where
  /-- The user namespace of the container. -/
  ns : Namespace
  lib : Seccomp.Library
  /-- The numbers of the system calls. The library knows some of them. -/
  number : Text → Int
  number_eq_iff : ∀ {name name' n}, lib.resolve name' = some n → (number name = n ↔ name = name')
  setsid : Option Linux.Error := none
  /-- `chdir` to the working directory, in the root that the process has. -/
  chdir : Text → Option Linux.Error := fun _ => none
  /-- `fchdir` to the root of the container, and `chroot`. -/
  enterRoot : Option Linux.Error := none
  /-- The program that `execvp` finds, or why it finds none that it may execute. -/
  program : Text → Except Linux.Error Linux.File

/-- Why a process does not become a workload. -/
inductive Failure where
  /-- It exits, and says what has failed. -/
  | exits (code : Nat) (label : Option Text) (errno : Linux.Error)
  /-- It is killed: the child of `supervise` computes with the missing separator. -/
  | crashes
  deriving DecidableEq, Repr

variable (s : Surroundings) (config : RunConfig)

/-- A step that ends the process where it fails. -/
def orExit {α : Type} (label : String) : Except Linux.Error α → Except Failure α
  | .ok a => .ok a
  | .error e => .error (.exits 125 (some label.toList) e)

def check (label : Text) : Option Linux.Error → Except Failure Unit
  | none => .ok ()
  | some e => .error (.exits 125 (some label) e)

/-- `install_environment` with its caller. The two functions of this name differ in what becomes
    of an assignment without a separator. -/
def environmentOrExit (unseparated : Failure) : Except Failure Variables :=
  match installEnvironment config with
  | .ok environ => .ok environ
  | .error (.setenv _) => .error (.exits 125 (some "environment".toList) .einval)
  | .error (.noSeparator _) => .error unseparated

/-- What both children do up to `execvp`, with their labels for the group and the user. -/
def secure (group user : String) (unseparated : Failure) (task : Task) :
    Except Failure (Task × Variables) := do
  let cred ← orExit "security preparation" (prepare s.ns config.capabilityMask task.cred)
  let cred ← orExit group (cred.call s.ns (.setresgid config.group config.group config.group))
  let cred ← orExit user (cred.call s.ns (.setresuid config.user config.user config.user))
  let environ ← environmentOrExit config unseparated
  let task ← orExit "security policy"
    (apply s.ns config.capabilityMask s.lib config.seccompDenies { task with cred })
  return (task, environ)

/-- `execvp`, and what follows where it fails. -/
def execvp (command : List Text) (report : Bool) (task : Task) : Except Failure Task :=
  let name := command.headD []
  match (s.program name).bind fun file => task.cred.call s.ns (.exec file) with
  | .ok cred => .ok { task with cred }
  | .error e =>
    .error (.exits (if e = .enoent then 127 else 126)
      (if report then some ("exec ".toList ++ name) else none) e)

def secureAndExec (group user : String) (unseparated : Failure) (command : List Text)
    (report : Bool) (task : Task) : Except Failure (Task × Variables) := do
  let (task, environ) ← secure s config group user unseparated task
  return (← execvp s command report task, environ)

/-- The child of `supervise`: the process and its variables where it runs the workload. -/
def superviseWorkload (task : Task) : Except Failure (Task × Variables) := do
  check "setsid".toList s.setsid
  check ("workdir ".toList ++ config.workdir) (s.chdir config.workdir)
  secureAndExec s config "workload group" "workload user" .crashes config.command true task

/-- The child of `exec_worker`. It refuses an assignment without a separator. -/
def execWorkload (command : List Text) (task : Task) : Except Failure (Task × Variables) := do
  check "enter root".toList s.enterRoot
  check "enter root".toList (s.chdir config.workdir)
  secureAndExec s config "group" "user" (.exits 125 (some "environment".toList) .einval) command
    false task

/-! ## Behind `execvp` -/

/-- What a workload asks the kernel for. -/
inductive Request where
  | call (call : Linux.Call)
  | unshare (flags : UInt64)
  | setns
  | clone (flags : UInt64)
  | clone3

/-- The system calls that do it, each of them for some arguments. -/
def callNames : Linux.Call → List String
  | .setresuid _ _ _ => ["setresuid", "setreuid", "setuid"]
  | .setresgid _ _ _ => ["setresgid", "setregid", "setgid"]
  | .setgroups _ => ["setgroups"]
  | .capset _ _ _ => ["capset"]
  | .exec _ => ["execve", "execveat"]
  | .capbsetDrop _ | .setKeepcaps _ | .setSecurebits _ | .ambientRaise _ | .ambientLower _
  | .ambientClear | .setNoNewPrivs => ["prctl"]

def Request.names : Request → List String
  | .call c => callNames c
  | .unshare _ => ["unshare"]
  | .setns => ["setns"]
  | .clone _ => ["clone"]
  | .clone3 => ["clone3"]

/-- The arguments, as far as a filter looks at them. -/
def Request.arguments : Request → Seccomp.Arguments
  | .clone flags => fun index => if index = 0 then flags else 0
  | _ => fun _ => 0

/-- Every filter lets the request through. A filter knows calls by their numbers. -/
def Task.passes (s : Surroundings) (task : Task) (request : Request) : Prop :=
  ∃ name ∈ request.names, ∀ filter ∈ task.filters,
    filter.allows (s.number name.toList) request.arguments

def cloneNewuser : UInt64 := 0x10000000

/-- What a request that got through makes of the process, or of the child that it makes. A new
    user namespace makes its process the master of it. -/
def Task.after (ns : Namespace) (task : Task) : Request → Task
  | .call c =>
    match task.cred.call ns c with
    | .ok cred => { task with cred }
    | .error _ => task
  | .unshare flags | .clone flags =>
    if flags &&& cloneNewuser = 0 then task
    else { task with cred := task.cred.enterNamespace ns }
  | .setns | .clone3 => { task with cred := task.cred.enterNamespace ns }

/-- One request. -/
def Task.step (s : Surroundings) (task task' : Task) : Prop :=
  ∃ request, task.passes s request ∧ task' = task.after s.ns request

end MiniContainer.Security
