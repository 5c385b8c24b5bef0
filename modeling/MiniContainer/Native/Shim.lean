import MiniContainer.Native.Launch
import MiniContainer.Native.Store

/-!
# The shim

`mc_container_run` and the rest of the shim's `main`. The child that becomes the
container's init is part of the machine: it reports readiness or not, and it exits
at some time with some status.
-/

namespace MiniContainer

open CString (Text)

/-- `write_state`. -/
def writeState (config : RunConfig) (writer : Writer) (status : Status) (cgroup : Text)
    (init code : Nat) : Attempt Unit := do
  let pid ← perform .self
  let start ← perform (.startTime .writeState config.id pid)
  let initStart ← perform (.startTime .writeState config.id init)
  writeAtomic config.id (.state writer {
    status
    shimPid := some pid
    shimStart := some start
    initPid := some init
    initStart := some initStart
    exitCode := code
    cgroupPath := some cgroup })

/-! ## Setting up and cleaning up -/

/-- `cleanup_ephemeral`. -/
def cleanupEphemeral (c : Name) : Action Unit := do
  perform (.remove .shim c .work)
  perform (.remove .shim c .merged)

/-- `mc_network_destroy`. -/
def networkDestroy (active : Bool) (c : Name) : Action Unit :=
  if active then do
    perform (.remove .shim c .link)
    perform (.remove .shim c .rules)
  else return ()

/-- `mc_cgroup_destroy`. A cgroup that was skipped has no path. -/
def cgroupDestroy (path : Text) : Action Unit :=
  if path = [] then return () else perform (.destroyCgroup path)

/-- `prepare_paths` and the two pipes. -/
def preparePaths (c : Name) : Attempt Unit := do
  let mkdirError := errorSet .runtime .system "mkdir" (makePath c []) "cannot create directory"
  Attempt.check (perform (.makeDir c .upper)) mkdirError
  Attempt.check (perform (.makeDir c .work)) mkdirError
  Attempt.check (perform (.makeDir c .merged)) mkdirError
  Attempt.check (perform (.chown c)) (errorSet .permission .system "prepare-runtime"
    (containersDir ++ '/' :: c) "cannot assign overlay directories to subordinate root")
  match ← perform .pipe with
  | some _ => return ()
  | none => Attempt.fail (errorSet .runtime .system "run" c "cannot create synchronization barrier")

/-- What `mc_network_setup` undoes before it fails. -/
def networkFailure (c : Name) (e : McError) : Attempt Unit := do
  perform (.remove .shim c .rules)
  perform (.remove .shim c .link)
  Attempt.fail e

/-- `mc_network_setup`. -/
def networkSetup (config : RunConfig) : Attempt Unit := do
  if ← perform (.createVeth config.id) then
    if config.publishes = [] then return ()
    else if ← perform (.addRules config.id) then return ()
    else networkFailure config.id (errorSet .runtime .system "nftables-publish" config.id
      "cannot install published-port rules")
  else networkFailure config.id (errorSet .runtime .system "network-setup" config.id
    "rtnetlink bridge/veth configuration failed")

/-- `configure_id_maps` and the network. -/
def setupChild (config : RunConfig) : Attempt Unit := do
  Attempt.check (perform .mapIds) (errorSet .runtime .system "runtime-setup" config.id
    "cannot configure identity mapping or network barrier")
  if config.networkBridge then networkSetup config else return ()

/-- The end of a shim whose child cannot be set up. -/
def abandon (config : RunConfig) (cgroup : Text) (active : Bool) (e : McError) :
    Action (Except McError Nat) := do
  perform .closeReady
  cleanupEphemeral config.id
  networkDestroy active config.id
  let _ ← perform (.chown config.id)
  cgroupDestroy cgroup
  return .error e

/-! ## Running -/

/-- The child has reported whether it is ready: if so, the control socket is opened and the
    `running` record is written. The answer is whether the container may go on. -/
def recordRunning (config : RunConfig) (cgroup : Text) (init : Nat) : Action Bool := do
  if ← perform .childReady then
    if ← perform (.openControl config.id) then
      match ← writeState config .running .running cgroup init 0 with
      | .ok () => return true
      | .error _ => return false
    else return false
  else return false

/-- The launcher is told. -/
def announce (config : RunConfig) (ready : Bool) : Action Bool :=
  if config.detach then
    if ready then do
      let told ← perform .notify
      perform .closeReady
      return told
    else do
      perform .closeReady
      return false
  else return ready

/-- The part of `mc_container_run` behind the exit of the container. -/
def finish (config : RunConfig) (cgroup : Text) (init : Nat) (ready : Bool)
    (status : Option Nat) : Action (Except McError Nat) := do
  perform (.remove .shim config.id .control)
  perform (.remove .shim config.id .runtime)
  cgroupDestroy cgroup
  networkDestroy config.networkBridge config.id
  cleanupEphemeral config.id
  let _ ← perform (.chown config.id)
  let code := status.getD ExitCode.runtime.toNat
  let _ ← writeState config .final (if ready then .stopped else .failed) cgroup init code
  match status with
  | some code => return .ok code
  | none => return .error (errorSet .runtime .system "wait-container" config.id
      "cannot wait for container init")

/-- The part of `mc_container_run` behind the barrier. -/
def supervise (config : RunConfig) (cgroup : Text) (init : Nat) : Action (Except McError Nat) := do
  let ready ← recordRunning config cgroup init
  let ready ← announce config ready
  let status ← perform .waitChild
  finish config cgroup init ready status

/-- The part of `mc_container_run` behind the creation of the cgroup. -/
def runInCgroup (config : RunConfig) (cgroup : Text) : Action (Except McError Nat) := do
  match ← preparePaths config.id with
  | .error e =>
    cgroupDestroy cgroup
    return .error e
  | .ok () =>
    match ← perform .cloneInit with
    | none =>
      cleanupEphemeral config.id
      let _ ← perform (.chown config.id)
      cgroupDestroy cgroup
      return .error (errorSet .runtime .system "clone3" config.id
        "cannot create container namespaces")
    | some init =>
      match ← setupChild config with
      | .error e => abandon config cgroup false e
      | .ok () =>
        if ← perform .releaseChild then supervise config cgroup init
        else abandon config cgroup config.networkBridge (errorSet .runtime .system "runtime-setup"
          config.id "cannot configure identity mapping or network barrier")

/-- The checks of `mc_container_run` in front of its first effect. A comma in the path of
    the root file system ends the shim without an error of its own. -/
def runChecks (config : RunConfig) : Attempt Unit := do
  Attempt.check (perform .checkHost) (errorSet .permission .eperm "run" config.id
    "container execution requires root")
  Attempt.check (perform .checkHost) (errorSet .permission .system "run" config.id
    "cannot clear supplementary groups")
  if ',' ∈ config.rootfs then Attempt.fail (errorSet .runtime .zero "" [] "")
  else
    Attempt.check (perform .checkHost) (errorSet .prerequisite .system "subordinate-ids"
      "minicontainer".toList "a dedicated 65536-ID UID/GID range is required")

/-- `mc_container_run`. -/
def containerRun (config : RunConfig) : Action (Except McError Nat) := do
  match ← runChecks config with
  | .error e => return .error e
  | .ok () =>
    match ← perform (.createCgroup config.id) with
    | none => return .error (errorSet .runtime .system "systemd-scope"
        ("minicontainer-".toList ++ config.id ++ ".scope".toList) "cannot create delegated scope")
    | some cgroup => runInCgroup config cgroup

/-- The shim's `main` behind its arguments, with the log pump of a detached container. -/
def shimRun (config : RunConfig) : Action (Except McError Nat) := do
  if config.detach then
    match ← perform .pipe with
    | none => return .error (errorSet .runtime .system "log-pump" config.id
        "cannot start rotating log pump")
    | some _ => containerRun config
  else containerRun config

end MiniContainer
