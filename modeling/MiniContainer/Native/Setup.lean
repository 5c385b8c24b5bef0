import MiniContainer.Native.Nft
import MiniContainer.Native.Store

/-!
# Setting up a container

`mc_container_run` call by call, from its first check to the notification of the launcher,
with what each call creates and with the four ways in which the function cleans up. The
machine of `MiniContainer.Native.Shim` has most of these calls in larger steps; here they
are single steps, each of which can fail.

A call that fails has no effect. The calls that clean up are taken to succeed: the child
has been waited for, so that its cgroup is empty and its mounts are gone.
-/

namespace MiniContainer.Setup

open CString (Text)

/-! ## Resources -/

inductive Owner where
  | root
  | subordinate
  deriving DecidableEq, Repr

/-- What `mc_container_run` creates. -/
structure Resources where
  /-- The cgroup directories of the scope. -/
  supervisor : Bool
  payload : Bool
  upper : Bool
  work : Bool
  merged : Bool
  /-- The owner of the container's directory. -/
  owner : Owner
  /-- The pair of virtual interfaces. -/
  link : Bool
  chains : Chains
  runtime : Bool
  control : Bool

/-! ## Calls -/

/-- The resource limits, in the order in which they are programmed. -/
inductive Limit where
  | memory
  | swap
  | cpu
  | pids
  deriving DecidableEq, Repr

def limits : List Limit := [.memory, .swap, .cpu, .pids]

/-- The calls that can fail. -/
inductive Step where
  | root
  | groups
  | subids
  | scope
  | joinScope
  | supervisorDir
  | payloadDir
  | moveShim
  | delegate
  | writeLimit (limit : Limit)
  | verifyLimit (limit : Limit)
  | openPayload
  | upperDir
  | workDir
  | mergedDir
  | chmodContainers
  | chownBase
  | chownUpper
  | chownWork
  | chownMerged
  | barrierPipe
  | readyPipe
  | clone
  | denySetgroups
  | uidMap
  | gidMap
  | bridge
  | nftBase
  | bridgeIndex
  | bridgeUp
  | bridgeAddress
  | veth
  | hostIndex
  | peerIndex
  | attachHost
  | movePeer
  | forkHelper
  | helper
  | nftAdd
  | releaseChild
  | childReady
  | controlPath
  | runtimeDir
  | socket
  | bindControl
  | chmodControl
  | listen
  | runningState
  | notify
  deriving DecidableEq, Repr

/-- A call with its effect and with the error that is reported when it fails. -/
structure Call where
  step : Step
  error : McError
  effect : Resources → Resources := id

/-- Calls that are made one after the other until one of them fails. -/
def runCalls (fault : Step → Bool) : List Call → Resources → Except McError Unit × Resources
  | [], r => (.ok (), r)
  | c :: cs, r => if fault c.step then (.error c.error, r) else runCalls fault cs (c.effect r)

/-- One run of `mc_container_run` and what happens in it. -/
structure Launch where
  config : RunConfig
  id : ContainerId
  id_eq : config.id = id.text
  /-- `MC_SKIP_CGROUP` is set. -/
  skipCgroup : Bool
  /-- The path of the scope. -/
  scope : Text
  /-- The calls that fail. -/
  fault : Step → Bool
  view : NftView
  handles : Nat → Handle
  /-- What `waitpid` says about the child. -/
  status : Option Nat

section Calls

variable (run : Launch)

def checkCalls : List Call :=
  [{ step := .root
     error := errorSet .permission .eperm "run" run.config.id "container execution requires root" },
   { step := .groups
     error := errorSet .permission .system "run" run.config.id
       "cannot clear supplementary groups" }]

def subidCalls : List Call :=
  [{ step := .subids
     error := errorSet .prerequisite .system "subordinate-ids" "minicontainer".toList
       "a dedicated 65536-ID UID/GID range is required" }]

/-- The calls of `mc_cgroup_create` in front of the creation of the payload cgroup. -/
def scopeCalls : List Call :=
  let layoutError := errorSet .runtime .system "cgroup-create" run.config.id
    "cannot create delegated cgroup layout"
  [{ step := .scope
     error := errorSet .runtime .system "systemd-scope"
       ("minicontainer-".toList ++ run.config.id ++ ".scope".toList)
       "cannot create delegated scope" },
   { step := .joinScope, error := layoutError },
   { step := .supervisorDir, error := layoutError, effect := ({ · with supervisor := true }) }]

def payloadCall : Call where
  step := .payloadDir
  error := errorSet .runtime .system "cgroup-create" run.config.id
    "cannot create delegated cgroup layout"
  effect r := { r with payload := true }

/-- The calls of `mc_cgroup_create` behind it. -/
def limitCalls : List Call :=
  let delegateError := errorSet .runtime .system "cgroup-delegate" run.scope
    "cannot enable delegated controllers"
  let limitError := errorSet .runtime .system "cgroup-limit" (run.scope ++ "/payload".toList)
    "cannot program and verify resource limit"
  [{ step := .moveShim, error := delegateError }, { step := .delegate, error := delegateError }] ++
    (limits.flatMap fun limit =>
      [{ step := .writeLimit limit, error := limitError },
       { step := .verifyLimit limit, error := limitError }]) ++
    [{ step := .openPayload, error := limitError }]

/-- `mc_mkdir_p` of this path has failed. -/
def mkdirError (path : Text) : McError :=
  errorSet .runtime .system "mkdir" path "cannot create directory"

/-- The first directory of `prepare_paths`. -/
def upperCalls : List Call :=
  [{ step := .upperDir
     error := mkdirError (makePath run.config.id "upper".toList)
     effect := ({ · with upper := true }) }]

def workCall : Call where
  step := .workDir
  error := mkdirError (makePath run.config.id "work".toList)
  effect r := { r with work := true }

/-- The rest of `prepare_paths`, and the two pipes. -/
def pathCalls : List Call :=
  let chownError := errorSet .permission .system "prepare-runtime"
    (containersDir ++ '/' :: run.config.id) "cannot assign overlay directories to subordinate root"
  let pipeError := errorSet .runtime .system "run" run.config.id
    "cannot create synchronization barrier"
  [{ step := .mergedDir
     error := mkdirError (makePath run.config.id "merged".toList)
     effect := ({ · with merged := true }) },
   { step := .chmodContainers, error := chownError },
   { step := .chownBase, error := chownError, effect := ({ · with owner := .subordinate }) },
   { step := .chownUpper, error := chownError },
   { step := .chownWork, error := chownError },
   { step := .chownMerged, error := chownError },
   { step := .barrierPipe, error := pipeError },
   { step := .readyPipe, error := pipeError }]

def cloneCalls : List Call :=
  [{ step := .clone
     error := errorSet .runtime .system "clone3" run.config.id
       "cannot create container namespaces" }]

def setupError : McError :=
  errorSet .runtime .system "runtime-setup" run.config.id
    "cannot configure identity mapping or network barrier"

/-- `configure_id_maps`. -/
def mapCalls : List Call :=
  [{ step := .denySetgroups, error := setupError run },
   { step := .uidMap, error := setupError run },
   { step := .gidMap, error := setupError run }]

/-- The chains with the rules for the published ports. -/
def Launch.addRules (chains : Chains) : Chains :=
  nftAddContainer run.id run.config.ipv4Host run.config.publishes run.handles chains

/-- The calls of `mc_network_setup` in front of the rules for the published ports. -/
def linkCalls : List Call :=
  let linkError := errorSet .runtime .system "network-setup" run.config.id
    "rtnetlink bridge/veth configuration failed"
  [{ step := .bridge, error := linkError },
   { step := .nftBase
     error := errorSet .runtime .system "nftables" "inet minicontainer".toList
       "cannot install forwarding and masquerade policy" },
   { step := .bridgeIndex, error := linkError },
   { step := .bridgeUp, error := linkError },
   { step := .bridgeAddress, error := linkError },
   { step := .veth, error := linkError, effect := ({ · with link := true }) },
   { step := .hostIndex, error := linkError },
   { step := .peerIndex, error := linkError },
   { step := .attachHost, error := linkError },
   { step := .movePeer, error := linkError },
   { step := .forkHelper, error := linkError },
   { step := .helper, error := linkError }]

/-- `mc_nft_add_container`, which does nothing without published ports. -/
def nftCall : Call where
  step := .nftAdd
  error := errorSet .runtime .system "nftables-publish" run.config.id
    "cannot install published-port rules"
  effect r := { r with chains := run.addRules r.chains }

def releaseCalls : List Call := [{ step := .releaseChild, error := setupError run }]

/-- The directory of the control socket. -/
def runtimePath : Text := "/run/minicontainer/".toList ++ run.config.id

/-- The calls with which a ready container is recorded and announced. Their errors are not
    reported: the child is killed and waited for. -/
def readyCalls : List Call :=
  let controlError := errorSet .runtime .system "control-socket"
    (runtimePath run ++ "/control.sock".toList) "cannot create root-only shim control socket"
  [{ step := .childReady, error := setupError run },
   { step := .controlPath, error := controlError },
   { step := .runtimeDir
     error := mkdirError (runtimePath run)
     effect := ({ · with runtime := true }) },
   { step := .socket, error := controlError },
   { step := .bindControl, error := controlError, effect := ({ · with control := true }) },
   { step := .chmodControl, error := controlError },
   { step := .listen, error := controlError },
   { step := .runningState
     error := errorSet .runtime .system "atomic-write" (makePath run.config.id "state.json".toList)
       "atomic rename failed" }] ++
    if 0 ≤ run.config.readyFd then [{ step := .notify, error := setupError run }] else []

end Calls

/-! ## Cleaning up -/

/-- `cleanup_ephemeral`. -/
def cleanupEphemeral (r : Resources) : Resources := { r with work := false, merged := false }

/-- `chown(paths.base, 0, 0)`. -/
def restoreOwner (r : Resources) : Resources := { r with owner := .root }

/-- `mc_cgroup_destroy`. -/
def cgroupDestroy (active : Bool) (r : Resources) : Resources :=
  if active then { r with payload := false } else r

/-- `mc_nft_remove_container`. -/
def removeRules (run : Launch) (r : Resources) : Resources :=
  { r with chains := nftRemoveContainer run.view run.id.text r.chains }

def deleteLink (r : Resources) : Resources := { r with link := false }

/-- `mc_network_destroy`. -/
def networkDestroy (run : Launch) (active : Bool) (r : Resources) : Resources :=
  if active then removeRules run (deleteLink r) else r

/-! ## `mc_container_run` -/

section Run

variable (run : Launch)

/-- `mc_cgroup_create`. The answer is the member `active`. -/
def cgroupCreate (r : Resources) : Except McError Bool × Resources :=
  if run.skipCgroup then (.ok false, r)
  else
    match runCalls run.fault (scopeCalls run ++ payloadCall run :: limitCalls run) r with
    | (.error e, r) => (.error e, r)
    | (.ok (), r) => (.ok true, r)

/-- `mc_network_setup`. -/
def networkSetup (r : Resources) : Except McError Unit × Resources :=
  match runCalls run.fault (linkCalls run ++
      if run.config.publishes = [] then [] else [nftCall run]) r with
  | (.error e, r) => (.error e, deleteLink (removeRules run r))
  | (.ok (), r) => (.ok (), r)

/-- The part of `mc_container_run` behind the release of the child: a container that is not
    recorded or announced is killed, and every container is waited for. -/
def supervise (active network : Bool) (r : Resources) : Except McError Nat × Resources :=
  let r := (runCalls run.fault (readyCalls run) r).2
  let r := { r with control := false, runtime := false }
  let r := networkDestroy run network (cgroupDestroy active r)
  let r := restoreOwner (cleanupEphemeral r)
  match run.status with
  | some code => (.ok code, r)
  | none => (.error (errorSet .runtime .system "wait-container" run.config.id
      "cannot wait for container init"), r)

/-- The end of a run whose child cannot be set up. -/
def abandon (active network : Bool) (e : McError) (r : Resources) :
    Except McError Nat × Resources :=
  (.error e, cgroupDestroy active (restoreOwner (networkDestroy run network (cleanupEphemeral r))))

/-- The release of the child, which waits for its identity maps and its network. -/
def releaseChild (active : Bool) (r : Resources) : Except McError Nat × Resources :=
  match runCalls run.fault (releaseCalls run) r with
  | (.error e, r) => abandon run active run.config.networkBridge e r
  | (.ok (), r) => supervise run active run.config.networkBridge r

/-- The network of the child. -/
def connectChild (active : Bool) (r : Resources) : Except McError Nat × Resources :=
  if run.config.networkBridge then
    match networkSetup run r with
    | (.error e, r) => abandon run active false e r
    | (.ok (), r) => releaseChild run active r
  else releaseChild run active r

/-- The part of `mc_container_run` behind `clone3`. -/
def runChild (active : Bool) (r : Resources) : Except McError Nat × Resources :=
  match runCalls run.fault (mapCalls run) r with
  | (.error e, r) => abandon run active false e r
  | (.ok (), r) => connectChild run active r

/-- `clone3`. -/
def cloneChild (active : Bool) (r : Resources) : Except McError Nat × Resources :=
  match runCalls run.fault (cloneCalls run) r with
  | (.error e, r) => (.error e, cgroupDestroy active (restoreOwner (cleanupEphemeral r)))
  | (.ok (), r) => runChild run active r

/-- The part of `mc_container_run` behind the creation of the cgroup. -/
def runInCgroup (active : Bool) (r : Resources) : Except McError Nat × Resources :=
  match runCalls run.fault (upperCalls run ++ workCall run :: pathCalls run) r with
  | (.error e, r) => (.error e, cgroupDestroy active r)
  | (.ok (), r) => cloneChild run active r

/-- `mc_container_run`. A comma in the path of the root file system ends it without an error of
    its own. -/
def containerRun (r : Resources) : Except McError Nat × Resources :=
  match runCalls run.fault (checkCalls run) r with
  | (.error e, r) => (.error e, r)
  | (.ok (), r) =>
    if ',' ∈ run.config.rootfs then (.error (errorSet .runtime .zero "" [] ""), r)
    else
      match runCalls run.fault subidCalls r with
      | (.error e, r) => (.error e, r)
      | (.ok (), r) =>
        match cgroupCreate run r with
        | (.error e, r) => (.error e, r)
        | (.ok active, r) => runInCgroup run active r

end Run

end MiniContainer.Setup
