import MiniContainer.Native.Parse

/-!
# The command line of `run` and `create`

The argument loop of `main` for `run` and `create`, up to the point where the
registry is locked: from the arguments behind the subcommand to the request that
the rest of the command works on, and from there to the `mc_run_config`.
-/

namespace MiniContainer

open CString (Text)

/-- Why `main` gives up on the arguments: it prints the usage, or an error. -/
inductive ArgError where
  | usage
  | reported (error : McError)
  deriving DecidableEq, Repr

/-- The flags of `run` and `create` that take a value. -/
inductive RunFlag where
  | name
  | image
  | hostname
  | workdir
  | user
  | env
  | memory
  | memorySwap
  | cpus
  | pidsLimit
  | network
  | publish
  | capAdd
  | bind
  | tmpfs
  | seccompProfile
  deriving DecidableEq, Repr

/-- The flag that an argument spells. -/
def RunFlag.ofText (arg : Text) : Option RunFlag :=
  if arg = "--name".toList then some .name
  else if arg = "--image".toList then some .image
  else if arg = "--hostname".toList then some .hostname
  else if arg = "--workdir".toList then some .workdir
  else if arg = "--user".toList then some .user
  else if arg = "--env".toList then some .env
  else if arg = "--memory".toList ∨ arg = "--mem".toList then some .memory
  else if arg = "--memory-swap".toList ∨ arg = "--swap".toList then some .memorySwap
  else if arg = "--cpus".toList ∨ arg = "--cpu".toList then some .cpus
  else if arg = "--pids-limit".toList then some .pidsLimit
  else if arg = "--network".toList then some .network
  else if arg = "--publish".toList then some .publish
  else if arg = "--cap-add".toList then some .capAdd
  else if arg = "--bind".toList then some .bind
  else if arg = "--tmpfs".toList then some .tmpfs
  else if arg = "--seccomp-profile".toList then some .seccompProfile
  else none

/-- The variables of the argument loop, with their initial values. -/
structure RunOptions where
  image : Option Text := none
  name : Option Text := none
  hostname : Option Text := none
  workdir : Text := "/".toList
  environment : List Text := []
  publishes : List Publish := []
  mounts : List Mount := []
  /-- `NULL` until a profile was loaded. -/
  seccompDenies : Option (List Text) := none
  user : UInt32 := 0
  group : UInt32 := 0
  detach : Bool := false
  memoryMax : UInt64 := 134217728
  swapMax : UInt64 := 0
  cpuQuota : UInt64 := 50000
  pidsMax : UInt64 := 128
  capabilityMask : UInt64 := 0
  readonlyRoot : Bool := false
  networkBridge : Bool := true
  deriving DecidableEq, Repr

/-- A value that the loop stores when it parses and answers with the usage otherwise. -/
def orUsage {α : Type} (parsed : Option α) (store : α → RunOptions) :
    Except ArgError RunOptions :=
  match parsed with
  | some a => .ok (store a)
  | none => .error .usage

/-- A value whose parser reports its own error. -/
def orReport {α : Type} (parsed : Except McError α) (store : α → RunOptions) :
    Except ArgError RunOptions :=
  match parsed with
  | .ok a => .ok (store a)
  | .error e => .error (.reported e)

/-- One flag with its value. -/
def RunOptions.apply (host : Host) (o : RunOptions) (flag : RunFlag) (value : Text) :
    Except ArgError RunOptions :=
  match flag with
  | .name => if validName value then .ok { o with name := some value } else .error .usage
  | .image => .ok { o with image := some value }
  | .hostname => .ok { o with hostname := some value }
  | .workdir =>
    if value.head? = some '/' then .ok { o with workdir := value } else .error .usage
  | .user => orUsage (parseUser value) fun (user, group) => { o with user, group }
  | .env =>
    if validEnvironment value then .ok { o with environment := o.environment ++ [value] }
    else .error .usage
  | .memory => orUsage (parseBytes value) fun memoryMax => { o with memoryMax }
  | .memorySwap =>
    if value = "0".toList then .ok { o with swapMax := 0 }
    else orUsage (parseBytes value) fun swapMax => { o with swapMax }
  | .cpus => orUsage (parseCpuQuota value) fun cpuQuota => { o with cpuQuota }
  | .pidsLimit => orUsage (parsePositiveU64 value 4194304) fun pidsMax => { o with pidsMax }
  | .network =>
    if value = "bridge".toList then .ok { o with networkBridge := true }
    else if value = "none".toList then .ok { o with networkBridge := false }
    else .error .usage
  | .publish =>
    match parsePublish value with
    | none => .error .usage
    | some parsed =>
      if o.publishes.any (·.overlaps parsed) then .error .usage
      else .ok { o with publishes := o.publishes ++ [parsed] }
  | .capAdd =>
    match capabilityParse value with
    | none => .error .usage
    | some capability =>
      if 64 ≤ capability then .error .usage
      else .ok { o with capabilityMask := addCapability o.capabilityMask capability }
  | .bind => orReport (parseBindMount host value) fun m => { o with mounts := o.mounts ++ [m] }
  | .tmpfs => orReport (parseTmpfsMount value) fun m => { o with mounts := o.mounts ++ [m] }
  | .seccompProfile =>
    -- the branch is only taken while no profile was loaded
    if o.seccompDenies.isSome then .error .usage
    else orReport (seccompProfileLoad host value) fun d => { o with seccompDenies := some d }

/-- The argument loop. The second component is the command behind `--`, if the loop
    met one. -/
def parseRunArgs (host : Host) (o : RunOptions) :
    List Text → Except ArgError (RunOptions × Option (List Text))
  | [] => .ok (o, none)
  | [arg] =>
    if arg = "--".toList then .ok (o, some [])
    else if arg = "--detach".toList then .ok ({ o with detach := true }, none)
    else if arg = "--read-only".toList then .ok ({ o with readonlyRoot := true }, none)
    else .error .usage
  | arg :: value :: rest =>
    if arg = "--".toList then .ok (o, some (value :: rest))
    else if arg = "--detach".toList then
      parseRunArgs host { o with detach := true } (value :: rest)
    else if arg = "--read-only".toList then
      parseRunArgs host { o with readonlyRoot := true } (value :: rest)
    else
      match RunFlag.ofText arg with
      | none => .error .usage
      | some flag =>
        match o.apply host flag value with
        | .error e => .error e
        | .ok o' => parseRunArgs host o' rest

/-- `mc_image_resolve`. -/
def imageResolve (host : Host) (name : Text) : Except McError Text :=
  if validName name then host.imageStore name
  else .error (errorSet .usage .zero "image-resolve" name "invalid image name")

/-- What `run` and `create` know about the container before it has an ID. -/
structure RunRequest where
  options : RunOptions
  image : Text
  rootfs : Text
  command : List Text
  deriving DecidableEq, Repr

/-- From the arguments behind the subcommand to the request. -/
def runRequest (host : Host) (args : List Text) : Except ArgError RunRequest :=
  match parseRunArgs host {} args with
  | .error e => .error e
  | .ok (options, command) =>
    match options.image, command with
    | some image, some (program :: arguments) =>
      match imageResolve host image with
      | .error e => .error (.reported e)
      | .ok rootfs => .ok { options, image, rootfs, command := program :: arguments }
    | _, _ => .error .usage

/-- The `mc_run_config` that `run` and `create` fill in once the ID is known. -/
def RunRequest.config (r : RunRequest) (id : Text) : RunConfig where
  id := id
  name := r.options.name
  rootfs := r.rootfs
  hostname := r.options.hostname.getD (CString.snprintf 16 ("mc-".toList ++ id.take 12))
  workdir := r.options.workdir
  user := r.options.user
  group := r.options.group
  environment := r.options.environment
  detach := r.options.detach
  readyFd := -1
  memoryMax := r.options.memoryMax
  swapMax := r.options.swapMax
  cpuQuota := r.options.cpuQuota
  pidsMax := r.options.pidsMax
  capabilityMask := r.options.capabilityMask
  readonlyRoot := r.options.readonlyRoot
  mounts := r.options.mounts
  seccompDenies := r.options.seccompDenies.getD []
  networkBridge := r.options.networkBridge
  ipv4Host := 0
  publishes := r.options.publishes
  command := r.command

/-- Ports are published without the bridge that would carry them. -/
def RunRequest.publishesWithoutBridge (r : RunRequest) : Bool :=
  !r.options.networkBridge && !r.options.publishes.isEmpty

end MiniContainer
