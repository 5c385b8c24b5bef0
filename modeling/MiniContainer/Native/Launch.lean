import MiniContainer.Native.Parse

/-!
# Launching the shim

A configuration travels from the command line to the shim as an argument vector:
`mc_launch_shim` prints it into `argv` and the shim's `main` parses it again. The
values are printed into buffers of fixed size, and what does not fit is cut off
without an error.
-/

namespace MiniContainer

open CString (Text strchr strtou decimal snprintf)

/-! ## The argument vector -/

/-- The argument pair of one mount. -/
def mountArguments (m : Mount) : List (Option Text) :=
  if m.type = .bind then
    [some "--bind".toList,
      some (snprintf 8192 (m.source.getD "(null)".toList ++ ':' :: m.target ++ ':' ::
        (if m.readonly then "ro".toList else "rw".toList)))]
  else
    [some "--tmpfs".toList, some (snprintf 8192 (m.target ++ ':' :: decimal m.size.toNat))]

/-- The argument pair of one published port. -/
def publishArguments (p : Publish) : List (Option Text) :=
  [some "--publish".toList,
    some (snprintf 64 (decimal p.hostIpv4.toNat ++ ',' :: decimal p.hostPort.toNat ++ ',' ::
      decimal p.containerPort.toNat ++ ',' :: decimal p.protocol.toNat))]

/-- Bit `number` of the capability mask. -/
def hasCapability (mask : UInt64) (number : Nat) : Bool := mask.toNat.testBit number

/-- A set bit of the mask without a name puts a null pointer into the vector. -/
def capabilityArguments (mask : UInt64) (number : Nat) : List (Option Text) :=
  if hasCapability mask number then [some "--cap-add".toList, capabilityName number] else []

/-- Identity of the container and its process. -/
def identityArguments (config : RunConfig) : List (Option Text) :=
  [some "--id".toList, some config.id,
    some "--rootfs".toList, some config.rootfs,
    some "--hostname".toList, some config.hostname,
    some "--workdir".toList, some config.workdir,
    some "--user".toList,
    some (snprintf 32 (decimal config.user.toNat ++ ':' :: decimal config.group.toNat))]

/-- Limits and network. -/
def limitArguments (config : RunConfig) : List (Option Text) :=
  [some "--memory".toList, some (snprintf 32 (decimal config.memoryMax.toNat)),
    some "--memory-swap".toList, some (snprintf 32 (decimal config.swapMax.toNat)),
    some "--cpu-quota".toList, some (snprintf 32 (decimal config.cpuQuota.toNat)),
    some "--pids-limit".toList, some (snprintf 32 (decimal config.pidsMax.toNat)),
    some "--network".toList,
    some (if config.networkBridge then "bridge".toList else "none".toList),
    some "--ipv4-host".toList, some (snprintf 32 (decimal config.ipv4Host.toNat))]

/-- The readiness pipe of a detached container. -/
def detachArguments (config : RunConfig) (fd : Nat) : List (Option Text) :=
  if config.detach then
    [some "--detach".toList, some "--ready-fd".toList, some (snprintf 32 (decimal fd))]
  else []

/-- The array `arguments` of `mc_launch_shim`, behind the path of the shim. `fd` is the
    write end of the readiness pipe. -/
def argumentVector (config : RunConfig) (fd : Nat) : List (Option Text) :=
  identityArguments config ++
  config.environment.flatMap (fun assignment => [some "--env".toList, some assignment]) ++
  limitArguments config ++
  config.publishes.flatMap publishArguments ++
  (List.range 64).flatMap (capabilityArguments config.capabilityMask) ++
  (if config.readonlyRoot then [some "--read-only".toList] else []) ++
  config.mounts.flatMap mountArguments ++
  config.seccompDenies.flatMap (fun name => [some "--seccomp-deny".toList, some name]) ++
  detachArguments config fd ++
  some "--".toList :: config.command.map some

/-- The strings of an argument vector, which ends at the first null pointer. -/
def untilNull : List (Option Text) → List Text
  | some arg :: rest => arg :: untilNull rest
  | _ => []

/-- The arguments that the shim's `main` receives behind `argv[0]`. -/
def shimArguments (config : RunConfig) (fd : Nat) : List Text :=
  untilNull (argumentVector config fd)

/-! ## Filling the array -/

/-- The number of slots that `mc_launch_shim` allocates. -/
def argumentSlots (config : RunConfig) : Nat :=
  config.command.length + 111 + config.environment.length * 2 + config.publishes.length * 2 +
    config.mounts.length * 2 + config.seccompDenies.length * 2

/-- The array while it is filled: what was stored at which index, in order, and `position`. -/
structure Filling where
  position : Nat := 0
  stores : List (Nat × Option Text) := []

namespace Filling

/-- `arguments[index] = value`. -/
def store (f : Filling) (index : Nat) (value : Option Text) : Filling :=
  { f with stores := f.stores ++ [(index, value)] }

/-- `arguments[position++] = value`. -/
def push (f : Filling) (value : Option Text) : Filling :=
  { f.store f.position value with position := f.position + 1 }

def pushAll (f : Filling) (values : List (Option Text)) : Filling := values.foldl push f

/-- The array of this many slots, which are null pointers at first. -/
def array (f : Filling) (slots : Nat) : List (Option Text) :=
  f.stores.foldl (fun array s => array.set s.1 s.2) (List.replicate slots none)

end Filling

/-- What `mc_launch_shim` stores in `arguments`, statement by statement. -/
def fillArguments (path : Text) (config : RunConfig) (fd : Nat) : Filling :=
  -- arguments[0] to arguments[10]
  let f := (some path :: identityArguments config).zipIdx.foldl (fun f v => f.store v.2 v.1)
    ({} : Filling)
  let f := config.environment.zipIdx.foldl (fun f assignment =>
    (f.store (11 + assignment.2 * 2) (some "--env".toList)).store (12 + assignment.2 * 2)
      (some assignment.1)) f
  let f := { f with position := 11 + config.environment.length * 2 }
  let f := f.pushAll (limitArguments config)
  let f := config.publishes.foldl (fun f p => f.pushAll (publishArguments p)) f
  let f := (List.range 64).foldl
    (fun f number => f.pushAll (capabilityArguments config.capabilityMask number)) f
  let f := if config.readonlyRoot then f.push (some "--read-only".toList) else f
  let f := config.mounts.foldl (fun f m => f.pushAll (mountArguments m)) f
  let f := config.seccompDenies.foldl
    (fun f name => (f.push (some "--seccomp-deny".toList)).push (some name)) f
  let f := f.pushAll (detachArguments config fd)
  let f := f.push (some "--".toList)
  config.command.zipIdx.foldl (fun f word => f.store (f.position + word.2) (some word.1)) f

/-! ## The shim's `main` -/

/-- The flags of the shim that take a value. -/
inductive ShimFlag where
  | id
  | rootfs
  | hostname
  | workdir
  | user
  | env
  | readyFd
  | memory
  | memorySwap
  | cpuQuota
  | pidsLimit
  | network
  | ipv4Host
  | publish
  | capAdd
  | bind
  | tmpfs
  | seccompDeny
  deriving DecidableEq, Repr

/-- The flag that an argument spells. -/
def ShimFlag.ofText (arg : Text) : Option ShimFlag :=
  if arg = "--id".toList then some .id
  else if arg = "--rootfs".toList then some .rootfs
  else if arg = "--hostname".toList then some .hostname
  else if arg = "--workdir".toList then some .workdir
  else if arg = "--user".toList then some .user
  else if arg = "--env".toList then some .env
  else if arg = "--ready-fd".toList then some .readyFd
  else if arg = "--memory".toList then some .memory
  else if arg = "--memory-swap".toList then some .memorySwap
  else if arg = "--cpu-quota".toList then some .cpuQuota
  else if arg = "--pids-limit".toList then some .pidsLimit
  else if arg = "--network".toList then some .network
  else if arg = "--ipv4-host".toList then some .ipv4Host
  else if arg = "--publish".toList then some .publish
  else if arg = "--cap-add".toList then some .capAdd
  else if arg = "--bind".toList then some .bind
  else if arg = "--tmpfs".toList then some .tmpfs
  else if arg = "--seccomp-deny".toList then some .seccompDeny
  else none

/-- The `mc_run_config` while the shim fills it in: the strings that must be given are
    still optional. -/
structure ShimConfig where
  id : Option Text := none
  rootfs : Option Text := none
  hostname : Option Text := none
  workdir : Option Text := none
  user : UInt32 := 0
  group : UInt32 := 0
  environment : List Text := []
  detach : Bool := false
  readyFd : Int := -1
  memoryMax : UInt64 := 0
  swapMax : UInt64 := 0
  cpuQuota : UInt64 := 0
  pidsMax : UInt64 := 0
  capabilityMask : UInt64 := 0
  readonlyRoot : Bool := false
  mounts : List Mount := []
  seccompDenies : List Text := []
  networkBridge : Bool := false
  ipv4Host : UInt32 := 0
  publishes : List Publish := []
  deriving DecidableEq, Repr

/-- The protocols that the shim accepts. -/
def scannedProtocol (protocol : UInt32) : Option UInt8 :=
  if protocol = 6 ∨ protocol = 17 then some protocol.toUInt8 else none

/-- The value of `--publish`: `%u,%u,%u,%u` and nothing behind it. -/
def scanShimPublish (value : Text) : Option Publish := do
  let (hostIpv4, s) ← scanU value
  let (hostPort, s) ← scanU (← scanLiteral ',' s)
  let (containerPort, s) ← scanU (← scanLiteral ',' s)
  let (protocol, s) ← scanU (← scanLiteral ',' s)
  let hostPort ← scannedPort hostPort
  let containerPort ← scannedPort containerPort
  let protocol ← scannedProtocol protocol
  if s = [] then some ⟨hostIpv4, hostPort, containerPort, protocol⟩ else none

/-- The value of `--ready-fd`. -/
def scanReadyFd (value : Text) : Option Int :=
  match CString.strtol value with
  | none => none
  | some (descriptor, erange, rest) =>
    if erange ∨ rest ≠ [] ∨ descriptor < 0 ∨ 1048576 < descriptor then none else some descriptor

/-- A value that `strtoull` or `strtoul` reads to its end, up to `maximum`. -/
def scanUnsigned (value : Text) (maximum : Nat) : Option Nat :=
  match strtou 64 value with
  | none => none
  | some c => if c.erange ∨ c.rest ≠ [] ∨ maximum < c.value then none else some c.value

/-- One flag with its value; `none` where the loop breaks off. -/
def ShimConfig.apply (host : Host) (s : ShimConfig) (flag : ShimFlag) (value : Text) :
    Option ShimConfig :=
  match flag with
  | .id => some { s with id := some value }
  | .rootfs => some { s with rootfs := some value }
  | .hostname => some { s with hostname := some value }
  | .workdir => some { s with workdir := some value }
  | .user => (parseUser value).map fun (user, group) => { s with user, group }
  | .env =>
    if validEnvironment value then some { s with environment := s.environment ++ [value] }
    else none
  | .readyFd => (scanReadyFd value).map fun readyFd => { s with readyFd }
  | .memory =>
    (parsePositiveU64 value 0xffffffffffffffff).map fun memoryMax => { s with memoryMax }
  | .memorySwap =>
    (scanUnsigned value 0xffffffffffffffff).map fun n => { s with swapMax := UInt64.ofNat n }
  | .cpuQuota => (parsePositiveU64 value 102400000).map fun cpuQuota => { s with cpuQuota }
  | .pidsLimit => (parsePositiveU64 value 4194304).map fun pidsMax => { s with pidsMax }
  | .network =>
    if value = "bridge".toList then some { s with networkBridge := true }
    else if value = "none".toList then some { s with networkBridge := false }
    else none
  | .ipv4Host =>
    (scanUnsigned value 0xffffffff).map fun n => { s with ipv4Host := UInt32.ofNat n }
  | .publish => (scanShimPublish value).map fun p => { s with publishes := s.publishes ++ [p] }
  | .capAdd =>
    match capabilityParse value with
    | none => none
    | some capability =>
      if 64 ≤ capability then none
      else some { s with capabilityMask := addCapability s.capabilityMask capability }
  | .bind =>
    match parseBindMount host value with
    | .ok m => some { s with mounts := s.mounts ++ [m] }
    | .error _ => none
  | .tmpfs =>
    match parseTmpfsMount value with
    | .ok m => some { s with mounts := s.mounts ++ [m] }
    | .error _ => none
  | .seccompDeny =>
    if seccompNameValid host value then some { s with seccompDenies := s.seccompDenies ++ [value] }
    else none

/-- The argument loop. A loop that breaks off, or ends before `--`, leaves the command
    unset, so that the shim rejects its arguments. -/
def parseShimArgs (host : Host) (s : ShimConfig) : List Text → Option (ShimConfig × List Text)
  | [] => none
  | [arg] => if arg = "--".toList then some (s, []) else none
  | arg :: value :: rest =>
    if arg = "--".toList then some (s, value :: rest)
    else if arg = "--detach".toList then
      parseShimArgs host { s with detach := true } (value :: rest)
    else if arg = "--read-only".toList then
      parseShimArgs host { s with readonlyRoot := true } (value :: rest)
    else
      match ShimFlag.ofText arg with
      | none => none
      | some flag =>
        match s.apply host flag value with
        | none => none
        | some s' => parseShimArgs host s' rest

/-- The checks of the shim's `main` behind the loop. -/
def ShimConfig.complete (s : ShimConfig) (command : List Text) : Option RunConfig :=
  match s.id, s.rootfs, s.hostname, s.workdir with
  | some id, some rootfs, some hostname, some workdir =>
    if workdir.head? ≠ some '/' ∨ command = [] ∨ (s.detach ∧ s.readyFd < 0) ∨
        s.memoryMax = 0 ∨ s.cpuQuota = 0 ∨ s.pidsMax = 0 then none
    else some {
      id, rootfs, hostname, workdir, command
      name := none
      user := s.user
      group := s.group
      environment := s.environment
      detach := s.detach
      readyFd := s.readyFd
      memoryMax := s.memoryMax
      swapMax := s.swapMax
      cpuQuota := s.cpuQuota
      pidsMax := s.pidsMax
      capabilityMask := s.capabilityMask
      readonlyRoot := s.readonlyRoot
      mounts := s.mounts
      seccompDenies := s.seccompDenies
      networkBridge := s.networkBridge
      ipv4Host := s.ipv4Host
      publishes := s.publishes }
  | _, _, _, _ => none

/-- The shim's `main` up to the point where it runs the container: the configuration, or
    `none` where it prints its usage and exits with `MC_EXIT_USAGE`. -/
def shimConfig (host : Host) (args : List Text) : Option RunConfig :=
  match parseShimArgs host {} args with
  | none => none
  | some (s, command) => s.complete command

end MiniContainer
