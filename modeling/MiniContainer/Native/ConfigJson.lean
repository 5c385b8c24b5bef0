import MiniContainer.Native.Types

/-!
# Stored configurations

The document that `mc_state_save_config` writes to `config.json` and the decoder
behind `mc_state_load_config`. Both are hand-written member by member in
`store.c` and are kept that way here.
-/

namespace MiniContainer

open CString (Text)
open JsonC (Value toU8 toU16 toU32)

/-- What the build and the clock contribute to a document: `MC_VERSION`,
    `MC_GIT_COMMIT` and the time in nanoseconds. -/
structure Stamp where
  version : Text
  gitCommit : Text
  now : UInt64

/-! ## Encoding -/

/-- The digest in the path of an image: the 64 characters behind `/sha256/`. -/
def imageDigest (rootfs : Text) : Option Text :=
  match CString.strstr "/sha256/".toList rootfs with
  | none => none
  | some found =>
    let digest := found.drop 8
    if 64 ≤ digest.length then some (digest.take 64) else none

def Publish.toJson (p : Publish) : Value :=
  .obj [("host_ipv4", .int p.hostIpv4.toNat), ("host_port", .int p.hostPort.toNat),
    ("container_port", .int p.containerPort.toNat), ("protocol", .int p.protocol.toNat)]

def Mount.toJson (m : Mount) : Value :=
  .obj ([("type", .int m.type.toInt)] ++ Value.optional "source" (m.source.map .str) ++
    [("target", .str m.target), ("size", .int m.size.toNat), ("readonly", .bool m.readonly)])

/-- The members that `config_json` adds to every document behind the image. -/
def configMembers (stamp : Stamp) (config : RunConfig) : List (String × Value) :=
  [("rootfs", .str config.rootfs),
    ("hostname", .str config.hostname),
    ("workdir", .str config.workdir),
    ("user", .int config.user.toNat),
    ("group", .int config.group.toNat),
    ("capability_mask", .int config.capabilityMask.toNat),
    ("readonly_root", .bool config.readonlyRoot),
    ("network_mode", .str (if config.networkBridge then "bridge".toList else "none".toList)),
    ("ipv4_host", .int config.ipv4Host.toNat),
    ("publishes", .arr (config.publishes.map Publish.toJson)),
    ("mounts", .arr (config.mounts.map Mount.toJson)),
    ("seccomp_denies", .arr (config.seccompDenies.map .str)),
    ("created_at_unix_ns", .int stamp.now.toNat),
    ("build_version", .str stamp.version),
    ("git_commit", .str stamp.gitCommit),
    ("resources", .obj [("memory_max", .int config.memoryMax.toNat),
      ("swap_max", .int config.swapMax.toNat), ("cpu_quota", .int config.cpuQuota.toNat),
      ("pids_max", .int config.pidsMax.toNat)]),
    ("environment", .arr (config.environment.map .str)),
    ("command", .arr (config.command.map .str))]

/-- `config_json`. -/
def configJson (stamp : Stamp) (config : RunConfig) (image : Text) : Value :=
  .obj ([("schema_version", .int 1), ("id", .str config.id)] ++
    Value.optional "name" (config.name.map .str) ++
    [("image", .str image)] ++
    Value.optional "image_digest" ((imageDigest config.rootfs).map .str) ++
    configMembers stamp config)

/-! ## Decoding -/

/-- `copy_string`. -/
def copyString (root : Value) (key : String) : Option Text := (root.getEx key).bind Value.getStr?

/-- An array member. -/
def getArray (root : Value) (key : String) : Option (List Value) :=
  (root.getEx key).bind Value.getArray?

/-- One entry of the publish list. -/
def loadPublish (published : Value) : Option Publish := do
  let hostIpv4 ← published.getEx "host_ipv4"
  let hostPort ← published.getEx "host_port"
  let containerPort ← published.getEx "container_port"
  let protocol ← published.getEx "protocol"
  return ⟨toU32 hostIpv4.getInt64, toU16 hostPort.getInt, toU16 containerPort.getInt,
    toU8 protocol.getInt⟩

/-- One entry of the mount list. -/
def loadMount (mounted : Value) : Option Mount := do
  let type := MountType.ofInt (← mounted.getEx "type").getInt
  let source := copyString mounted "source"
  let size ← mounted.getEx "size"
  let readonly ← mounted.getEx "readonly"
  let target ← copyString mounted "target"
  guard (¬(type = .bind ∧ source = none))
  return { type, source, target, size := UInt64.ofNat size.getUint64,
           readonly := readonly.getBoolean }

/-- The lists of a configuration, as `load_arrays` fills them in. -/
structure LoadedArrays where
  environment : List Text
  command : List Text
  publishes : List Publish
  mounts : List Mount
  seccompDenies : List Text

/-- The tail of `load_arrays`: a document without mounts is accepted as it is, and its
    deny list is then not read. -/
def loadMountsAndDenies (root : Value) : Option (List Mount × List Text) :=
  match root.getEx "mounts" with
  | none => some ([], [])
  | some array => do
    let mounts ← (← array.getArray?).mapM loadMount
    match root.getEx "seccomp_denies" with
    | none => return (mounts, [])
    | some denies => return (mounts, ← (← denies.getArray?).mapM Value.getString)

/-- `load_arrays`. An element of the string lists that is `null` makes the C code
    dereference a null pointer; the model counts it as a failed load. -/
def loadArrays (root : Value) : Option LoadedArrays := do
  let environment ← (← getArray root "environment").mapM Value.getString
  let command ← (← getArray root "command").mapM Value.getString
  guard (command ≠ [])
  let publishes ← (← getArray root "publishes").mapM loadPublish
  let (mounts, seccompDenies) ← loadMountsAndDenies root
  return { environment, command, publishes, mounts, seccompDenies }

/-- A resource limit. -/
def loadU64 (resources : Value) (key : String) : Option UInt64 :=
  (resources.getEx key).map fun value => UInt64.ofNat value.getUint64

/-- The part of `mc_state_load_config` behind the reading of the file: the
    configuration and the image string. -/
def loadDocument (root : Value) : Option (RunConfig × Text) := do
  let image ← root.getEx "image"
  let user ← root.getEx "user"
  let group ← root.getEx "group"
  let mode ← root.getEx "network_mode"
  let ipv4Host ← root.getEx "ipv4_host"
  let resources ← root.getEx "resources"
  let memoryMax ← loadU64 resources "memory_max"
  let swapMax ← loadU64 resources "swap_max"
  let cpuQuota ← loadU64 resources "cpu_quota"
  let pidsMax ← loadU64 resources "pids_max"
  let id ← copyString root "id"
  let rootfs ← copyString root "rootfs"
  let hostname ← copyString root "hostname"
  let workdir ← copyString root "workdir"
  let arrays ← loadArrays root
  return ({
    id, rootfs, hostname, workdir, memoryMax, swapMax, cpuQuota, pidsMax,
    name := copyString root "name"
    user := toU32 user.getInt64
    group := toU32 group.getInt64
    detach := false
    readyFd := -1
    capabilityMask := ((root.getEx "capability_mask").map (UInt64.ofNat ·.getUint64)).getD 0
    readonlyRoot := ((root.getEx "readonly_root").map Value.getBoolean).getD false
    networkBridge := mode.getString == some "bridge".toList
    ipv4Host := toU32 ipv4Host.getInt64
    environment := arrays.environment
    command := arrays.command
    publishes := arrays.publishes
    mounts := arrays.mounts
    seccompDenies := arrays.seccompDenies },
    CString.snprintf pathMax (image.getString.getD "(null)".toList))

/-! ## Documents from anywhere

`loadDocument` is for the documents that the runtime wrote itself. In other JSON documents
a string may hold the character NUL, where the copies of `strdup` end, and the network mode
may be `null`, which `strcmp` does not survive. -/

/-- The part of a JSON string that a C string function sees. -/
def untilNul (s : Text) : Text := s.takeWhile (· != '\x00')

def Mount.strdup (m : Mount) : Mount :=
  { m with source := m.source.map untilNul, target := untilNul m.target }

/-- The strings of a configuration as `strdup` copies them. -/
def RunConfig.strdup (config : RunConfig) : RunConfig :=
  { config with
    id := untilNul config.id
    name := config.name.map untilNul
    rootfs := untilNul config.rootfs
    hostname := untilNul config.hostname
    workdir := untilNul config.workdir
    environment := config.environment.map untilNul
    mounts := config.mounts.map Mount.strdup
    seccompDenies := config.seccompDenies.map untilNul
    command := config.command.map untilNul }

/-- `mc_state_load_config` on any document; `none` if it is refused or crashes the loader. -/
def loadStored (root : Value) : Option (RunConfig × Text) := do
  let (config, image) ← loadDocument root
  let mode ← (← root.getEx "network_mode").getString
  return ({ config.strdup with
    networkBridge := untilNul mode == "bridge".toList }, untilNul image)

end MiniContainer
