import MiniContainer.Native.Types

/-!
# Parsers of command-line values

`resource.c`, `validate.c`, `network/parse.c`, `mount.c` and the name tables of
`security.c`: the functions that turn one argument of the command line, or of the
shim's argument vector, into a member of a run configuration. Each returns
`none` (or an error) where the C function returns 0.

The file system, the bind allowlist and the system call table are the `Host`.
-/

namespace MiniContainer

open CString (Text strchr strstr strtou)


/-- What `stat` reports about a seccomp profile. -/
structure ProfileStat where
  isRegular : Bool
  ownedByCaller : Bool
  groupOrOtherWritable : Bool
  size : Nat
  deriving DecidableEq, Repr

/-- The machine as the parsers see it. `realpath` answers with canonical absolute
    paths of at most `PATH_MAX - 1` characters, which resolve to themselves. -/
structure Host where
  realpath : Text → Option Text
  isDirectory : Text → Bool
  /-- The document at `MC_CONFIG_PATH`. -/
  configFile : Option JsonC.Value
  statProfile : Text → Option ProfileStat
  readProfile : Text → Option JsonC.Value
  /-- `seccomp_syscall_resolve_name(name) != __NR_SCMP_ERROR`. -/
  syscallKnown : Text → Bool
  /-- The image store: the root file system of an imported image, or the error that
      `mc_image_resolve` reports for a name without a complete import. -/
  imageStore : Text → Except McError Text
  realpath_idem : ∀ p r, realpath p = some r → realpath r = some r
  realpath_absolute : ∀ p r, realpath p = some r → r.head? = some '/'
  realpath_length : ∀ p r, realpath p = some r → r.length < pathMax

/-! ## Resource limits -/

/-- `mc_parse_positive_u64`. -/
def parsePositiveU64 (value : Text) (maximum : UInt64) : Option UInt64 :=
  if value = [] ∨ value.head? = some '-' then none
  else
    match strtou 64 value with
    | none => none
    | some c =>
      if c.erange ∨ c.rest ≠ [] ∨ c.value = 0 ∨ maximum.toNat < c.value then none
      else some (UInt64.ofNat c.value)

/-- The multiplier of a size suffix, lower-cased. -/
def suffixMultiplier (suffix : Text) : Option Nat :=
  if suffix = "".toList ∨ suffix = "b".toList then some 1
  else if suffix = "k".toList ∨ suffix = "ki".toList ∨ suffix = "kib".toList then some 1024
  else if suffix = "m".toList ∨ suffix = "mi".toList ∨ suffix = "mib".toList then
    some (1024 * 1024)
  else if suffix = "g".toList ∨ suffix = "gi".toList ∨ suffix = "gib".toList then
    some (1024 * 1024 * 1024)
  else none

/-- `mc_parse_bytes`. -/
def parseBytes (value : Text) : Option UInt64 :=
  if value = [] ∨ value.head? = some '-' then none
  else
    match strtou 64 value with
    | none => none
    | some c =>
      if c.erange ∨ c.value = 0 ∨ 8 ≤ c.rest.length then none
      else
        match suffixMultiplier (c.rest.map Char.toLower) with
        | none => none
        | some multiplier =>
          if (2 ^ 64 - 1) / multiplier < c.value then none
          else some (UInt64.ofNat (c.value * multiplier))

/-- The accumulators of the loop in `mc_parse_cpu_quota`. -/
structure CpuScan where
  whole : Nat
  fraction : Nat
  scale : Nat
  seenDigit : Bool
  seenDot : Bool

/-- The loop of `mc_parse_cpu_quota` over the characters of the value. -/
def cpuScan (s : CpuScan) : Text → Option CpuScan
  | [] => some s
  | c :: rest =>
    if c = '.' then
      if s.seenDot then none else cpuScan { s with seenDot := true } rest
    else if !c.isDigit then none
    else
      let digit := c.toNat - '0'.toNat
      if !s.seenDot then
        if 1024 < s.whole then none
        else cpuScan { s with seenDigit := true, whole := s.whole * 10 + digit } rest
      else if s.scale < 1000000 then
        cpuScan { s with
          seenDigit := true, fraction := s.fraction * 10 + digit, scale := s.scale * 10 } rest
      else none

/-- `mc_parse_cpu_quota`: a decimal number of processors, as microseconds of run
    time in a period of 100 ms. -/
def parseCpuQuota (value : Text) : Option UInt64 :=
  if value = [] then none
  else
    match cpuScan ⟨0, 0, 1, false, false⟩ value with
    | none => none
    | some s =>
      if !s.seenDigit ∨ 1024 < s.whole then none
      else
        let micros := s.whole * 1000000 + s.fraction * 1000000 / s.scale
        if micros = 0 ∨ 1024 * 1000000 < micros then none
        else
          let quota := micros * 100000 / 1000000
          if 0 < quota then some (UInt64.ofNat quota) else none

/-! ## Names, users and environment -/

/-- `mc_valid_name`. -/
def validName (name : Text) : Bool :=
  name.length != 0 && name.length ≤ 64 && name.head?.any Char.isAlphanum &&
    name.all (fun c => c.isLower || c.isDigit || c == '.' || c == '_' || c == '-') &&
    (strstr "..".toList name).isNone

/-- `mc_valid_environment`. -/
def validEnvironment (assignment : Text) : Bool :=
  match strchr '=' assignment with
  | none => false
  | some (key, value) =>
    match key with
    | [] => false
    | first :: others =>
      (first.isAlpha || first == '_') &&
        others.all (fun c => c.isAlphanum || c == '_') &&
        (strchr '\n' value).isNone && (strchr '\r' value).isNone

/-- `mc_parse_user`. -/
def parseUser (value : Text) : Option (UInt32 × UInt32) :=
  if value = [] then none
  else
    match strtou 64 value with
    | none => none
    | some user =>
      if user.erange ∨ 65535 < user.value then none
      else
        match user.rest with
        | [] => some (UInt32.ofNat user.value, UInt32.ofNat user.value)
        | ':' :: groupStart =>
          match strtou 64 groupStart with
          | none => none
          | some group =>
            if group.erange ∨ 65535 < group.value ∨ group.rest ≠ [] then none
            else some (UInt32.ofNat user.value, UInt32.ofNat group.value)
        | _ => none

/-! ## Published ports -/

/-- `%u` of `sscanf`, which stores the low 32 bits of what `strtoul` returns. -/
def scanU (s : Text) : Option (UInt32 × Text) :=
  (strtou 64 s).map fun c => (UInt32.ofNat c.value, c.rest)

/-- `%N[...]` of `sscanf`: at least one and at most `width` characters of the set. -/
def scanSet (width : Nat) (set : Char → Bool) (s : Text) : Option (Text × Text) :=
  let taken := (s.takeWhile set).take width
  if taken = [] then none else some (taken, s.drop taken.length)

/-- A literal character in a format of `sscanf`. -/
def scanLiteral (c : Char) : Text → Option Text
  | d :: s => if d = c then some s else none
  | [] => none

/-- The loop of `inet_pton(AF_INET, ...)`: the octets completed so far, their number,
    and the value of the octet being read, if it has a digit already. -/
def inetPtonLoop (address octets : Nat) (current : Option Nat) : Text → Option UInt32
  | [] =>
    match current with
    | some value => if octets = 3 then some (UInt32.ofNat (address * 256 + value)) else none
    | none => none
  | c :: s =>
    if c.isDigit then
      let digit := c.toNat - '0'.toNat
      match current with
      | none => if 4 ≤ octets then none else inetPtonLoop address octets (some digit) s
      | some value =>
        if value = 0 ∨ 255 < value * 10 + digit then none
        else inetPtonLoop address octets (some (value * 10 + digit)) s
    else if c = '.' then
      match current with
      | some value =>
        if octets = 3 then none else inetPtonLoop (address * 256 + value) (octets + 1) none s
      | none => none
    else none

/-- `inet_pton` followed by `ntohl`. -/
def inetPton (s : Text) : Option UInt32 := inetPtonLoop 0 0 none s

/-- The protocol number of a protocol name. -/
def publishProtocol (text : Text) : Option UInt8 :=
  if text = "tcp".toList then some ipprotoTcp
  else if text = "udp".toList then some ipprotoUdp
  else none

/-- A port that `%u` scanned. -/
def scannedPort (port : UInt32) : Option UInt16 :=
  if port = 0 ∨ 65535 < port then none else some port.toUInt16

/-- `mc_parse_publish`: `ADDRESS:HOST_PORT:CONTAINER_PORT/PROTOCOL`. -/
def parsePublish (value : Text) : Option Publish := do
  let (addressText, s) ← scanSet 15 (fun c => c.isDigit || c == '.') value
  let (hostPort, s) ← scanU (← scanLiteral ':' s)
  let (containerPort, s) ← scanU (← scanLiteral ':' s)
  let (protocolText, trailing) ← scanSet 3 Char.isLower (← scanLiteral '/' s)
  let address ← inetPton addressText
  let hostPort ← scannedPort hostPort
  let containerPort ← scannedPort containerPort
  let protocol ← publishProtocol protocolText
  if trailing = [] then some ⟨address, hostPort, containerPort, protocol⟩ else none

/-! ## Mounts -/

/-- `under_path`, also the test against each forbidden target. -/
def underPath (path parent : Text) : Bool :=
  parent.isPrefixOf path &&
    match path.drop parent.length with
    | [] => true
    | c :: _ => c == '/'

/-- The loop of `valid_target` over the occurrences of `..`: whether one of them is a
    whole path component. `previous` is the character before the current position. -/
def dotDotComponent (previous : Option Char) : Text → Bool
  | [] => false
  | '.' :: '.' :: s =>
    ((previous == none || previous == some '/') && (s.isEmpty || s.head? == some '/')) ||
      dotDotComponent (some '.') s
  | c :: s => dotDotComponent (some c) s

/-- The targets that a mount must not cover. -/
def forbiddenTargets : List Text :=
  ["/proc".toList, "/sys".toList, "/dev".toList, "/run/minicontainer".toList,
    "/var/lib/minicontainer".toList]

/-- `valid_target`. -/
def validTarget (target : Text) : Bool :=
  target.head? == some '/' && 2 ≤ target.length && target.length < pathMax &&
    !dotDotComponent none target && !forbiddenTargets.any (underPath target)

/-- `bind_allowed`: the source lies under an entry of the allowlist. -/
def bindAllowed (host : Host) (source : Text) : Bool :=
  match host.configFile with
  | none => false
  | some root =>
    match (root.getEx "allowed_bind_sources").bind JsonC.Value.getArray? with
    | none => false
    | some allowed =>
      allowed.any fun entry =>
        match entry.getString.bind host.realpath with
        | none => false
        | some resolved => underPath source resolved

/-- The mode of a bind mount: absent, `ro` or `rw`; `none` for anything else. -/
def bindMode : Option Text → Option Bool
  | none => some false
  | some mode =>
    if mode = "ro".toList then some true else if mode = "rw".toList then some false else none

/-- Target and mode of a bind mount: what stands before and behind a second colon. -/
def bindTarget (rest : Text) : Text × Option Text :=
  match strchr ':' rest with
  | none => (rest, none)
  | some (target, mode) => (target, some mode)

/-- The checks of `mc_parse_bind_mount`. -/
def bindMount (host : Host) (value : Text) : Option Mount :=
  match strchr ':' value with
  | none => none
  | some (source, rest) =>
    let (target, mode) := bindTarget rest
    if source.head? = some '/' ∧ validTarget target then
      match bindMode mode, host.realpath source with
      | some readonly, some resolved =>
        if host.isDirectory resolved ∧ bindAllowed host resolved then
          some { type := .bind, source := some resolved, target, size := 0, readonly }
        else none
      | _, _ => none
    else none

/-- `mc_parse_bind_mount`. -/
def parseBindMount (host : Host) (value : Text) : Except McError Mount :=
  match bindMount host value with
  | some mount => .ok mount
  | none => .error (errorSet .usage .einval "parse-bind" value
      "bind must be an allowlisted directory SOURCE:TARGET[:ro|rw]")

/-- The checks of `mc_parse_tmpfs_mount`. The search for the separator starts at the
    second character. -/
def tmpfsMount (value : Text) : Option Mount :=
  match value with
  | [] => none
  | first :: tail =>
    match strchr ':' tail with
    | none =>
      if validTarget value then
        some { type := .tmpfs, source := none, target := value, size := 67108864,
               readonly := false }
      else none
    | some (target, sizeText) =>
      match parseBytes sizeText with
      | none => none
      | some size =>
        if size ≤ 1073741824 ∧ validTarget (first :: target) then
          some { type := .tmpfs, source := none, target := first :: target, size,
                 readonly := false }
        else none

/-- `mc_parse_tmpfs_mount`. -/
def parseTmpfsMount (value : Text) : Except McError Mount :=
  match tmpfsMount value with
  | some mount => .ok mount
  | none => .error (errorSet .usage .einval "parse-tmpfs" value
      "tmpfs must be TARGET[:SIZE] with an absolute safe target")

/-! ## Capabilities and seccomp profiles -/

/-- `capability_names`. -/
def capabilityNames : List Text :=
  ["CHOWN", "DAC_OVERRIDE", "DAC_READ_SEARCH", "FOWNER", "FSETID", "KILL",
    "SETGID", "SETUID", "SETPCAP", "LINUX_IMMUTABLE", "NET_BIND_SERVICE",
    "NET_BROADCAST", "NET_ADMIN", "NET_RAW", "IPC_LOCK", "IPC_OWNER", "SYS_MODULE",
    "SYS_RAWIO", "SYS_CHROOT", "SYS_PTRACE", "SYS_PACCT", "SYS_ADMIN", "SYS_BOOT",
    "SYS_NICE", "SYS_RESOURCE", "SYS_TIME", "SYS_TTY_CONFIG", "MKNOD", "LEASE",
    "AUDIT_WRITE", "AUDIT_CONTROL", "SETFCAP", "MAC_OVERRIDE", "MAC_ADMIN", "SYSLOG",
    "WAKE_ALARM", "BLOCK_SUSPEND", "AUDIT_READ", "PERFMON", "BPF",
    "CHECKPOINT_RESTORE"].map String.toList

/-- `mc_capability_parse`. -/
def capabilityParse (name : Text) : Option Nat :=
  let candidate := if "CAP_".toList.isPrefixOf name then name.drop 4 else name
  capabilityNames.findIdx? (candidate == ·)

/-- `capability_mask |= UINT64_C(1) << capability`. -/
def addCapability (mask : UInt64) (capability : Nat) : UInt64 :=
  mask ||| UInt64.ofNat (2 ^ capability)

/-- `mc_capability_name`. -/
def capabilityName (number : Nat) : Option Text := capabilityNames[number]?

/-- `mc_seccomp_name_valid`. -/
def seccompNameValid (host : Host) (name : Text) : Bool :=
  name != [] && host.syscallKnown name

/-- The loop of `mc_seccomp_profile_load` over the entries of the deny list. -/
def loadDenies (host : Host) (loaded : List Text) : List JsonC.Value → Option (List Text)
  | [] => some loaded
  | entry :: rest =>
    match entry.getString with
    | none => none
    | some name =>
      if !seccompNameValid host name ∨ name ∈ loaded then none
      else loadDenies host (loaded ++ [name]) rest

/-- The checks of `mc_seccomp_profile_load` on the file itself. -/
def profileTrusted (host : Host) (path : Text) : Bool :=
  path.head? == some '/' &&
    match host.statProfile path with
    | none => false
    | some metadata =>
      metadata.isRegular && metadata.ownedByCaller && !metadata.groupOrOtherWritable &&
        metadata.size ≤ 65536

/-- The checks of `mc_seccomp_profile_load`. -/
def seccompProfile (host : Host) (path : Text) : Option (List Text) :=
  if profileTrusted host path then do
    let root ← host.readProfile path
    let version ← root.getEx "version"
    let array ← (root.getEx "deny").bind JsonC.Value.getArray?
    if version.getInt = 1 ∧ array.length ≤ 128 then loadDenies host [] array else none
  else none

/-- `mc_seccomp_profile_load`. -/
def seccompProfileLoad (host : Host) (path : Text) : Except McError (List Text) :=
  match seccompProfile host path with
  | some denies => .ok denies
  | none => .error (errorSet .usage .einval "seccomp-profile" path
      "profile must be root-owned non-writable JSON version 1 with valid unique deny names")

end MiniContainer
