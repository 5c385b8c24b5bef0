import MiniContainer.ForStd.Tokens
import MiniContainer.Native.Archive
import MiniContainer.Native.ConfigJson
import MiniContainer.Native.Parse

/-!
# Who a container is

The host IDs that a container's IDs are mapped to, from `/etc/subuid` and `/etc/subgid` to the
maps of its user namespace (`util/subid.c` and `configure_id_maps`), and the variables that its
first process gets (`install_environment` in `linux/container.c`).
-/

namespace MiniContainer

open CString (Text strchr strtou decimal fgets snprintf upToNewline)

/-! ## Subordinate ID ranges -/

namespace Subid

/-- `%lu` of `sscanf`. -/
def scanLu (s : Text) : Option (Nat × Text) := (strtou 64 s).map fun c => (c.value, c.rest)

/-- `sscanf(line, "%127[^:]:%lu:%lu", ...) == 3`. -/
def scanEntry (line : Text) : Option (Text × Nat × Nat) := do
  let (owner, s) ← scanSet 127 (· != ':') line
  let (start, s) ← scanLu (← scanLiteral ':' s)
  let (count, _) ← scanLu (← scanLiteral ':' s)
  return (owner, start, count)

/-- `UINT32_MAX - 65535U`. -/
def lastStart : Nat := 2 ^ 32 - 1 - 65535

/-- The test of one line in the loop of `read_start`. As a string the line ends at a NUL. -/
def entryStart (line : Text) : Option UInt32 :=
  match scanEntry (untilNul line) with
  | none => none
  | some (owner, start, count) =>
    if owner = "minicontainer".toList ∧ 65536 ≤ count ∧ start ≤ lastStart then
      some (UInt32.ofNat start)
    else none

/-- `fgets` into a buffer of this size: what it reads, and the rest of the file. -/
def fgetsRest (size : Nat) (content : Text) : Option (Text × Text) :=
  (fgets size content).map fun line => (line, content.drop line.length)

theorem fgetsRest_length {size : Nat} (hsize : 2 ≤ size) {content line rest : Text}
    (h : fgetsRest size content = some (line, rest)) : rest.length < content.length := by
  obtain ⟨line', hline, heq⟩ := Option.map_eq_some_iff.mp h
  obtain ⟨rfl, rfl⟩ := Prod.mk.inj heq
  unfold fgets at hline
  split at hline
  · cases hline
  · rename_i hne
    obtain rfl := Option.some.inj hline
    cases content with
    | nil => exact absurd rfl hne
    | cons c content =>
      have hpos : 0 < ((upToNewline (c :: content)).take (size - 1)).length := by
        rw [List.length_take, upToNewline]
        split <;> simp <;> omega
      rw [List.length_drop, List.length_cons]
      omega

/-- The loop of `read_start` over the lines of the file. -/
def scanFile (content : Text) : Option UInt32 :=
  match _h : fgetsRest 512 content with
  | none => none
  | some (line, rest) =>
    match entryStart line with
    | some start => some start
    | none => scanFile rest
termination_by content.length
decreasing_by exact fgetsRest_length (by decide) _h

/-- `read_start`, of the value of the environment variable and of the file, unless `fopen` fails. -/
def readStart (override : Option Text) (file : Except Errno Text) : Except Errno UInt32 :=
  match override with
  | some (c :: digits) =>
    match strtou 64 (c :: digits) with
    | none => .error .einval
    | some parsed =>
      if parsed.rest ≠ [] ∨ lastStart < parsed.value then .error .einval
      else .ok (UInt32.ofNat parsed.value)
  | _ =>
    match file with
    | .error errno => .error errno
    | .ok content =>
      match scanFile content with
      | none => .error .enoent
      | some start => .ok start

/-- Where `mc_subid_range` looks. -/
structure Sources where
  /-- `MC_SUBUID_START` and `MC_SUBGID_START`. -/
  uidOverride : Option Text
  gidOverride : Option Text
  /-- `/etc/subuid` and `/etc/subgid`. -/
  subuid : Except Errno Text
  subgid : Except Errno Text

/-- `mc_subid_range`. -/
def subidRange (sources : Sources) : Except McError SubidRange :=
  let failed (errno : Errno) :=
    errorSet .prerequisite errno "subordinate-ids" "minicontainer".toList
    "a dedicated 65536-ID UID/GID range is required"
  match readStart sources.uidOverride sources.subuid with
  | .error errno => .error (failed errno)
  | .ok uidStart =>
    match readStart sources.gidOverride sources.subgid with
    | .error errno => .error (failed errno)
    | .ok gidStart => .ok ⟨uidStart, gidStart⟩

end Subid

/-! ## ID maps -/

/-- The variables of a process. -/
abbrev Variables := List (Text × Text)

/-- Why `install_environment` does not return 0. -/
inductive EnvironmentFault where
  /-- `setenv` fails, and the function returns -1. -/
  | setenv (name : Text)
  /-- There is no separator, and the code computes with a null pointer. -/
  | noSeparator (assignment : Text)
  deriving DecidableEq, Repr

/-- `setenv(name, value, 1)`, which refuses an empty name and one with a separator. -/
def setenv (name value : Text) (environ : Variables) : Except EnvironmentFault Variables :=
  if name = [] ∨ '=' ∈ name then .error (.setenv name)
  else if environ.any (·.1 = name) then
    -- a variable that is there is replaced in its place
    .ok (environ.map fun entry => if entry.1 = name then (name, value) else entry)
  else .ok (environ ++ [(name, value)])

/-- The loop of `install_environment`. -/
def installAssignments : List Text → Variables → Except EnvironmentFault Variables
  | [], environ => .ok environ
  | assignment :: others, environ =>
    match strchr '=' assignment with
    | none => .error (.noSeparator assignment)
    | some (key, value) => do installAssignments others (← setenv key value environ)

/-- `install_environment`. -/
def installEnvironment (config : RunConfig) : Except EnvironmentFault Variables := do
  let path ← setenv "PATH".toList
    "/usr/local/sbin:/usr/local/bin:/usr/sbin:/usr/bin:/sbin:/bin".toList []
  let home ← setenv "HOME".toList (if config.user = 0 then "/root".toList else "/".toList) path
  let hostname ← setenv "HOSTNAME".toList config.hostname home
  installAssignments config.environment hostname

end MiniContainer
