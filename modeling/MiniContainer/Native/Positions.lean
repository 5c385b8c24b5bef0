import MiniContainer.ForStd.Cursor
import MiniContainer.Native.Archive
import MiniContainer.Native.Parse

/-!
# Checks of paths, position by position

`mc_safe_archive_path` of `util/validate.c` and the checks of `util/mount.c` as the code walks
through its strings: a pointer is a position in a string, and every character is read through
`peek`, which fails behind the terminating NUL. Where the code overwrites a separator with a NUL
the string ends there, and what follows is a string of its own.
-/

namespace MiniContainer

open CString (Text Outside peek strlenAt strchrAt strncmpAt strcmpAt strstrAt)

/-! ## Archive paths -/

/-- The test of `mc_safe_archive_path` on a component of this length: it is empty, `.` or `..`. -/
def refusedAt (path : Text) (component length : Nat) : Except Outside Bool := do
  if length = 0 then return true
  else if length = 1 then return (← peek path component) == some '.'
  else if length = 2 then
    if (← peek path component) == some '.' then return (← peek path (component + 1)) == some '.'
    else return false
  else return false

/-- The loop of `mc_safe_archive_path`, from a component on. -/
def safeComponentsAt (path : Text) (component : Nat) : Except Outside Bool :=
  match peek path component with
  | .error e => .error e
  | .ok none => .ok true
  | .ok (some _) =>
    match _h : strchrAt path '/' component with
    | .error e => .error e
    | .ok none => do return !(← refusedAt path component (← strlenAt path component))
    | .ok (some separator) =>
      match refusedAt path component (separator - component) with
      | .error e => .error e
      | .ok true => .ok false
      | .ok false => safeComponentsAt path (separator + 1)
termination_by path.length - component
decreasing_by
  have := CString.strchrAt_eq_some _h
  omega

/-- `mc_safe_archive_path`. -/
def safeArchivePathAt (path : Text) : Except Outside Bool := do
  let first ← peek path 0
  if first = none ∨ first = some '/' then return false
  else if (← strchrAt path '\\' 0).isSome then return false
  else safeComponentsAt path 0

/-! ## Mount targets -/

/-- `path[length] == '\0' || path[length] == '/'`, behind a match of `length` characters. -/
def endsComponent (path : Text) (length : Nat) : Except Outside Bool := do
  let next ← peek path length
  return next == none || next == some '/'

/-- `under_path`. -/
def underPathAt (path parent : Text) : Except Outside Bool := do
  let length ← strlenAt parent 0
  if ← strncmpAt path parent length 0 0 then endsComponent path length else return false

/-- `component == target || component[-1] == '/'`. -/
def startsComponent (target : Text) (component : Nat) : Except Outside Bool :=
  if component = 0 then return true else return (← peek target (component - 1)) == some '/'

/-- What `valid_target` looks at around an occurrence of `..`: whether it is a whole component. -/
def wholeComponent (target : Text) (component : Nat) : Except Outside Bool := do
  if ← startsComponent target component then endsComponent target (component + 2)
  else return false

/-- The loop of `valid_target` over the occurrences of `..`. -/
def dotDotAt (target : Text) (component : Nat) : Except Outside Bool :=
  match _h : strstrAt target "..".toList component with
  | .error e => .error e
  | .ok none => .ok false
  | .ok (some found) =>
    match wholeComponent target found with
    | .error e => .error e
    | .ok true => .ok true
    | .ok false => dotDotAt target (found + 2)
termination_by target.length - component
decreasing_by
  have hfound := CString.strstrAt_eq_some (by decide) _h
  have htwo : "..".toList.length = 2 := rfl
  omega

/-- The loop of `valid_target` over the forbidden targets. -/
def forbiddenAt (target : Text) : List Text → Except Outside Bool
  | [] => return false
  | forbidden :: others => do
    if ← underPathAt target forbidden then return true else forbiddenAt target others

/-- `valid_target`. -/
def validTargetAt (target : Text) : Except Outside Bool := do
  if (← peek target 0) ≠ some '/' then return false
  else if (← peek target 1) = none then return false
  else if pathMax ≤ (← strlenAt target 0) then return false
  else if ← dotDotAt target 0 then return false
  else return !(← forbiddenAt target forbiddenTargets)

/-! ## Mount options -/

/-- The loop of `bind_allowed` over the entries of the allowlist. -/
def allowedAt (host : Host) (source : Text) : List JsonC.Value → Except Outside Bool
  | [] => return false
  | entry :: others =>
    match entry.getString.bind host.realpath with
    | none => allowedAt host source others
    | some resolved => do
      if ← underPathAt source resolved then return true else allowedAt host source others

/-- `bind_allowed`. -/
def bindAllowedAt (host : Host) (source : Text) : Except Outside Bool :=
  match host.configFile with
  | none => return false
  | some root =>
    match (root.getEx "allowed_bind_sources").bind JsonC.Value.getArray? with
    | none => return false
    | some allowed => allowedAt host source allowed

/-- The test of the mode, `none` when it is neither `ro` nor `rw`. -/
def bindModeAt : Option Text → Except Outside (Option Bool)
  | none => return some false
  | some mode => do
    if ← strcmpAt mode "ro".toList then return some true
    else if ← strcmpAt mode "rw".toList then return some false
    else return none

/-- Target and mode of a bind mount: what stands before and behind a second colon. -/
def bindTargetAt (rest : Text) : Except Outside (Text × Option Text) := do
  match ← strchrAt rest ':' 0 with
  | none => return (rest, none)
  | some colon => return (rest.take colon, some (rest.drop (colon + 1)))

/-- The checks of `mc_parse_bind_mount`. -/
def bindMountAt (host : Host) (value : Text) : Except Outside (Option Mount) := do
  match ← strchrAt value ':' 0 with
  | none => return none
  | some separator =>
    let source := value.take separator
    let (target, mode) ← bindTargetAt (value.drop (separator + 1))
    if (← peek source 0) ≠ some '/' then return none
    else if !(← validTargetAt target) then return none
    else
      match ← bindModeAt mode, host.realpath source with
      | some readonly, some resolved =>
        if !host.isDirectory resolved then return none
        else if ← bindAllowedAt host resolved then
          return some { type := .bind, source := some resolved, target, size := 0, readonly }
        else return none
      | _, _ => return none

/-- The checks of `mc_parse_tmpfs_mount`, which searches from the second character on. -/
def tmpfsMountAt (value : Text) : Except Outside (Option Mount) := do
  match ← strchrAt value ':' 1 with
  | none =>
    if ← validTargetAt value then
      return some { type := .tmpfs, source := none, target := value, size := 67108864,
                    readonly := false }
    else return none
  | some separator =>
    let target := value.take separator
    match parseBytes (value.drop (separator + 1)) with
    | none => return none
    | some size =>
      if 1073741824 < size then return none
      else if ← validTargetAt target then
        return some { type := .tmpfs, source := none, target, size, readonly := false }
      else return none

end MiniContainer
