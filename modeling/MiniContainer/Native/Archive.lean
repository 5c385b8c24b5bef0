import MiniContainer.Native.Types

/-!
# Archive entries

`validate_entry` of `image/import.c` with the path checks of `util/validate.c`: which
entries of an archive are extracted, under which name and for which owner.
-/

namespace MiniContainer

open CString (Text pieces)

/-! ## Paths -/

/-- The components that the loops of `util/validate.c` visit. They end in front of an empty
    rest, so nothing is visited behind a trailing slash. -/
def visitedComponents (path : Text) : List Text :=
  let parts := pieces '/' path
  if parts.getLast? = some [] then parts.dropLast else parts

/-- A component that `mc_safe_archive_path` accepts. -/
def safeComponent (component : Text) : Bool :=
  component != [] && component != ".".toList && component != "..".toList

/-- `mc_safe_archive_path`. -/
def safeArchivePath (path : Text) : Bool :=
  path != [] && path.head? != some '/' && !path.contains '\\' &&
    (visitedComponents path).all safeComponent

/-- `apply_components`: the depth behind the components, unless one leads above the root. -/
def applyComponents : List Text → Nat → Option Nat
  | [], depth => some depth
  | component :: components, depth =>
    if component = "..".toList then
      if depth = 0 then none else applyComponents components (depth - 1)
    else if component ≠ [] ∧ component ≠ ".".toList then applyComponents components (depth + 1)
    else applyComponents components depth

/-- The text in front of the last slash. -/
def parentPath (path : Text) : Text :=
  match path.reverse.dropWhile (· ≠ '/') with
  | [] => []
  | _ :: parent => parent.reverse

/-- `mc_link_stays_beneath`. -/
def linkStaysBeneath (entryPath target : Text) : Bool :=
  if target = [] ∨ '\\' ∈ target then false
  else if target.head? = some '/' then
    (applyComponents (visitedComponents target.tail) 0).isSome
  else if (parentPath entryPath).length ≥ 4096 then false
  else
    match applyComponents (visitedComponents (parentPath entryPath)) 0 with
    | none => false
    | some depth => (applyComponents (visitedComponents target) depth).isSome

/-! ## Entries -/

/-- The file types that an entry can have. -/
inductive EntryType where
  | regular
  | directory
  | symlink
  | block
  | character
  | fifo
  | socket
  deriving DecidableEq, Repr

/-- An entry of an archive, as `libarchive` reads it: what the import looks at. -/
structure Entry where
  pathname : Option Text
  symlink : Option Text
  hardlink : Option Text
  type : EntryType
  /-- It has the set-user-ID or the set-group-ID bit. -/
  privileged : Bool
  uid : Int
  gid : Int
  deriving DecidableEq, Repr

/-- The path behind any number of `./`. -/
def skipDotSlash : Text → Text
  | '.' :: '/' :: path => skipDotSlash path
  | path => path

/-- The first host IDs of the ranges that containers are mapped to. -/
structure SubidRange where
  uidStart : UInt32
  gidStart : UInt32
  deriving DecidableEq, Repr

/-- An owner that a container can have. -/
def inContainerRange (id : Int) : Bool := 0 ≤ id && id ≤ 65535

/-- What the pointer `path` reads behind `archive_entry_set_pathname(entry, path)`. It points
    into the buffer of the entry, to whose start the text is moved: so many characters further on
    it reads the rest of the moved text, or the old one if that stands behind it. -/
def movedPath (offset : Nat) (path : Text) : Text :=
  if offset ≤ path.length then path.drop offset else path

/-- `validate_entry`: the entry that is extracted in its place, or `none` when it is skipped. -/
def validateEntry (range : SubidRange) (entry : Entry) : Except McError (Option Entry) :=
  match entry.pathname with
  | none => .ok none
  | some pathname =>
    let path := skipDotSlash pathname
    let moved := movedPath (pathname.length - path.length) path
    if path = [] then .ok none
    else if !safeArchivePath path then
      .error (errorSet .usage .zero "image-import" path "unsafe archive path")
    else if entry.symlink.any (!linkStaysBeneath moved ·) ||
        entry.hardlink.any (!safeArchivePath ·) then
      .error (errorSet .usage .zero "image-import" moved "unsafe archive link")
    else if entry.type = .block ∨ entry.type = .character ∨ entry.type = .fifo ∨
        entry.type = .socket then
      .error (errorSet .usage .zero "image-import" moved "special files are forbidden")
    else if entry.privileged then
      .error (errorSet .usage .zero "image-import" moved "setuid and setgid entries are forbidden")
    else if !inContainerRange entry.uid || !inContainerRange entry.gid then
      .error (errorSet .usage .zero "image-import" moved
        "archive owner is outside the container ID range")
    else
      .ok (some { entry with
        pathname := some path
        uid := range.uidStart.toNat + entry.uid
        gid := range.gidStart.toNat + entry.gid })

end MiniContainer
