import MiniContainer.Native.Parse

/-!
# Mount targets

`open_mount_target` of `linux/container.c`: the directory below the container's root that a
bind or tmpfs target is mounted on, reached one component at a time.
-/

namespace MiniContainer

open CString (Text strtok)

/-- The directories below the merged root. -/
structure MountTree where
  /-- `mkdirat` makes the component or finds it, and `openat2` opens it: it is a directory, and
      no link leads there. -/
  opens : List Text → Text → Bool

/-- The components that `strtok_r` returns for `target + 1`. -/
def mountComponents (target : Text) : List Text := strtok '/' target.tail

/-- One round of the loop. `.` opens the directory itself, and `RESOLVE_BENEATH` keeps `..`
    from leaving it. -/
def openComponent (tree : MountTree) (current : List Text) (component : Text) :
    Option (List Text) :=
  if component = ".".toList then some current
  else if component = "..".toList then none
  else if tree.opens current component then some (current ++ [component])
  else none

/-- `open_mount_target`: the directory that is opened, by its components. -/
def openMountTarget (tree : MountTree) (target : Text) : Option (List Text) :=
  (mountComponents target).foldlM (openComponent tree) []

end MiniContainer
