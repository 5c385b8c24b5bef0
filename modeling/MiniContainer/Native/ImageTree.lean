import Mathlib.Data.List.AList
import MiniContainer.Native.Archive

/-!
# The tree of an image

The loop of `extract_archive` over the entries of an archive and what the disk writer of
`libarchive` makes of each of them below the image root, with the options that the source
sets: nothing is written through a symbolic link.

A `Walk` resolves a path in such a tree as the kernel does, one component at a time.
-/

namespace MiniContainer.ImageTree

open CString (Text pieces)

/-! ## Trees -/

/-- A place in the tree, by the components from the image root. -/
abbrev Path := List Text

/-- What stands at a place. -/
inductive Node where
  | directory
  | file
  | link (target : Text)
  deriving DecidableEq, Repr

/-- The places of the tree below its root. -/
abbrev Tree := AList fun _ : Path => Node

/-- A directory on the way to an entry. Missing ones are made, also in the place of a file; a link
    is not followed. -/
def makeParent (tree : Tree) (dir : Path) : Option Tree :=
  match tree.lookup dir with
  | none | some .file => some (tree.insert dir .directory)
  | some .directory => some tree
  | some (.link _) => none

/-- The directories on the way to a place, from the outermost on. -/
def parents (path : Path) : List Path := path.dropLast.inits.tail

/-- Something stands below the place. -/
def hasChildren (tree : Tree) (path : Path) : Bool :=
  tree.keys.any fun other => path.isPrefixOf other && other != path

/-- An entry takes the place of what stood there, unless that is a directory in use. -/
def place (tree : Tree) (path : Path) (node : Node) : Option Tree :=
  match tree.lookup path with
  | some .directory =>
    if node = .directory then some tree
    else if hasChildren tree path then none
    else some (tree.insert path node)
  | _ => some (tree.insert path node)

/-- What an entry creates. A hard link makes its place the same file as another one, also
    where that is a symbolic link. -/
def entryNode (tree : Tree) (entry : Entry) : Option Node :=
  match entry.hardlink with
  | some source =>
    match tree.lookup (visitedComponents source) with
    | none | some .directory => none
    | some node => some node
  | none =>
    match entry.symlink with
    | some target => some (.link target)
    | none => some (if entry.type = .directory then .directory else .file)

/-- `archive_read_extract2`: the entry is created at its path without a trailing slash. -/
def extractEntry (tree : Tree) (entry : Entry) : Option Tree := do
  let path := visitedComponents (← entry.pathname)
  let tree ← (parents path).foldlM makeParent tree
  let node ← entryNode tree entry
  place tree path node

/-- The loop of `extract_archive`: `none` when an entry is rejected or cannot be created. -/
def extractArchive (range : SubidRange) : List Entry → Tree → Option Tree
  | [], tree => some tree
  | entry :: entries, tree =>
    match validateEntry range entry with
    | .error _ => none
    | .ok none => extractArchive range entries tree
    | .ok (some entry) => (extractEntry tree entry).bind (extractArchive range entries)

/-! ## Resolving -/

/-- The links that the kernel follows before it gives up with `ELOOP`. -/
def maxSymlinks : Nat := 40

/-- A path resolution on its way: the links followed, the directory reached and the
    components that are left. -/
structure Walk where
  followed : Nat
  position : Path
  pending : List Text
  deriving DecidableEq, Repr

/-- The walk is about to step above the image root. -/
def Walk.Escapes (walk : Walk) : Prop :=
  walk.position = [] ∧ walk.pending.head? = some "..".toList

instance (walk : Walk) : Decidable walk.Escapes := inferInstanceAs (Decidable (_ ∧ _))

/-- The directory that a link's target is resolved from. -/
def linkBase (directory : Path) (target : Text) : Path :=
  if target.head? = some '/' then [] else directory

/-- The walk that resolves some of the components of a link's target. -/
def followLink (path : Path) (target : Text) (components : List Text) : Walk :=
  ⟨1, linkBase path.dropLast target, components⟩

end MiniContainer.ImageTree
