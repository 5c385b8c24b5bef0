import Mathlib.Logic.Function.Basic
import MiniContainer.Native.Types

/-!
# Atomic replacement of a file

`mc_write_atomic` of `util/fs.c` call by call, on a file system that a crash may set back.

* the data of a file is safe from a crash once the file was synchronised
* a name may be found bound as it was at any time since its directory was last
  synchronised (`Fs.history`)

The function is a state machine: `next` performs its next system call, with an `Answer` for
what the system decides, so a call can be interrupted at every stage. `mode` is left out.
-/

namespace MiniContainer.AtomicWrite

open CString (Text)
open Function (update)

/-! ## The file system -/

abbrev Bytes := List UInt8

structure Fs where
  /-- The names, with their inodes. -/
  entries : Text → Option Nat
  /-- What each name was bound to since its directory was synchronised, the present binding
      included. -/
  history : Text → List (Option Nat)
  contents : Nat → Bytes
  /-- The data of the inode is on the disk. -/
  synced : Nat → Bool
  /-- The next inode. -/
  nextFile : Nat

namespace Fs

/-- What a reader of the path finds. -/
def observe (fs : Fs) (path : Text) : Option Bytes := (fs.entries path).map fs.contents

/-- A name is bound or unbound. -/
def bind (fs : Fs) (path : Text) (entry : Option Nat) : Fs :=
  { fs with
    entries := update fs.entries path entry
    history := update fs.history path (entry :: fs.history path) }

/-- `open` with `O_CREAT` and `O_EXCL`. There is no data to lose in a new file. -/
def create (fs : Fs) (path : Text) : Fs :=
  { fs.bind path (some fs.nextFile) with
    contents := update fs.contents fs.nextFile []
    synced := update fs.synced fs.nextFile true
    nextFile := fs.nextFile + 1 }

/-- `write` at the end of the file. -/
def append (fs : Fs) (file : Nat) (bytes : Bytes) : Fs :=
  { fs with
    contents := update fs.contents file (fs.contents file ++ bytes)
    synced := update fs.synced file (fs.synced file && bytes.isEmpty) }

/-- `fsync` of a file. -/
def sync (fs : Fs) (file : Nat) : Fs := { fs with synced := update fs.synced file true }

/-- `rename`. Two names of one file are left as they are. -/
def rename (fs : Fs) (source target : Text) : Fs :=
  if fs.entries source = fs.entries target then fs
  else (fs.bind source none).bind target (fs.entries source)

/-- The directory of a path, as the source cuts it off. -/
def directory (path : Text) : Text :=
  match path.reverse.dropWhile (· ≠ '/') with
  | [] => ".".toList
  | [_] => "/".toList
  | _ :: parent => parent.reverse

/-- `fsync` of a directory. -/
def syncDirectory (fs : Fs) (dir : Text) : Fs :=
  { fs with history := fun path =>
      if directory path = dir then [fs.entries path] else fs.history path }

/-- What may be found after a crash. -/
structure Recovers (fs fs' : Fs) : Prop where
  entries : ∀ path, fs'.entries path ∈ fs.history path
  contents : ∀ file, fs.synced file = true → fs'.contents file = fs.contents file

end Fs

/-! ## The function -/

/-- The arguments, and the process that calls. -/
structure Request where
  path : Text
  data : Bytes
  pid : Nat

/-- The buffer `temporary` behind `snprintf`. -/
def Request.temporary (r : Request) : Text :=
  CString.snprintf pathMax (r.path ++ ".tmp.".toList ++ CString.decimal r.pid)

/-- Where the function is: in front of a system call, or behind its `return`. `discard` is the
    end of the error paths that remove the temporary file. -/
inductive Stage where
  | create
  | write (file written : Nat)
  | syncFile (file : Nat)
  | close (file : Nat)
  | rename
  | openDirectory
  | syncDirectory
  | closeDirectory
  | discard (e : McError)
  | returned (result : Except McError Unit)

structure State where
  fs : Fs
  stage : Stage

/-- What the system decides about a call: whether it fails, and how much a `write` takes. -/
structure Answer where
  fault : Bool := false
  count : Nat := 0

def writeError (r : Request) (message : String) : McError :=
  errorSet .runtime .system "atomic-write" r.path message

def directoryError (r : Request) : McError :=
  errorSet .runtime .system "atomic-write" (Fs.directory r.path) "cannot sync parent directory"

/-- The next call of `mc_write_atomic`. -/
def next (r : Request) (answer : Answer) (s : State) : Option State :=
  let fs := s.fs
  match s.stage with
  | .create =>
    -- the buffer is never longer than that, whatever was cut off
    if pathMax ≤ r.temporary.length then
      some ⟨fs, .returned (.error (errorSet .internal .enametoolong "atomic-write" r.path
        "temporary path is too long"))⟩
    else if answer.fault ∨ fs.entries r.temporary ≠ none then
      some ⟨fs, .returned (.error (writeError r "cannot create temporary file"))⟩
    else some ⟨fs.create r.temporary, .write fs.nextFile 0⟩
  | .write file written =>
    if written < r.data.length then
      if answer.fault then some ⟨fs, .discard (writeError r "write failed")⟩
      else
        let bytes := (r.data.drop written).take answer.count
        some ⟨fs.append file bytes, .write file (written + bytes.length)⟩
    else some ⟨fs, .syncFile file⟩
  | .syncFile file =>
    if answer.fault then some ⟨fs, .discard (writeError r "file sync failed")⟩
    else some ⟨fs.sync file, .close file⟩
  | .close _ =>
    if answer.fault then some ⟨fs, .discard (writeError r "atomic rename failed")⟩
    else some ⟨fs, .rename⟩
  | .rename =>
    if answer.fault ∨ fs.entries r.temporary = none then
      some ⟨fs, .discard (writeError r "atomic rename failed")⟩
    else if pathMax ≤ r.path.length then
      some ⟨fs.rename r.temporary r.path, .returned (.error (errorSet .internal .enametoolong
        "atomic-write" r.path "parent directory path is too long"))⟩
    else some ⟨fs.rename r.temporary r.path, .openDirectory⟩
  | .openDirectory =>
    if answer.fault then some ⟨fs, .returned (.error (directoryError r))⟩
    else some ⟨fs, .syncDirectory⟩
  | .syncDirectory =>
    if answer.fault then some ⟨fs, .returned (.error (directoryError r))⟩
    else some ⟨fs.syncDirectory (Fs.directory r.path), .closeDirectory⟩
  | .closeDirectory =>
    if answer.fault then some ⟨fs, .returned (.error (directoryError r))⟩
    else some ⟨fs, .returned (.ok ())⟩
  | .discard e =>
    -- the temporary file may be left behind
    if answer.fault then some ⟨fs, .returned (.error e)⟩
    else some ⟨fs.bind r.temporary none, .returned (.error e)⟩
  | .returned _ => none

end MiniContainer.AtomicWrite
