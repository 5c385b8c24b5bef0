import MiniContainer.Native.Archive
import MiniContainer.Native.Parse
import MiniContainer.Native.Store

/-!
# The image store

`mc_image_import` and `mc_image_resolve`, with `mc_write_atomic` at the level of its
system calls, as programs over the part of the file system below
`/var/lib/minicontainer/images`. Any number of them run side by side; each may fail or
be killed between any two calls.

A file is known by its inode, so that a writer keeps writing to the file that it
opened when the file's name goes to another one. The root file system of an image is
the sequence of the entries that were extracted into it. What SHA-256 and `libarchive`
make of an archive is a parameter.
-/

namespace MiniContainer.Image

open CString (Text decimal)
open Function (update)

/-! ## Names and records -/

/-- A SHA-256 digest as `archive_digest` prints it. -/
@[ext]
structure Digest where
  text : Text
  length_text : text.length = 64
  hex : ∀ c ∈ text, isHexDigit c = true
  deriving Repr

instance instDecidableEqDigest : DecidableEq Digest := fun a b =>
  decidable_of_iff (a.text = b.text) Digest.ext_iff.symm

/-- The 64 digits of 32 bytes. -/
def hexDigest (bytes : Fin 32 → UInt8) : Digest where
  text := (List.ofFn bytes).flatMap hexByte
  length_text := by
    simp [hexByte]
  hex := by
    intro c hc
    obtain ⟨b, -, hc⟩ := List.mem_flatMap.mp hc
    exact isHexDigit_of_mem_hexByte hc

/-- An archive in the file system. It does not change while it is imported. -/
structure ArchiveFile where
  path : Text
  bytes : List UInt8
  deriving DecidableEq, Repr

/-- What the libraries make of the bytes of an archive. -/
structure Libraries where
  sha256 : List UInt8 → Fin 32 → UInt8
  /-- The entries that `archive_read_next_header` returns, and whether the archive ends
      behind them as it should. -/
  read : List UInt8 → List Entry × Bool
  /-- The text of `archive_error_string`. -/
  errorString : String

def Libraries.digest (lib : Libraries) (archive : List UInt8) : Digest :=
  hexDigest (lib.sha256 archive)

/-- The directories below `images`: `names`, `sha256`, and in the latter the images and the
    directories in which they are put together. -/
inductive Folder where
  | names
  | digests
  | image (digest : Text)
  | staging (digest : Text) (pid : Nat)
  deriving DecidableEq, Repr

/-- The path of a file. -/
structure Path where
  folder : Folder
  leaf : Text
  deriving DecidableEq, Repr

def imagesDir : Text := stateDir ++ "/images".toList

def Folder.text : Folder → Text
  | .names => imagesDir ++ "/names".toList
  | .digests => imagesDir ++ "/sha256".toList
  | .image digest => imagesDir ++ "/sha256/".toList ++ digest
  | .staging digest pid =>
    imagesDir ++ "/sha256/".toList ++ digest ++ ".import.".toList ++ decimal pid

def Path.text (p : Path) : Text := p.folder.text ++ '/' :: p.leaf

/-- The name that `mc_write_atomic` gives to a temporary file. -/
def temporaryName (leaf : Text) (pid : Nat) : Text := leaf ++ ".tmp.".toList ++ decimal pid

def Path.temporary (p : Path) (pid : Nat) : Path := { p with leaf := temporaryName p.leaf pid }

/-- `.complete` of an image. -/
def markerLeaf : Text := ".complete".toList

/-- The path that an import reports and a reference resolves to. -/
def rootfsPath (digest : Text) : Text := (Folder.image digest).text ++ "/rootfs".toList

/-- The contents of a name record. -/
def record (digest : Text) : Text := "sha256:".toList ++ digest ++ ['\n']

/-! ## The file system -/

/-- What a process is asked to do. -/
inductive Cmd where
  | imageImport (name : Text) (archive : ArchiveFile)
  | imageResolve (name : Text)
  deriving DecidableEq, Repr

/-- What the processes share. -/
structure World where
  folders : Folder → Bool := fun _ => false
  /-- The names of the files of each directory, with their inodes. -/
  files : Folder → AList (fun _ : Text => Nat) := fun _ => ∅
  contents : Nat → Text := fun _ => []
  /-- The next inode. -/
  nextFile : Nat := 0
  /-- The directory `rootfs` of each directory: the entries that were extracted there. -/
  rootfs : Folder → Option (List Entry) := fun _ => none
  /-- The processes that run, by their process IDs. -/
  live : Nat → Option Tid := fun _ => none
  pidOf : Tid → Nat := fun _ => 0
  /-- What the processes were started for, those that have ended included. -/
  requests : Tid → Option Cmd := fun _ => none
  /-- What the processes have returned. -/
  finished : Tid → Option (Except McError Text) := fun _ => none
  /-- The processes that created the files. -/
  creator : Nat → Tid := fun _ => 0
  /-- The files that a rename has put into their final place. -/
  placed : Nat → Bool := fun _ => false
  /-- The processes whose renames have installed the name records last. -/
  installed : Text → Option Tid := fun _ => none
  /-- The imports that have last found an image missing. -/
  builder : Text → Option Tid := fun _ => none
  /-- The processes that had returned when a process was started. -/
  before : Tid → Tid → Bool := fun _ _ => false

/-- The file that a path leads to. -/
def World.entry (w : World) (p : Path) : Option Nat := (w.files p.folder).lookup p.leaf

/-- The path leads to this file from now on. -/
def World.link (w : World) (p : Path) (file : Nat) : World :=
  { w with files := update w.files p.folder ((w.files p.folder).insert p.leaf file) }

/-- The path leads nowhere from now on. -/
def World.unlink (w : World) (p : Path) : World :=
  { w with files := update w.files p.folder ((w.files p.folder).erase p.leaf) }

/-- The directory has no entries. -/
def World.isEmpty (w : World) (f : Folder) : Bool :=
  (w.files f).keys.isEmpty && (w.rootfs f).isNone

/-! ## System calls -/

/-- The calls of `archive_digest`. -/
inductive DigestStage where
  | start
  | data
  | final
  deriving DecidableEq, Repr

inductive Op where
  | stat
  | digest (stage : DigestStage)
  | subidRange
  | getpid
  | mkdir (f : Folder)
  | mkdirRootfs (f : Folder)
  | accessMarker (digest : Text)
  | accessImage (digest : Text)
  | accessRecorded (digest : Text)
  | chown (f : Folder)
  | openArchive
  | nextHeader
  | extract (f : Folder) (e : Entry)
  | restoreDirectory
  | chmod (f : Folder)
  | publish (digest : Text) (pid : Nat)
  | create (p : Path)
  | write (file : Nat) (data : Text)
  | sync
  | rename (source target : Path)
  | unlink (p : Path)
  | syncDirectory
  | openName (name : Text)
  | read (file : Nat)
  | finish (result : Except McError Text)

abbrev Res : Op → Type
  | .stat | .digest _ | .mkdir _ | .mkdirRootfs _ | .accessMarker _ | .accessImage _
  | .accessRecorded _ | .chown _ | .openArchive | .nextHeader | .extract _ _ | .restoreDirectory
  | .chmod _ | .publish _ _ | .write _ _ | .sync | .rename _ _ | .syncDirectory => Bool
  | .subidRange => Option SubidRange
  | .getpid => Nat
  | .create _ | .openName _ => Option Nat
  | .read _ => Option Text
  | .unlink _ | .finish _ => Unit

/-- The choices of the machine in one step. -/
structure Choice where
  /-- The call fails. -/
  fault : Bool := false
  /-- How much a failing call has done before. -/
  written : Nat := 0
  range : SubidRange := ⟨100000, 100000⟩
  /-- Of a new process. -/
  pid : Nat := 0

/-- The image directory takes the place of the staging directory. -/
def World.publish (w : World) (digest : Text) (pid : Nat) : World :=
  { w with
    folders := update (update w.folders (.staging digest pid) false) (.image digest) true
    files := update (update w.files (.staging digest pid) ∅) (.image digest)
      (w.files (.staging digest pid))
    rootfs := update (update w.rootfs (.staging digest pid) none) (.image digest)
      (w.rootfs (.staging digest pid)) }

/-- What `rename` does with a file, and what the bookkeeping notes about it. -/
def World.rename (w : World) (t : Tid) (source target : Path) (file : Nat) : World :=
  { (w.unlink source).link target file with
    placed := update w.placed file true
    installed :=
      if target.folder = .names then update w.installed target.leaf (some t) else w.installed }

/-- The process has ended. -/
def World.leave (w : World) (t : Tid) : World :=
  { w with live := fun pid => if w.live pid = some t then none else w.live pid }

/-- What a call of process `t` answers and does. -/
def effect (ch : Choice) (w : World) (t : Tid) : (o : Op) → Res o × World
  | .stat | .digest _ | .chown _ | .openArchive | .nextHeader | .restoreDirectory | .chmod _
  | .sync | .syncDirectory => (!ch.fault, w)
  | .subidRange => (if ch.fault then none else some ch.range, w)
  | .getpid => (w.pidOf t, w)
  | .mkdir f =>
    if ch.fault then (false, w) else (true, { w with folders := update w.folders f true })
  | .mkdirRootfs f =>
    if ch.fault || !w.folders f then (false, w)
    else (true, { w with rootfs := update w.rootfs f (some ((w.rootfs f).getD [])) })
  | .accessMarker digest =>
    if ch.fault || (w.entry ⟨.image digest, markerLeaf⟩).isNone then
      (false, { w with builder := update w.builder digest (some t) })
    else (true, w)
  | .accessRecorded digest =>
    (!ch.fault && (w.entry ⟨.image digest, markerLeaf⟩).isSome, w)
  | .accessImage digest => (!ch.fault && w.folders (.image digest), w)
  | .extract f e =>
    match w.rootfs f with
    | none => (false, w)
    | some tree =>
      let w' := { w with rootfs := update w.rootfs f (some (tree ++ [e])) }
      if !ch.fault then (true, w') else (false, if ch.written = 0 then w else w')
  | .publish digest pid =>
    if ch.fault || !w.folders (.staging digest pid) then (false, w)
    else if w.folders (.image digest) && !w.isEmpty (.image digest) then (false, w)
    else (true, w.publish digest pid)
  | .create p =>
    -- the file is opened with `O_EXCL`
    if ch.fault || !w.folders p.folder || (w.entry p).isSome then (none, w)
    else
      (some w.nextFile, { w.link p w.nextFile with
        contents := update w.contents w.nextFile []
        creator := update w.creator w.nextFile t
        nextFile := w.nextFile + 1 })
  | .write file data =>
    let done := if ch.fault then data.take ch.written else data
    (!ch.fault, { w with contents := update w.contents file (w.contents file ++ done) })
  | .rename source target =>
    match w.entry source with
    | none => (false, w)
    | some file => if ch.fault then (false, w) else (true, w.rename t source target file)
  | .unlink p => ((), if ch.fault then w else w.unlink p)
  | .openName name => (if ch.fault then none else w.entry ⟨.names, name⟩, w)
  | .read file => (if ch.fault then none else some (w.contents file), w)
  | .finish result => ((), { w.leave t with finished := update w.finished t (some result) })

/-! ## Programs -/

abbrev Action := Prog Op Res

/-- A program that may report an error instead of a result. -/
abbrev Attempt := ExceptT McError Action

def perform (o : Op) : Action (Res o) := Prog.perform o

/-- A call that answers whether it succeeded. -/
def check (p : Action Bool) (e : McError) : Attempt Unit := do
  if ← p then return () else throw e

/-- The ways out of `mc_write_atomic` that remove the temporary file. -/
def discard (temporary : Path) (e : McError) : Attempt Unit := do
  perform (.unlink temporary)
  throw e

/-- The part of `mc_write_atomic` behind the data. -/
def writeAtomicEnd (path temporary : Path) : Attempt Unit := do
  if ← perform .sync then
    if ← perform (.rename temporary path) then
      check (perform .syncDirectory) (errorSet .runtime .system "atomic-write" path.folder.text
        "cannot sync parent directory")
    else discard temporary (errorSet .runtime .system "atomic-write" path.text
      "atomic rename failed")
  else discard temporary (errorSet .runtime .system "atomic-write" path.text "file sync failed")

/-- `mc_write_atomic`. -/
def writeAtomic (path : Path) (data : Text) : Attempt Unit := do
  let pid ← perform .getpid
  match ← perform (.create (path.temporary pid)) with
  | none => throw (errorSet .runtime .system "atomic-write" path.text
      "cannot create temporary file")
  | some file =>
    if ← perform (.write file data) then writeAtomicEnd path (path.temporary pid)
    else discard (path.temporary pid) (errorSet .runtime .system "atomic-write" path.text
      "write failed")

/-- `archive_digest`, as far as it can fail. -/
def archiveDigest (archive : ArchiveFile) : Attempt Unit := do
  check (perform (.digest .start)) (errorSet .runtime .system "image-digest" archive.path
    "cannot initialize SHA-256")
  check (perform (.digest .data)) (errorSet .internal .zero "image-digest" archive.path
    "SHA-256 update failed")
  check (perform (.digest .final)) (errorSet .runtime .system "image-digest" archive.path
    "SHA-256 finalization failed")

/-- The loop of `extract_archive`. -/
def extractEntries (lib : Libraries) (archive : ArchiveFile) (f : Folder) (range : SubidRange)
    (intact : Bool) : List Entry → Attempt Unit
  | [] => do
    let ended ← perform .nextHeader
    if ended && intact then return ()
    else throw (errorSet .runtime .zero "image-import" archive.path lib.errorString)
  | e :: es => do
    if ← perform .nextHeader then
      match validateEntry range e with
      | .error error => throw error
      | .ok none => extractEntries lib archive f range intact es
      | .ok (some e') =>
        if ← perform (.extract f e') then extractEntries lib archive f range intact es
        else throw (errorSet .runtime .zero "image-import" (e'.pathname.getD []) lib.errorString)
    else throw (errorSet .runtime .zero "image-import" archive.path lib.errorString)

/-- The part of `extract_archive` in front of its cleanup. -/
def extractBody (lib : Libraries) (archive : ArchiveFile) (f : Folder) (range : SubidRange) :
    Attempt Unit := do
  check (perform .openArchive) (errorSet .runtime .system "image-import" archive.path
    "cannot open archive or destination")
  extractEntries lib archive f range (lib.read archive.bytes).2 (lib.read archive.bytes).1

/-- `extract_archive`. -/
def extractArchive (lib : Libraries) (archive : ArchiveFile) (f : Folder) (range : SubidRange) :
    Attempt Unit := do
  let result ← ExceptT.lift (extractBody lib archive f range).run
  let restored ← perform .restoreDirectory
  match result with
  | .error e => throw e
  | .ok () =>
    if restored then return ()
    else throw (errorSet .runtime .system "image-import" (f.text ++ "/rootfs".toList)
      "cannot restore working directory")

/-- `mc_mkdir_p` of the directory in which an image is put together. -/
def makeStaging (f : Folder) : Attempt Unit := do
  check (perform (.mkdir f)) (errorSet .runtime .system "mkdir" f.text "cannot create directory")
  check (perform (.mkdirRootfs f)) (errorSet .runtime .system "mkdir" (f.text ++ "/rootfs".toList)
    "cannot create directory")

/-- An error record that nothing was written to. -/
def unsetError : McError := ⟨.ok, .zero, [], [], []⟩

/-- The image is put together and published. -/
def publishImage (lib : Libraries) (archive : ArchiveFile) (range : SubidRange) (digest : Text) :
    Attempt Unit := do
  let publishError := errorSet .runtime .system "image-import" (Folder.image digest).text
    "cannot publish immutable image"
  let pid ← perform .getpid
  makeStaging (.staging digest pid)
  -- a failing `chown` is not reported
  check (perform (.chown (.staging digest pid))) unsetError
  extractArchive lib archive (.staging digest pid) range
  writeAtomic ⟨.staging digest pid, markerLeaf⟩ digest
  check (perform (.chmod (.staging digest pid))) publishError
  check (perform (.chmod (.staging digest pid))) publishError
  check (perform (.publish digest pid)) publishError

/-- The image is there, or it is put together now. -/
def ensureImage (lib : Libraries) (archive : ArchiveFile) (range : SubidRange) (digest : Text) :
    Attempt Unit := do
  if ← perform (.accessMarker digest) then return ()
  else if ← perform (.accessImage digest) then
    throw (errorSet .conflict .zero "image-import" (Folder.image digest).text
      "incomplete image directory already exists; run garbage collection")
  else publishImage lib archive range digest

/-- `mc_subid_range`. -/
def subidRange : Attempt SubidRange := do
  match ← perform .subidRange with
  | some range => return range
  | none => throw (errorSet .prerequisite .system "subordinate-ids" "minicontainer".toList
      "a dedicated 65536-ID UID/GID range is required")

/-- `mc_mkdir_p` of a directory that all images share. -/
def makeShared (f : Folder) : Attempt Unit :=
  check (perform (.mkdir f)) (errorSet .runtime .system "mkdir" f.text "cannot create directory")

/-- `mc_image_import`. The answer is the member `rootfs` of the result. -/
def imageImport (lib : Libraries) (name : Text) (archive : ArchiveFile) : Attempt Text :=
  if !validName name then
    throw (errorSet .usage .zero "image-import" name "invalid image name")
  else do
    check (perform .stat) (errorSet .notFound .system "image-import" archive.path
      "archive is not a regular file")
    archiveDigest archive
    let digest := (lib.digest archive.bytes).text
    let range ← subidRange
    makeShared .digests
    makeShared .names
    ensureImage lib archive range digest
    writeAtomic ⟨.names, name⟩ (record digest)
    return rootfsPath digest

/-- The digest in the first 79 bytes of a name record. -/
def parseRecord (content : Text) : Option Text :=
  let line := (content.take 79).takeWhile fun c => c != '\r' && c != '\n'
  if line.length = 71 ∧ "sha256:".toList.isPrefixOf line then some (line.drop 7) else none

/-- `mc_image_resolve`. -/
def imageResolve (name : Text) : Attempt Text :=
  if !validName name then
    throw (errorSet .usage .zero "image-resolve" name "invalid image name")
  else do
    match ← perform (.openName name) with
    | none => throw (errorSet .notFound .system "image-resolve" name "image name does not exist")
    | some file =>
      match ← perform (.read file) with
      | none => throw (errorSet .runtime .system "image-resolve" name "cannot read image record")
      | some content =>
        match parseRecord content with
        | none => throw (errorSet .runtime .zero "image-resolve" name
            "image record has an invalid digest")
        | some digest =>
          if ← perform (.accessRecorded digest) then return rootfsPath digest
          else throw (errorSet .runtime .system "image-resolve" name "image is incomplete")

/-! ## The machine -/

/-- The program of a process. -/
def prog (lib : Libraries) : Cmd → Action Unit
  | .imageImport name archive => do perform (.finish (← (imageImport lib name archive).run))
  | .imageResolve name => do perform (.finish (← (imageResolve name).run))

/-- A new process, whose ID no process has that runs. -/
def enter (ch : Choice) (w : World) (t : Tid) (c : Cmd) : Option World :=
  if (w.live ch.pid).isNone ∧ (w.requests t).isNone then
    some { w with
      live := update w.live ch.pid (some t)
      pidOf := update w.pidOf t ch.pid
      requests := update w.requests t (some c)
      before := update w.before t fun u => (w.finished u).isSome }
  else none

/-- Any number of imports and resolutions side by side. -/
def machine (lib : Libraries) : Machine Op Res Unit World Choice Cmd where
  step ch w t o := some (effect ch w t o)
  spawn _ _ := none
  prog := prog lib
  enter := enter
  kill := World.leave
  killed := ()
  env _ _ := none

/-- An empty store and no process. -/
def initialSystem : Sys Op Res Unit World := ⟨{}, fun _ => none⟩

end MiniContainer.Image
