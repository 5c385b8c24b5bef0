import Mathlib.Data.List.AList
import MiniContainer.ForStd.Interleave
import MiniContainer.Native.Types

/-!
# The machine under the runtime

Everything that the commands and the shims share: the registry below
`/var/lib/minicontainer`, the runtime and log directories, the network resources,
cgroups and the process table. `Op` lists the operations that the code performs on
it, at the granularity of one lock operation, one file read, one step of an atomic
file replacement, one directory entry removed, one look at `/proc` and one resource
set up or cleaned up; `step` says what each of them does.

Whatever the machine decides on its own is part of a `Choice`: the order of
directory entries, random bytes, process IDs, whether a call fails, when a
container exits. A call that cannot happen with a given choice, or that blocks, has
no step.

A scan of the containers directory is one operation. A document is read back as it
was written. In `step` a file that exists can be read; `faultyStep` is the same machine
with reads that may fail.
-/

namespace MiniContainer

open CString (Text)
open JsonC (Value)

/-! ## Documents -/

/-- The name of an entry of the containers directory. -/
abbrev Name := Text

/-- The member `status` of a state document. -/
inductive Status where
  | created
  | running
  | stopped
  | failed
  deriving DecidableEq, Repr

/-- `state.json`. The members whose presence the code tests are options; a document
    without `status` is treated by all readers like a missing file. Process 0 is none. -/
structure StateDoc where
  status : Status
  shimPid : Option Nat
  shimStart : Option Nat
  initPid : Option Nat
  initStart : Option Nat
  exitCode : Nat
  cgroupPath : Option Text
  deriving DecidableEq, Repr

/-- The function that writes a state document: `mc_state_mark_created`, the two calls of
    `write_state`, and `mc_state_reconcile`. -/
inductive Writer where
  | created
  | running
  | final
  | reconcile
  deriving DecidableEq, Repr

/-- The files that `mc_write_atomic` replaces. -/
inductive File where
  | config
  | state
  deriving DecidableEq, Repr

instance instLawfulBEqTemporary : LawfulBEq (File × Nat) := inferInstance

/-- New contents of one of these files. -/
inductive Content where
  | config (document : Value)
  | state (writer : Writer) (document : StateDoc)

def Content.file : Content → File
  | .config _ => .config
  | .state _ _ => .state

/-! ## Container directories -/

/-- The entries of a container's directory. -/
inductive Leaf where
  | config
  | state
  | temporary (file : File) (pid : Nat)
  | lock
  | upper
  | work
  | merged
  deriving DecidableEq, Repr

/-- A container's directory. A temporary file is known by the file it is to replace and
    the process that created it. -/
structure Dir where
  config : Option Value := none
  state : Option StateDoc := none
  temporaries : List (File × Nat) := []
  lock : Bool := false
  upper : Bool := false
  work : Bool := false
  merged : Bool := false

/-- The entries that exist. -/
def Dir.leaves (d : Dir) : List Leaf :=
  (if d.config.isSome then [.config] else []) ++ (if d.state.isSome then [.state] else []) ++
    d.temporaries.map (fun (file, pid) => .temporary file pid) ++
    (if d.lock then [.lock] else []) ++ (if d.upper then [.upper] else []) ++
    (if d.work then [.work] else []) ++ (if d.merged then [.merged] else [])

/-- The directory without an entry. -/
def Dir.unlink (d : Dir) : Leaf → Dir
  | .config => { d with config := none }
  | .state => { d with state := none }
  | .temporary file pid => { d with temporaries := d.temporaries.filter (· ≠ (file, pid)) }
  | .lock => { d with lock := false }
  | .upper => { d with upper := false }
  | .work => { d with work := false }
  | .merged => { d with merged := false }

/-- The directory with one of its two documents replaced. -/
def Dir.install (d : Dir) : Content → Dir
  | .config document => { d with config := some document }
  | .state _ document => { d with state := some document }

/-- The directories that a shim makes for the overlay. -/
inductive OverlayDir where
  | upper
  | work
  | merged
  deriving DecidableEq, Repr

def Dir.make (d : Dir) : OverlayDir → Dir
  | .upper => { d with upper := true }
  | .work => { d with work := true }
  | .merged => { d with merged := true }

/-! ## Processes -/

/-- An entry of the process table. `owner` is the command or shim it belongs to, if any. -/
structure Proc where
  start : Nat
  owner : Option Tid
  deriving DecidableEq, Repr

/-- How far a shim has come: its `running` record is not written yet, it is written, the
    container has exited, the final record is written, the shim is gone. A shim that never
    wrote a `running` record stays `starting` until its final record. -/
inductive Phase where
  | starting
  | running
  | teardown
  | final
  | dead
  deriving DecidableEq, Repr

/-- The readiness channel between a shim and its launcher. -/
inductive Notify where
  | pending
  | sent
  | closed
  deriving DecidableEq, Repr

/-- A shim. -/
structure Shim where
  id : Name
  launcher : Tid
  /-- It was launched under the registry lock. -/
  locked : Bool
  bridge : Bool
  published : Bool
  phase : Phase
  notify : Notify
  deriving DecidableEq, Repr

/-! ## The world -/

/-- What the commands and shims share. -/
structure World where
  /-- The holder of `registry.lock`. -/
  registry : Option Tid := none
  /-- The holders of the `container.lock` files. -/
  containerLocks : Name → Option Tid := fun _ => none
  /-- The containers directory was made. It stays when its last entry is removed. -/
  containers : Bool := false
  dirs : AList (fun _ : Name => Dir) := ∅
  logs : Name → Bool := fun _ => false
  runtimes : Name → Bool := fun _ => false
  /-- The control sockets, with the shims that bound them. -/
  sockets : Name → Option Tid := fun _ => none
  /-- The host ends of the veth pairs, by name. -/
  links : Text → Bool := fun _ => false
  /-- The containers that have packet filter rules. -/
  rules : Name → Bool := fun _ => false
  /-- The payload cgroups that hold processes. -/
  cgroups : Text → Bool := fun _ => false
  procs : Nat → Option Proc := fun _ => none
  pidOf : Tid → Nat := fun _ => 0
  shims : Tid → Option Shim := fun _ => none
  exits : Tid → Option Nat := fun _ => none
  /-- The handles that are or were in use. -/
  used : Tid → Bool := fun _ => false
  /-- The IDs generated so far, with the processes they were generated for. -/
  born : List (Name × Tid) := []
  /-- The containers for which a state was ever recorded. -/
  recorded : Name → Bool := fun _ => false
  /-- The exit code of the last final record, until the container runs again or its record
      is removed. -/
  final : Name → Option Nat := fun _ => none

/-- The name of the host end of a container's veth pair. -/
def linkName (c : Name) : Text := "mch".toList ++ c.take 8

namespace World

open Function (update)

/-- A container's directory. -/
def dir (w : World) (c : Name) : Option Dir := w.dirs.lookup c

theorem mem_keys {w : World} {c : Name} : c ∈ w.dirs.keys ↔ w.dir c ≠ none := by
  rw [← Option.isSome_iff_ne_none]
  exact AList.lookup_isSome.symm

def setDir (w : World) (c : Name) (d : Dir) : World := { w with dirs := w.dirs.insert c d }

def eraseDir (w : World) (c : Name) : World := { w with dirs := w.dirs.erase c }

/-- A stored configuration. -/
def config (w : World) (c : Name) : Option Value := (w.dir c).bind Dir.config

/-- A stored state. -/
def state (w : World) (c : Name) : Option StateDoc := (w.dir c).bind Dir.state

/-- `mc_mkdir_p` of a container's directory. -/
def mkdir (w : World) (c : Name) : World :=
  match w.dir c with
  | some _ => w
  | none => { w.setDir c {} with containers := true }

/-- The start time of the process, 0 if there is none. -/
def startTime (w : World) (pid : Nat) : Nat :=
  match w.procs pid with
  | some p => p.start
  | none => 0

def setPhase (w : World) (t : Tid) (phase : Phase) : World :=
  { w with shims := update w.shims t ((w.shims t).map fun s => { s with phase }) }

def setNotify (w : World) (t : Tid) (notify : Notify) : World :=
  { w with shims := update w.shims t ((w.shims t).map fun s => { s with notify }) }

/-- The readiness channel is closed by its writer; a byte that was sent can still be read. -/
def closeReady (w : World) (t : Tid) : World :=
  match w.shims t with
  | some s => if s.notify = .pending then w.setNotify t .closed else w
  | none => w

/-- What the bookkeeping notes about a replaced file. -/
def recordWrite (w : World) (t : Tid) (c : Name) : Content → World
  | .config _ => w
  | .state .running _ =>
    { w.setPhase t .running with
      recorded := update w.recorded c true
      final := update w.final c none }
  | .state .final doc =>
    { w.setPhase t .final with
      recorded := update w.recorded c true
      final := update w.final c (some doc.exitCode) }
  | .state _ _ => { w with recorded := update w.recorded c true }

/-- The world after a process has ended: its locks are released and its readiness channel
    is closed. -/
def leave (w : World) (t : Tid) (code : Nat) : World :=
  let w := (w.closeReady t).setPhase t .dead
  { w with
    registry := if w.registry = some t then none else w.registry
    containerLocks := fun c => if w.containerLocks c = some t then none else w.containerLocks c
    procs := fun pid => (w.procs pid).map fun p =>
      if p.owner = some t then { p with owner := none } else p
    exits := update w.exits t (some code) }

end World

/-! ## Operations -/

/-- The resources that are cleaned up behind a shim. -/
inductive Resource where
  | work
  | merged
  | control
  | runtime
  | link
  | rules
  deriving DecidableEq, Repr

/-- Who cleans up: `mc_state_reconcile`, or the shim itself. -/
inductive Remover where
  | reconcile
  | shim
  deriving DecidableEq, Repr

/-- Why `/proc` is asked for a start time: by `mc_state_reconcile`, by `mc_state_signal`, and
    by `write_state` for the shim and for the container. -/
inductive Site where
  | reconcile
  | signal
  | writeState
  deriving DecidableEq, Repr

/-- The outcome of `opendir` and the following scan of the containers directory. -/
inductive Listing where
  | absent
  | failed
  | entries (names : List Name)
  deriving DecidableEq, Repr

/-- How a call fails. The three middle ones tell the failures of `mc_write_atomic` in front
    of the replacement apart; `late` is a failure after the effect. -/
inductive Fault where
  | none
  | write
  | sync
  | rename
  | late
  deriving DecidableEq, Repr

/-- The operations of commands and shims. -/
inductive Op where
  | lockRegistry
  | unlockRegistry
  | mkdir (c : Name)
  | lockContainer (c : Name)
  | unlockContainer (c : Name)
  | opendir
  | readConfig (c : Name)
  | readState (c : Name)
  | startTime (site : Site) (c : Name) (pid : Nat)
  | killCgroup (c : Name) (path : Text)
  | createTemporary (c : Name) (content : Content)
  | commit (c : Name) (content : Content)
  | generateId
  | clock
  | bindProbe (p : Publish)
  | walk (c : Name)
  | unlink (c : Name) (leaf : Leaf)
  | rmdir (c : Name)
  | removeLog (c : Name)
  | remove (remover : Remover) (c : Name) (r : Resource)
  | pipe
  | openLog (c : Name)
  | fork (config : RunConfig) (arguments : List Text)
  | awaitReady (s : Tid)
  | waitShim (s : Tid)
  | control (c : Name) (signal : Nat)
  | checkHost
  | createCgroup (c : Name)
  | destroyCgroup (path : Text)
  | makeDir (c : Name) (d : OverlayDir)
  | chown (c : Name)
  | cloneInit
  | mapIds
  | createVeth (c : Name)
  | addRules (c : Name)
  | releaseChild
  | childReady
  | openControl (c : Name)
  | self
  | notify
  | closeReady
  | waitChild
  | exit (code : Nat)

/-- The answers. -/
abbrev Res : Op → Type
  | .lockRegistry | .mkdir _ | .lockContainer _ | .createTemporary _ _ | .bindProbe _ | .unlink _ _
  | .rmdir _ | .removeLog _ | .openLog _ | .awaitReady _ | .checkHost | .makeDir _ _ | .chown _
  | .mapIds | .createVeth _ | .addRules _ | .releaseChild | .childReady | .openControl _
  | .notify => Bool
  | .unlockRegistry | .unlockContainer _ | .killCgroup _ _ | .remove _ _ _ | .destroyCgroup _
  | .closeReady | .exit _ => Unit
  | .opendir => Listing
  | .readConfig _ => Option Value
  | .readState _ => Option StateDoc
  | .startTime _ _ _ | .waitShim _ | .self => Nat
  | .commit _ _ => Fault
  | .generateId => Option ContainerId
  | .clock => UInt64
  | .walk _ => Option (List Leaf)
  | .pipe | .cloneInit => Option Nat
  | .fork _ _ => Option Tid
  | .control _ _ => Option Bool
  | .createCgroup _ => Option Text
  | .waitChild => Option Nat

/-- The choices of the machine in one step. -/
structure Choice where
  fault : Fault := .none
  /-- The order in which a scan lists the containers. -/
  order : List Name → List Name := fun names => names
  /-- The order in which a walk meets the entries of a directory. -/
  walkOrder : List Leaf → List Leaf := fun leaves => leaves
  random : Fin 16 → UInt8 := fun _ => 0
  now : UInt64 := 0
  /-- Of a new process. -/
  tid : Tid := 0
  pid : Nat := 0
  start : Nat := 0
  /-- Of a system call that may go either way. -/
  answer : Bool := true
  fd : Nat := 3
  /-- The exit status of a container, as `mc_container_run` decodes it. -/
  status : Option Nat := some 0

/-! ## Steps -/

namespace World

open Function (update)

/-- The world without one of a container's resources. -/
def clear (w : World) (c : Name) : Resource → World
  | .work =>
    match w.dir c with
    | some d => w.setDir c { d with work := false }
    | none => w
  | .merged =>
    match w.dir c with
    | some d => w.setDir c { d with merged := false }
    | none => w
  | .control => { w with sockets := update w.sockets c none }
  -- a runtime directory that still holds the socket is not empty
  | .runtime => if w.sockets c = none then { w with runtimes := update w.runtimes c false } else w
  | .link => { w with links := update w.links (linkName c) false }
  | .rules => { w with rules := update w.rules c false }

/-- The world with a new process in it. -/
def addProc (w : World) (t : Tid) (pid start : Nat) : World :=
  { w with
    procs := update w.procs pid (some ⟨start, some t⟩)
    pidOf := update w.pidOf t pid
    used := update w.used t true }

/-- The handle and the process ID are free. -/
def canStart (w : World) (t : Tid) (pid start : Nat) : Bool :=
  !w.used t && (w.procs pid).isNone && 0 < pid && 0 < start

end World

/-- The cgroup that `mc_cgroup_create` delegates to a container. -/
def payloadPath (c : Name) : Text :=
  "/sys/fs/cgroup/system.slice/minicontainer-".toList ++ c ++ ".scope/payload".toList

open Function (update) in
/-- What an operation of process `t` answers and does. -/
def step (ch : Choice) (w : World) (t : Tid) : (o : Op) → Option (Res o × World)
  | .lockRegistry =>
    if ch.fault ≠ .none then some (false, w)
    else if w.registry = none then some (true, { w with registry := some t })
    else none
  | .unlockRegistry =>
    some ((), { w with registry := if w.registry = some t then none else w.registry })
  | .mkdir c => if ch.fault ≠ .none then some (false, w) else some (true, w.mkdir c)
  | .lockContainer c =>
    match w.dir c with
    | none => some (false, w)
    | some d =>
      if ch.fault ≠ .none then some (false, w)
      else if w.containerLocks c = none then
        some (true, { w.setDir c { d with lock := true } with
          containerLocks := update w.containerLocks c (some t) })
      else none
  | .unlockContainer c =>
    let holder := if w.containerLocks c = some t then none else w.containerLocks c
    some ((), { w with containerLocks := update w.containerLocks c holder })
  | .opendir =>
    if ch.fault ≠ .none then some (.failed, w)
    else if !w.containers && w.dirs.keys.isEmpty then some (.absent, w)
    else if (ch.order w.dirs.keys).isPerm w.dirs.keys then
      some (.entries (ch.order w.dirs.keys), w)
    else none
  | .readConfig c => some (w.config c, w)
  | .readState c => some (w.state c, w)
  | .startTime _ _ pid => some (w.startTime pid, w)
  | .killCgroup _ path => some ((), { w with cgroups := update w.cgroups path false })
  | .createTemporary c content =>
    match w.dir c with
    | none => some (false, w)
    | some d =>
      -- the file is opened with `O_EXCL`
      if ch.fault ≠ .none ∨ (content.file, w.pidOf t) ∈ d.temporaries then some (false, w)
      else
        some (true, w.setDir c { d with
          temporaries := (content.file, w.pidOf t) :: d.temporaries })
  | .commit c content =>
    match w.dir c with
    | none => some (.rename, w)
    | some d =>
      if (content.file, w.pidOf t) ∉ d.temporaries then some (.rename, w)
      else
        let d := d.unlink (.temporary content.file (w.pidOf t))
        match ch.fault with
        | .none => some (.none, (w.setDir c (d.install content)).recordWrite t c content)
        | .late => some (.late, (w.setDir c (d.install content)).recordWrite t c content)
        | fault => some (fault, w.setDir c d)
  | .generateId =>
    if ch.fault ≠ .none then some (none, w)
    else
      let id := generateId ch.random
      if id.text ∈ w.born.map Prod.fst then none
      else some (some id, { w with born := (id.text, t) :: w.born })
  | .clock => some (ch.now, w)
  | .bindProbe _ => some (ch.answer, w)
  | .walk c =>
    match w.dir c with
    | none => some (none, w)
    | some d =>
      if (ch.walkOrder d.leaves).isPerm d.leaves then some (some (ch.walkOrder d.leaves), w)
      else none
  | .unlink c leaf =>
    match w.dir c with
    | none => some (false, w)
    | some d =>
      if ch.fault ≠ .none ∨ leaf ∉ d.leaves then some (false, w)
      else
        let w := w.setDir c (d.unlink leaf)
        match leaf with
        | .state => some (true, { w with final := update w.final c none })
        | .lock => some (true, { w with containerLocks := update w.containerLocks c none })
        | _ => some (true, w)
  | .rmdir c =>
    match w.dir c with
    | none => some (false, w)
    | some d =>
      if ch.fault ≠ .none ∨ d.leaves ≠ [] then some (false, w) else some (true, w.eraseDir c)
  | .removeLog c =>
    if ch.fault ≠ .none then some (false, w)
    else some (true, { w with logs := update w.logs c false })
  | .remove _ c r => some ((), if ch.fault ≠ .none then w else w.clear c r)
  | .pipe => some (if ch.fault ≠ .none then none else some ch.fd, w)
  | .openLog c =>
    if ch.fault ≠ .none then some (false, w)
    else some (true, { w with logs := update w.logs c true })
  | .fork config _ =>
    if ch.fault ≠ .none then some (none, w)
    else if w.canStart ch.tid ch.pid ch.start then
      some (some ch.tid, { w.addProc ch.tid ch.pid ch.start with
        shims := update w.shims ch.tid (some {
          id := config.id
          launcher := t
          locked := w.registry == some t
          bridge := config.networkBridge
          published := !config.publishes.isEmpty
          phase := .starting
          notify := if config.detach then .pending else .closed }) })
    else none
  | .awaitReady s =>
    match (w.shims s).map Shim.notify with
    | some .sent => some (true, w)
    | some .pending => none
    | _ => some (false, w)
  | .waitShim s =>
    match w.exits s with
    | some code => some (code, w)
    | none => none
  | .control c _ =>
    -- the socket answers while its shim waits for the container
    match (w.sockets c).bind w.shims with
    | some s =>
      if ch.fault = .none ∧ s.phase = .running then some (some ch.answer, w) else some (none, w)
    | none => some (none, w)
  | .checkHost => some (ch.fault == .none, w)
  | .createCgroup c =>
    -- `MC_SKIP_CGROUP` leaves the path empty
    if ch.fault ≠ .none then some (none, w)
    else if ch.answer then
      some (some (payloadPath c), { w with cgroups := update w.cgroups (payloadPath c) true })
    else some (some [], w)
  | .destroyCgroup path => some ((), { w with cgroups := update w.cgroups path false })
  | .makeDir c leaf =>
    if ch.fault ≠ .none then some (false, w)
    else
      match (w.mkdir c).dir c with
      | some d => some (true, (w.mkdir c).setDir c (d.make leaf))
      | none => none
  | .chown _ => some (ch.fault == .none, w)
  | .cloneInit =>
    if ch.fault ≠ .none then some (none, w)
    else if (w.procs ch.pid).isNone ∧ 0 < ch.pid ∧ 0 < ch.start then
      some (some ch.pid, { w with procs := update w.procs ch.pid (some ⟨ch.start, none⟩) })
    else none
  | .mapIds => some (ch.fault == .none, w)
  | .createVeth c =>
    -- an existing link of that name makes the request fail
    match ch.fault, w.links (linkName c) with
    | .none, false => some (true, { w with links := update w.links (linkName c) true })
    | .late, false => some (false, { w with links := update w.links (linkName c) true })
    | _, _ => some (false, w)
  | .addRules c =>
    if ch.fault ≠ .none then some (false, w)
    else some (true, { w with rules := update w.rules c true })
  | .releaseChild => some (ch.fault == .none, w)
  | .childReady => some (ch.answer, w)
  | .openControl c =>
    match ch.fault with
    | .none => some (true, { w with
        runtimes := update w.runtimes c true
        sockets := update w.sockets c (some t) })
    | .late => some (false, { w with
        runtimes := update w.runtimes c true
        sockets := update w.sockets c none })
    | _ => some (false, w)
  | .self => some (w.pidOf t, w)
  | .notify => if ch.fault ≠ .none then some (false, w) else some (true, w.setNotify t .sent)
  | .closeReady => some ((), w.closeReady t)
  | .waitChild =>
    some (ch.status, if (w.shims t).map Shim.phase = some .running then w.setPhase t .teardown
      else w)
  | .exit code => some ((), w.leave t code)

/-- `step`, where a read may fail too. All readers take a document that cannot be read for one
    that is not there, and a process that cannot be looked at for one that has ended. -/
def faultyStep (ch : Choice) (w : World) (t : Tid) : (o : Op) → Option (Res o × World)
  | .readConfig c => some (if ch.fault = .none then w.config c else none, w)
  | .readState c => some (if ch.fault = .none then w.state c else none, w)
  | .startTime _ _ pid => some (if ch.fault = .none then w.startTime pid else 0, w)
  | o => step ch w t o

/-- The environment gives a process ID that no command or shim has to another process, or
    lets its process end. -/
def envStep (ch : Choice) (w : World) : Option World :=
  match (w.procs ch.pid).bind Proc.owner with
  | some _ => none
  | none =>
    let entry := if ch.answer then some ⟨ch.start, none⟩ else none
    some { w with procs := Function.update w.procs ch.pid entry }

end MiniContainer
