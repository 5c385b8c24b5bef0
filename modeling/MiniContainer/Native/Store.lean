import MiniContainer.Native.ConfigJson
import MiniContainer.Native.World

/-!
# The registry

`state/store.c` and the atomic replacement of files in `util/fs.c`: locks, stored
configurations and states, reference resolution, address allocation and
reconciliation, as programs over the operations of the machine.

A function that returns -1 and fills in an error is an `Attempt`. The chains of
calls joined by `||` in the source are sequences of attempts, which end at the
first one that fails.
-/

namespace MiniContainer

open CString (Text strstr)
open JsonC (Value toU8 toU16 toU32)

/-! ## Attempts -/

/-- A program over the operations of the machine. -/
abbrev Action (α : Type) := Prog Op Res α

/-- One operation. -/
def perform (o : Op) : Action (Res o) := Prog.perform o

/-- A program that may report an error instead of a result. -/
def Attempt (α : Type) : Type := Action (Except McError α)

namespace Attempt

variable {α β : Type}

/-- The program behind an attempt. -/
def run (p : Attempt α) : Action (Except McError α) := p

/-- What follows an attempt that succeeded. -/
def next (f : α → Attempt β) : Except McError α → Attempt β
  | .ok a => f a
  | .error e => Prog.ret (.error e)

instance : Monad Attempt where
  pure a := Prog.ret (.ok a)
  bind p f := Prog.bind p (next f)

instance : MonadLift (Prog Op Res) Attempt where
  monadLift p := Prog.bind p fun a => Prog.ret (.ok a)

def fail (e : McError) : Attempt α := Prog.ret (.error e)

/-- An attempt whose error is overwritten. -/
def reportAs (p : Attempt α) (e : McError) : Attempt α :=
  Prog.bind p fun
    | .ok a => Prog.ret (.ok a)
    | .error _ => Prog.ret (.error e)

/-- An operation that answers whether it succeeded. -/
def check (p : Action Bool) (e : McError) : Attempt Unit :=
  Prog.bind p fun ok => Prog.ret (if ok then .ok () else .error e)

end Attempt

/-! ## Paths -/

/-- `mc_state_dir()`, without the override. -/
def stateDir : Text := "/var/lib/minicontainer".toList

def containersDir : Text := stateDir ++ "/containers".toList

/-- `make_path`. -/
def makePath (c : Name) (leaf : Text) : Text := containersDir ++ '/' :: (c ++ '/' :: leaf)

def File.name : File → Text
  | .config => "config.json".toList
  | .state => "state.json".toList

/-! ## Atomic replacement and locks -/

/-- The message of `mc_write_atomic` for a failure behind the creation of the temporary
    file. -/
def Fault.message : Fault → String
  | .none => ""
  | .write => "write failed"
  | .sync => "file sync failed"
  | .rename => "atomic rename failed"
  | .late => "cannot sync parent directory"

/-- `mc_write_atomic`. -/
def writeAtomic (c : Name) (content : Content) : Attempt Unit := do
  let path := makePath c content.file.name
  Attempt.check (perform (.createTemporary c content))
    (errorSet .runtime .system "atomic-write" path "cannot create temporary file")
  match ← perform (.commit c content) with
  | .none => return ()
  | .late => Attempt.fail (errorSet .runtime .system "atomic-write"
      (containersDir ++ '/' :: c) Fault.late.message)
  | fault => Attempt.fail (errorSet .runtime .system "atomic-write" path fault.message)

/-- `mc_state_registry_lock`. -/
def registryLock : Attempt Unit :=
  Attempt.check (perform .lockRegistry) (errorSet .runtime .system "state-lock"
    (stateDir ++ "/registry.lock".toList) "cannot acquire exclusive lifecycle lock")

/-- `mc_state_container_lock`. -/
def containerLock (c : Name) : Attempt Unit := do
  Attempt.check (perform (.mkdir c)) (errorSet .runtime .system "mkdir" (makePath c [])
    "cannot create directory")
  Attempt.check (perform (.lockContainer c)) (errorSet .runtime .system "state-lock"
    (makePath c "container.lock".toList) "cannot acquire exclusive lifecycle lock")

/-! ## Saving -/

/-- The entry is not looked at by any scan. -/
def hiddenEntry (d : Name) : Bool := d.head? == some '.'

/-- `strcmp` takes the member `name` of a stored configuration for this text. -/
def hasName (document : Option Value) (name : Text) : Bool :=
  match document with
  | none => false
  | some root => ((root.getEx "name").bind Value.getString).map untilNul == some name

/-- The loop that `name_is_taken` and `published_port_is_taken` share: a configuration of
    another container is found. -/
def anyConfigIn (found : Option Value → Bool) (own : Name) : List Name → Action Bool
  | [] => return false
  | d :: ds =>
    if hiddenEntry d ∨ d = own then anyConfigIn found own ds
    else do
      let document ← perform (.readConfig d)
      if found document then return true else anyConfigIn found own ds

/-- The scan around this loop. An unreadable registry counts as a match. -/
def anyConfig (found : Option Value → Bool) (own : Name) : Action Bool := do
  match ← perform .opendir with
  | .absent => return false
  | .failed => return true
  | .entries names => anyConfigIn found own names

/-- `name_is_taken`. -/
def nameIsTaken (name : Option Text) (own : Name) : Action Bool :=
  match name with
  | none => return false
  | some name => anyConfig (hasName · name) own

/-- A stored entry of a publish list collides with a requested one. Only three of its members
    are looked at. -/
def collides (requested : Publish) (published : Value) : Bool :=
  match published.getEx "host_ipv4", published.getEx "host_port", published.getEx "protocol" with
  | some hostIpv4, some hostPort, some protocol =>
    requested.overlaps
      ⟨toU32 hostIpv4.getInt64, toU16 hostPort.getInt, 0, toU8 protocol.getInt⟩
  | _, _, _ => false

/-- A stored configuration publishes a requested port. -/
def publishesAny (requested : List Publish) (document : Option Value) : Bool :=
  match document.bind (getArray · "publishes") with
  | none => false
  | some array => array.any fun published => requested.any (collides · published)

/-- `published_port_is_taken`. -/
def publishedPortIsTaken (config : RunConfig) : Action Bool :=
  if config.publishes = [] then return false
  else anyConfig (publishesAny config.publishes) config.id

/-- The loop over `host_port_is_available`. -/
def hostPortsAreAvailable : List Publish → Action Bool
  | [] => return true
  | p :: ps => do
    if ← perform (.bindProbe p) then hostPortsAreAvailable ps else return false

/-- `MC_VERSION` and `MC_GIT_COMMIT`. -/
structure Build where
  version : Text
  gitCommit : Text

/-- `mc_state_save_config`. -/
def saveConfig (build : Build) (config : RunConfig) (image : Text) : Attempt Unit := do
  if ← nameIsTaken config.name config.id then
    Attempt.fail (errorSet .conflict .eexist "save-config" (config.name.getD [])
      "container name already exists")
  else if ← publishedPortIsTaken config then
    Attempt.fail (errorSet .conflict .eaddrinuse "save-config" config.id
      "published host address and port already exists")
  else if !(← hostPortsAreAvailable config.publishes) then
    Attempt.fail (errorSet .conflict .eaddrinuse "save-config" config.id
      "published host address and port is already bound")
  else
    let now ← perform .clock
    Attempt.check (perform (.mkdir config.id)) (errorSet .runtime .system "mkdir"
      (makePath config.id []) "cannot create directory")
    writeAtomic config.id (.config (configJson ⟨build.version, build.gitCommit, now⟩ config image))

/-- The document of `mc_state_mark_created`. -/
def createdDoc : StateDoc where
  status := .created
  shimPid := some 0
  shimStart := some 0
  initPid := some 0
  initStart := some 0
  exitCode := 0
  cgroupPath := some []

/-- `mc_state_mark_created`. -/
def markCreated (id : Name) : Attempt Unit := writeAtomic id (.state .created createdDoc)

/-! ## References -/

/-- The entry is the directory of a container. -/
def containerEntry (d : Name) : Bool := !hiddenEntry d && d.length == 32

/-- The loop of `mc_state_resolve`: the last match and the number of matches. -/
def resolveIn (reference : Text) : List Name → Name → Nat → Action (Name × Nat)
  | [], id, found => return (id, found)
  | d :: ds, id, found =>
    if !containerEntry d then resolveIn reference ds id found
    else if reference.isPrefixOf d then resolveIn reference ds d (found + 1)
    else do
      let document ← perform (.readConfig d)
      if hasName document reference then resolveIn reference ds d (found + 1)
      else resolveIn reference ds id found

/-- `mc_state_resolve`. -/
def resolve (reference : Text) : Attempt Name :=
  let missing := errorSet .notFound .system "resolve-container" reference "container not found"
  if reference = [] then Attempt.fail missing
  else do
    match ← perform .opendir with
    | .absent => Attempt.fail missing
    | .failed => Attempt.fail missing
    | .entries names =>
      let (id, found) ← resolveIn reference names [] 0
      if found = 1 then return id
      else if found = 0 then
        Attempt.fail (errorSet .notFound .zero "resolve-container" reference "container not found")
      else
        Attempt.fail (errorSet .conflict .zero "resolve-container" reference
          "ambiguous container reference")

/-- An entry of the containers directory, with the document that `json_object_from_file`
    reads from its `config.json`. -/
structure ContainerDir where
  name : Name
  config : Option Value

/-- The comparison of a stored name with the reference. `json_object_get_string` returns a
    null pointer for a JSON null, and `strcmp` does not survive it: that is `none`. Of a
    name with an embedded NUL it sees the part in front of it. -/
def compareName (document : Option Value) (reference : Text) : Option Bool :=
  match document.bind (·.getEx "name") with
  | none => some false
  | some name => name.getString.map (untilNul · == reference)

/-- The loop of `mc_state_resolve` over given contents; `none` if a comparison crashes. -/
def resolveEntries (reference : Text) : List ContainerDir → Name → Nat → Option (Name × Nat)
  | [], id, found => some (id, found)
  | e :: es, id, found =>
    if !containerEntry e.name then resolveEntries reference es id found
    else if reference.isPrefixOf e.name then resolveEntries reference es e.name (found + 1)
    else
      match compareName e.config reference with
      | none => none
      | some true => resolveEntries reference es e.name (found + 1)
      | some false => resolveEntries reference es id found

/-- `mc_state_resolve` on the contents of the containers directory in the order in which
    `readdir` returns them: its result, or `none` for a crash. -/
def resolveContents (reference : Text) (entries : List ContainerDir) :
    Option (Except McError Name) :=
  if reference = [] then
    some (.error
      (errorSet .notFound .system "resolve-container" reference "container not found"))
  else
    (resolveEntries reference entries [] 0).map fun (id, found) =>
      if found = 1 then .ok id
      else if found = 0 then
        .error (errorSet .notFound .zero "resolve-container" reference "container not found")
      else
        .error (errorSet .conflict .zero "resolve-container" reference
          "ambiguous container reference")

/-- `mc_state_load_config`. -/
def loadConfig (reference : Text) : Attempt (RunConfig × Text) := do
  let id ← resolve reference
  match (← perform (.readConfig id)).bind loadDocument with
  | some loaded => return loaded
  | none => Attempt.fail (errorSet .runtime .einval "load-config"
      (makePath id File.config.name) "stored container configuration is invalid")

/-- `mc_state_get_status`. -/
def getStatus (c : Name) : Attempt Status := do
  match ← perform (.readState c) with
  | some document => return document.status
  | none => Attempt.fail (errorSet .notFound .system "read-state" c
      "container state is unavailable")

/-! ## Signals -/

/-- The record names the process, and the process is still the same one. -/
def identityHolds (site : Site) (c : Name) (pid start : Nat) : Action Bool :=
  if pid = 0 ∨ start = 0 then return false
  else do return (← perform (.startTime site c pid)) == start

/-- `mc_state_signal`. -/
def signal (reference : Text) (number : Nat) : Attempt Unit := do
  let notRunning := errorSet .conflict .esrch "signal-container" reference
    "container is not running"
  let id ← (resolve reference).reportAs notRunning
  let stale := errorSet .conflict .esrch "signal-container" id "recorded shim identity is stale"
  match ← perform (.readState id) with
  | none => Attempt.fail notRunning
  | some document =>
    match document.status, document.shimPid with
    | .running, some pid =>
      match document.shimStart with
      | none => Attempt.fail stale
      | some start =>
        if ← identityHolds .signal id pid start then
          match ← perform (.control id number) with
          | none => Attempt.fail (errorSet .runtime .system "signal-container" id
              "shim control request failed")
          | some true => return ()
          | some false => Attempt.fail (errorSet .runtime .eio "signal-container" id
              "shim rejected control request")
        else Attempt.fail stale
    | _, _ => Attempt.fail notRunning

/-! ## Reconciliation -/

/-- What `mc_state_reconcile` makes of a stale document. -/
def StateDoc.repaired (document : StateDoc) : StateDoc :=
  { document with
    status := .stopped
    shimPid := some 0
    initPid := some 0
    exitCode := 125
    cgroupPath := some [] }

/-- The cgroup of a stale document belongs to the container. -/
def ownsCgroup (c : Name) (path : Text) : Bool :=
  "/sys/fs/cgroup/".toList.isPrefixOf path && (strstr c path).isSome

/-- The cgroup of a stale container is killed. -/
def killStaleCgroup (c : Name) (document : StateDoc) : Action Unit :=
  match document.cgroupPath with
  | none => return ()
  | some path => if ownsCgroup c path then perform (.killCgroup c path) else return ()

/-- `remove_ephemeral_paths` and `mc_network_cleanup_owned`. -/
def cleanUp (c : Name) : Action Unit := do
  perform (.remove .reconcile c .work)
  perform (.remove .reconcile c .merged)
  perform (.remove .reconcile c .control)
  perform (.remove .reconcile c .runtime)
  perform (.remove .reconcile c .link)
  perform (.remove .reconcile c .rules)

/-- The repair of a stale container. -/
def repair (c : Name) (document : StateDoc) : Attempt Unit := do
  killStaleCgroup c document
  writeAtomic c (.state .reconcile document.repaired)
  cleanUp c

/-- The body of the loop of `mc_state_reconcile` for a container: whether it was repaired. -/
def reconcileEntry (c : Name) : Attempt Bool := do
  match ← perform (.readState c) with
  | none => return false
  | some document =>
    match document.status, document.shimPid, document.shimStart with
    | .running, some pid, some start =>
      if ← identityHolds .reconcile c pid start then return false
      else
        repair c document
        return true
    | _, _, _ => return false

/-- The loop of `mc_state_reconcile`, with the number of repairs so far. -/
def reconcileIn : List Name → Nat → Attempt Nat
  | [], repaired => return repaired
  | d :: ds, repaired =>
    if !containerEntry d then reconcileIn ds repaired
    else do
      if ← reconcileEntry d then reconcileIn ds (repaired + 1) else reconcileIn ds repaired

/-- `mc_state_reconcile`. -/
def reconcile : Attempt Nat := do
  match ← perform .opendir with
  | .absent => return 0
  | .failed => Attempt.fail (errorSet .runtime .system "reconcile" containersDir
      "cannot read container registry")
  | .entries names => reconcileIn names 0

/-! ## Addresses -/

/-- The network 10.44.0.0/24. -/
def subnet : UInt32 := 0x0a2c0000

/-- The host part of the address that a stored configuration holds, in the pool's network. -/
def heldAddress (document : Option Value) : Option UInt32 :=
  match document.bind (·.getEx "ipv4_host") with
  | none => none
  | some value =>
    let address := toU32 value.getInt64
    if address &&& 0xffffff00 = subnet then some (address &&& 0xff) else none

/-- The scan of `mc_state_allocate_ip`: the entries of `used` that are set. -/
def usedAddresses : List Name → Action (List UInt32)
  | [] => return []
  | d :: ds =>
    if hiddenEntry d then usedAddresses ds
    else do
      let document ← perform (.readConfig d)
      let used ← usedAddresses ds
      return (heldAddress document).toList ++ used

/-- The candidates, in the order in which they are tried. -/
def candidates : List UInt32 := (List.range 253).map fun index => UInt32.ofNat (2 + index)

/-- The choice among the candidates. -/
def chooseAddress (used : List UInt32) : Attempt UInt32 :=
  match candidates.find? (· ∉ used) with
  | some candidate => return subnet ||| candidate
  | none => Attempt.fail (errorSet .conflict .enospc "ipam" "10.44.0.0/24".toList
      "container address pool is exhausted")

/-- `mc_state_allocate_ip`. -/
def allocateIp : Attempt UInt32 := do
  match ← perform .opendir with
  | .absent => chooseAddress []
  | .failed => Attempt.fail (errorSet .runtime .system "ipam" containersDir
      "cannot inspect address leases")
  | .entries names => chooseAddress (← usedAddresses names)

/-! ## Removal -/

/-- The entries of a directory are removed until one cannot be. -/
def unlinkAll (c : Name) : List Leaf → Action Bool
  | [] => return true
  | leaf :: leaves => do
    if ← perform (.unlink c leaf) then unlinkAll c leaves else return false

/-- `nftw` with `remove_tree_entry` on a container's directory. -/
def removeTree (c : Name) : Action Bool := do
  match ← perform (.walk c) with
  | none => return false
  | some leaves => if ← unlinkAll c leaves then perform (.rmdir c) else return false

/-- `mc_state_remove`. -/
def remove (c : Name) : Attempt Unit := do
  let error := errorSet .runtime .system "remove-container" c "cannot remove container state"
  Attempt.check (removeTree c) error
  Attempt.check (perform (.removeLog c)) error

end MiniContainer
