import Mathlib.Data.List.Nodup
import MiniContainer.Native.Nft

/-!
# Container networks

`mc_network_setup`, `mc_network_destroy` and `mc_network_cleanup_owned`. The interfaces of the
host are a table of links with an index, a name, the bridge they are attached to and, for the
ends of a veth pair, the pair. The requests of `netlink.c` change it; what they do inside of the
namespace of a container, and the addresses of the bridge, is not part of the table.

Every request may be refused, and every request may be carried out without the answer reaching
the program.
-/

namespace MiniContainer.Network

open CString (Text snprintf)

/-! ## Links -/

/-- A network interface in the namespace of the host. -/
structure Link where
  index : Nat
  name : Text
  up : Bool
  /-- The index of the bridge to which the link is attached. -/
  master : Option Nat
  /-- The veth pair of which the link is one end. -/
  pair : Option Nat
  deriving DecidableEq, Repr

/-- The links of the host, and the rules of the table `inet minicontainer`. -/
structure Host where
  links : List Link
  nextIndex : Nat
  chains : Chains
  index_nodup : (links.map Link.index).Nodup
  name_nodup : (links.map Link.name).Nodup
  index_pos : ∀ l ∈ links, 0 < l.index
  index_lt : ∀ l ∈ links, l.index < nextIndex
  pair_lt : ∀ l ∈ links, ∀ k ∈ l.pair, k < nextIndex

/-- `if_nametoindex`; 0 is no interface. -/
def Host.ifNametoindex (n : Host) (name : Text) : Nat :=
  ((n.links.find? (·.name == name)).map Link.index).getD 0

/-- The host with some of its links. -/
def Host.keep (n : Host) (p : Link → Bool) : Host :=
  { n with
    links := n.links.filter p
    index_nodup := (List.filter_sublist.map _).nodup n.index_nodup
    name_nodup := (List.filter_sublist.map _).nodup n.name_nodup
    index_pos := fun l hl => n.index_pos l (List.mem_filter.mp hl).1
    index_lt := fun l hl => n.index_lt l (List.mem_filter.mp hl).1
    pair_lt := fun l hl => n.pair_lt l (List.mem_filter.mp hl).1 }

/-- What a request can set in a link: whether it is up, and the bridge. -/
structure Setting where
  up : Bool
  master : Option Nat

def Link.set (l : Link) (s : Setting) : Link := { l with up := s.up, master := s.master }

/-- The host with other settings of its links. -/
def Host.configure (n : Host) (f : Link → Setting) : Host :=
  { n with
    links := n.links.map fun l => l.set (f l)
    index_nodup := by
      rw [List.map_map]
      exact n.index_nodup
    name_nodup := by
      rw [List.map_map]
      exact n.name_nodup
    index_pos := by
      intro _ h
      obtain ⟨l, hl, rfl⟩ := List.mem_map.mp h
      exact n.index_pos l hl
    index_lt := by
      intro _ h
      obtain ⟨l, hl, rfl⟩ := List.mem_map.mp h
      exact n.index_lt l hl
    pair_lt := by
      intro _ h
      obtain ⟨l, hl, rfl⟩ := List.mem_map.mp h
      exact n.pair_lt l hl }

/-- The host with one more link, which is given the next index. -/
def Host.add (n : Host) (name : Text) (pair : Option Nat) (hname : ∀ l ∈ n.links, l.name ≠ name)
    (hpair : ∀ k ∈ pair, k ≤ n.nextIndex) : Host where
  links := ⟨n.nextIndex + 1, name, false, none, pair⟩ :: n.links
  nextIndex := n.nextIndex + 2
  chains := n.chains
  index_nodup := by
    rw [List.map_cons, List.nodup_cons]
    refine ⟨fun h => ?_, n.index_nodup⟩
    obtain ⟨l, hl, heq⟩ := List.mem_map.mp h
    have := n.index_lt l hl
    simp only at heq
    omega
  name_nodup := by
    rw [List.map_cons, List.nodup_cons]
    refine ⟨fun h => ?_, n.name_nodup⟩
    obtain ⟨l, hl, heq⟩ := List.mem_map.mp h
    exact hname l hl heq
  index_pos := by
    intro l hl
    rcases List.mem_cons.mp hl with rfl | hl
    · exact Nat.succ_pos _
    · exact n.index_pos l hl
  index_lt := by
    intro l hl
    rcases List.mem_cons.mp hl with rfl | hl
    · exact Nat.lt_succ_self _
    · exact Nat.lt_add_right 2 (n.index_lt l hl)
  pair_lt := by
    intro l hl k hk
    rcases List.mem_cons.mp hl with rfl | hl
    · exact Nat.lt_succ_of_le (Nat.le_succ_of_le (hpair k hk))
    · exact Nat.lt_add_right 2 (n.pair_lt l hl k hk)

/-! ## Requests -/

/-- The bridge. -/
def bridgeName : Text := "mcbr0".toList

/-- `create_bridge`, for which an interface of that name is no failure. -/
def createBridge (n : Host) : Host :=
  if h : ∀ l ∈ n.links, l.name ≠ bridgeName then n.add bridgeName none h nofun else n

/-- `create_veth`, which fails when one of the names is taken. -/
def createVeth (host peer : Text) (n : Host) : Option Host :=
  if hhost : ∀ l ∈ n.links, l.name ≠ host then
    let n' := n.add host (some n.nextIndex) hhost
      (fun _ hk => Nat.le_of_eq (Option.some.inj hk).symm)
    if hpeer : ∀ l ∈ n'.links, l.name ≠ peer then
      some (n'.add peer (some n.nextIndex) hpeer
        (fun _ hk => (Option.some.inj hk).symm ▸ Nat.le_add_right n.nextIndex 2))
    else none
  else none

/-- `configure_link` with the flag that takes the link up and, if `master` is given, its bridge. -/
def configureLink (index : Nat) (master : Option Nat) (n : Host) : Option Host :=
  if n.links.any (·.index == index) then
    some (n.configure fun l =>
      if l.index = index then ⟨true, master.or l.master⟩ else ⟨l.up, l.master⟩)
  else none

/-- `configure_link` with a process: the link moves to the namespace of that process. -/
def moveLink (index : Nat) (n : Host) : Option Host :=
  if n.links.any (·.index == index) then some (n.keep (·.index != index)) else none

/-- The request `RTM_DELLINK`. Both ends of a veth pair go together, and the links that were
    attached to the deleted one are attached to nothing. -/
def deleteIndex (index : Nat) (n : Host) : Option Host :=
  match n.links.find? (·.index == index) with
  | none => none
  | some deleted =>
    some ((n.keep fun l =>
        l.index != index && (l.pair == none || l.pair != deleted.pair)).configure fun l =>
      ⟨l.up, if l.master = some index then none else l.master⟩)

/-! ## Outcomes -/

/-- The steps of `mc_network_setup` that can fail. -/
inductive Step where
  | bridge
  | base
  | bridgeIndex
  | bridgeUp
  | bridgeAddress
  | veth
  | hostIndex
  | peerIndex
  | attachHost
  | movePeer
  | helper
  | publish
  deriving DecidableEq, Repr

/-- What becomes of a step. -/
inductive Answer where
  | done
  | refused
  /-- It is carried out, but the program is told that it failed. -/
  | unanswered
  deriving DecidableEq, Repr

/-- The rules that `mc_nft_ensure_base` adds to the forward chain. Their comments are not those
    of a container. -/
structure BaseRules where
  rules : List Rule
  unowned : ∀ r ∈ rules, ∀ id : ContainerId, r.ownedBy id.text = false

/-- What the machine decides while a network operation runs. -/
structure Outcome where
  /-- The steps of the setup. -/
  answer : Step → Answer
  /-- `nft list table` finds the table. -/
  listed : Bool
  base : BaseRules
  /-- The handles of new rules. -/
  handles : Nat → Handle
  /-- `delete_link` can look up a name. -/
  looksUp : Bool
  /-- The request of `delete_link`. -/
  deletion : Answer
  /-- `mc_nft_remove_container` gets its lock. -/
  locks : Bool
  view : NftView

/-! ## Setup -/

/-- `mch%.8s`. -/
def hostInterface (id : Text) : Text := snprintf 16 ("mch".toList ++ id.take 8)

/-- `mcc%.8s`. -/
def peerInterface (id : Text) : Text := snprintf 16 ("mcc".toList ++ id.take 8)

/-- `struct mc_network`. -/
structure State where
  hostInterface : Text
  peerInterface : Text
  ipv4Host : UInt32
  id : Text
  active : Bool
  deriving DecidableEq, Repr

/-- The arguments of `mc_network_setup` besides the process whose namespace it is. -/
structure Args where
  id : ContainerId
  ipv4Host : UInt32
  publishes : List Publish

/-- The variables of `mc_network_setup`, and the host. -/
structure Vars where
  host : Host
  bridgeIndex : Nat
  hostIndex : Nat
  peerIndex : Nat

/-- One operand of the conditions of `mc_network_setup`. -/
structure Call where
  step : Step
  /-- The error that the callee sets. -/
  error : Option McError := none
  /-- What the call does, unless it cannot be carried out. -/
  effect : Vars → Option Vars

/-- The calls, one after another up to the first that fails; then the error that it set. -/
def runCalls (answer : Step → Answer) : List Call → Vars → Option (Option McError) × Vars
  | [], v => (none, v)
  | call :: calls, v =>
    match call.effect v with
    | none => (some call.error, v)
    | some v' =>
      match answer call.step with
      | .done => runCalls answer calls v'
      | .refused => (some call.error, v)
      | .unanswered => (some call.error, v')

/-- A request that changes the host. -/
def Vars.request (v : Vars) (effect : Host → Option Host) : Option Vars :=
  (effect v.host).map fun n => { v with host := n }

/-- `if_nametoindex` in a condition: an interface that does not exist is a failure. -/
def Vars.lookup (v : Vars) (name : Text) (assign : Nat → Vars) : Option Vars :=
  if v.host.ifNametoindex name = 0 then none else some (assign (v.host.ifNametoindex name))

/-- `mc_nft_ensure_base`: the script is executed when the table is not found. -/
def ensureBase (o : Outcome) (n : Host) : Host :=
  if o.listed then n
  else { n with chains := Function.update n.chains .forward (n.chains .forward ++ o.base.rules) }

/-- The calls up to the helper that works in the namespace of the container. -/
def linkCalls (o : Outcome) (args : Args) : List Call :=
  let host := hostInterface args.id.text
  let peer := peerInterface args.id.text
  [{ step := .bridge, effect := fun v => v.request fun n => some (createBridge n) },
   { step := .base
     error := some (errorSet .runtime .system "nftables" "inet minicontainer".toList
       "cannot install forwarding and masquerade policy")
     effect := fun v => v.request fun n => some (ensureBase o n) },
   { step := .bridgeIndex
     effect := fun v => v.lookup bridgeName fun i => { v with bridgeIndex := i } },
   { step := .bridgeUp, effect := fun v => v.request (configureLink v.bridgeIndex none) },
   { step := .bridgeAddress, effect := some },
   { step := .veth, effect := fun v => v.request (createVeth host peer) },
   { step := .hostIndex, effect := fun v => v.lookup host fun i => { v with hostIndex := i } },
   { step := .peerIndex, effect := fun v => v.lookup peer fun i => { v with peerIndex := i } },
   { step := .attachHost
     effect := fun v => v.request (configureLink v.hostIndex (some v.bridgeIndex)) },
   { step := .movePeer, effect := fun v => v.request (moveLink v.peerIndex) },
   { step := .helper, effect := some }]

/-- `mc_nft_add_container`, which does nothing without published ports. -/
def publishCalls (o : Outcome) (args : Args) : List Call :=
  if args.publishes = [] then []
  else
    [{ step := .publish
       error := some (errorSet .runtime .system "nftables-publish" args.id.text
         "cannot install published-port rules")
       effect := fun v => v.request fun n => some { n with
         chains := nftAddContainer args.id args.ipv4Host args.publishes o.handles n.chains } }]

/-- `delete_link`. -/
def deleteLink (o : Outcome) (name : Text) (n : Host) : Host :=
  if o.looksUp = true ∧ n.ifNametoindex name ≠ 0 ∧ o.deletion ≠ .refused then
    (deleteIndex (n.ifNametoindex name) n).getD n
  else n

/-- `mc_nft_remove_container`, which does nothing without its lock. -/
def removeRules (o : Outcome) (id : Text) (n : Host) : Host :=
  if o.locks then { n with chains := nftRemoveContainer o.view id n.chains } else n

/-- The calls of `mc_network_setup` on a host. -/
def setupCalls (o : Outcome) (args : Args) (n : Host) : Option (Option McError) × Vars :=
  runCalls o.answer (linkCalls o args ++ publishCalls o args) ⟨n, 0, 0, 0⟩

/-- `mc_network_setup`: the error, the state of the network and the host. -/
def setup (o : Outcome) (args : Args) (n : Host) : Option McError × State × Host :=
  let network : State := ⟨hostInterface args.id.text, peerInterface args.id.text, args.ipv4Host,
    snprintf 33 args.id.text, false⟩
  match setupCalls o args n with
  | (none, v) => (none, { network with active := true }, v.host)
  | (some error, v) =>
    (some (error.getD (errorSet .runtime .system "network-setup" args.id.text
        "rtnetlink bridge/veth configuration failed")),
      network, deleteLink o network.hostInterface (removeRules o args.id.text v.host))

/-! ## Destruction -/

/-- `mc_network_destroy`. -/
def destroy (o : Outcome) (network : State) (n : Host) : State × Host :=
  if network.active then
    ({ network with active := false },
      removeRules o network.id (deleteLink o network.hostInterface n))
  else (network, n)

/-- `mc_network_cleanup_owned`. -/
def cleanupOwned (o : Outcome) (id : Text) (n : Host) : Host :=
  if id.length ≠ 32 then n
  else removeRules o id (deleteLink o (hostInterface id) n)

end MiniContainer.Network
