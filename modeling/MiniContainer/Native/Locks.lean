import MiniContainer.Native.Main

/-!
# The packet filter lock

`Native.World` treats what the code does under `nft.lock` as one operation. Here the lock
is a thing of its own: `mc_nft_ensure_base`, `mc_nft_add_container` and
`mc_nft_remove_container` take it, run `nft` and give it back, and the machine stops a
process in front of a lock that is held, also by the process itself: every `open` of a lock
file is an owner of its own. All else is carried out as before.
-/

namespace MiniContainer

/-- The lock files. -/
inductive Lock where
  | registry
  | container (c : Name)
  | nft
  deriving DecidableEq, Repr

/-- The operations: those of `Op`, and those on `nft.lock`. `ensureBase` is what
    `mc_nft_ensure_base` does under the lock. -/
inductive LockOp where
  | base (o : Op)
  | lockNft
  | unlockNft
  | ensureBase

/-- The answers. -/
abbrev LockRes : LockOp → Type
  | .base o => Res o
  | .lockNft | .ensureBase => Bool
  | .unlockNft => Unit

/-- A program over these operations. -/
abbrev LockAction (α : Type) := Prog LockOp LockRes α

/-- One of these operations. -/
def performLock (o : LockOp) : LockAction (LockRes o) := Prog.perform o

/-- A section under `nft.lock`, with the result of a function that cannot take it. -/
def underNft {α : Type} (missing : α) (p : LockAction α) : LockAction α := do
  if ← performLock .lockNft then
    let result ← p
    performLock .unlockNft
    return result
  else return missing

/-- What the code does for an operation. -/
def carryOut : (o : Op) → LockAction (Res o)
  -- `mc_nft_remove_container`
  | .remove remover c .rules => underNft () (performLock (.base (.remove remover c .rules)))
  -- `mc_nft_add_container`
  | .addRules c => underNft false (performLock (.base (.addRules c)))
  -- `mc_network_setup` calls `mc_nft_ensure_base` in front of the veth pair
  | .createVeth c => do
    if ← underNft false (performLock .ensureBase) then performLock (.base (.createVeth c))
    else return false
  | o => performLock (.base o)

/-- The world and the holder of `nft.lock`. -/
structure LockWorld where
  base : World := {}
  nft : Option Tid := none

/-- The holder of a lock. -/
def LockWorld.holder (w : LockWorld) : Lock → Option Tid
  | .registry => w.base.registry
  | .container c => w.base.containerLocks c
  | .nft => w.nft

/-- Process `t` gives `nft.lock` back, if it has it. -/
def LockWorld.releaseNft (w : LockWorld) (t : Tid) : LockWorld :=
  { w with nft := if w.nft = some t then none else w.nft }

/-- What an operation of process `t` answers and does. -/
def lockStep (ch : Choice) (w : LockWorld) (t : Tid) :
    (o : LockOp) → Option (LockRes o × LockWorld)
  | .base (.exit code) => some ((), { w.releaseNft t with base := w.base.leave t code })
  | .base o =>
    match step ch w.base t o with
    | none => none
    | some (r, base) => some (r, { w with base })
  | .lockNft =>
    if ch.fault ≠ .none then some (false, w)
    else if w.nft = none then some (true, { w with nft := some t })
    else none
  | .unlockNft => some ((), w.releaseNft t)
  | .ensureBase => some (ch.fault == .none, w)

/-- The shim that an operation starts. -/
def lockForked : (o : LockOp) → LockRes o → Option (Tid × Cmd)
  | .base o, r => forked o r
  | _, _ => none

/-- Any number of commands and shims on one machine, with `nft.lock`. -/
def lockMachine (host : Host) (build : Build) :
    Machine LockOp LockRes Outcome LockWorld Choice Cmd where
  step := lockStep
  spawn := lockForked
  prog c := ((machine host build).prog c).expand carryOut
  enter ch w t c := ((machine host build).enter ch w.base t c).map fun base => { w with base }
  kill w t := { w.releaseNft t with base := w.base.leave t killedCode }
  killed := ⟨killedCode, none⟩
  env ch w := (envStep ch w.base).map fun base => { w with base }

/-- An empty registry and no process. -/
def lockInitial : Sys LockOp LockRes Outcome LockWorld := ⟨{}, fun _ => none⟩

end MiniContainer
