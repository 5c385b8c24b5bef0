import Mathlib.Data.List.OfFn
import MiniContainer.ForStd.Json

/-!
# Errors and run configurations

The records that every part of the runtime passes around: `struct mc_error` with
its exit codes, and `struct mc_run_config` with the published ports and mounts it
holds. Counted arrays become lists and nullable strings become options; integer
members keep their width.
-/

namespace MiniContainer

open CString (Text snprintf)

/-- `PATH_MAX`. -/
def pathMax : Nat := 4096

/-! ## Container IDs -/

/-- The digits that `%02x` prints. -/
def isHexDigit (c : Char) : Bool := c.isDigit || (97 ≤ c.toNat && c.toNat ≤ 102)

/-- A container ID: 32 hexadecimal digits. -/
structure ContainerId where
  text : Text
  length_text : text.length = 32
  hex : ∀ c ∈ text, isHexDigit c = true
  deriving DecidableEq, Repr

private theorem isHexDigit_digitChar : ∀ n < 16, isHexDigit (Nat.digitChar n) = true := by
  decide

/-- One byte as `%02x` prints it. -/
def hexByte (b : UInt8) : Text := [Nat.digitChar (b.toNat / 16), Nat.digitChar (b.toNat % 16)]

theorem isHexDigit_of_mem_hexByte {b : UInt8} {c : Char} (h : c ∈ hexByte b) :
    isHexDigit c = true := by
  have hb := b.toNat_lt
  simp only [hexByte, List.mem_cons, List.not_mem_nil, or_false] at h
  rcases h with rfl | rfl <;> exact isHexDigit_digitChar _ (by omega)

/-- `mc_generate_id`: the ID of sixteen random bytes. -/
def generateId (random : Fin 16 → UInt8) : ContainerId where
  text := (List.ofFn random).flatMap hexByte
  length_text := by
    simp [hexByte]
  hex := by
    intro c hc
    obtain ⟨b, -, hc⟩ := List.mem_flatMap.mp hc
    exact isHexDigit_of_mem_hexByte hc

/-! ## Errors -/

/-- `enum mc_exit_code`. -/
inductive ExitCode where
  | ok
  | usage
  | prerequisite
  | conflict
  | notFound
  | permission
  | runtime
  | internal
  deriving DecidableEq, Repr

/-- The numbers that the process exits with. -/
def ExitCode.toNat : ExitCode → Nat
  | .ok => 0
  | .usage => 2
  | .prerequisite => 3
  | .conflict => 4
  | .notFound => 5
  | .permission => 6
  | .runtime => 7
  | .internal => 125

/-- `saved_errno`: the constants that the code stores itself, and `system` for the
    value a failing system call left in `errno`. -/
inductive Errno where
  | zero
  | eexist
  | eaddrinuse
  | einval
  | enospc
  | esrch
  | ebusy
  | etimedout
  | eio
  | eperm
  | eoverflow
  | enametoolong
  | enoent
  | system
  deriving DecidableEq, Repr

/-- `struct mc_error`. -/
structure McError where
  code : ExitCode
  errno : Errno
  operation : Text
  resource : Text
  message : Text
  deriving DecidableEq, Repr

/-- `mc_error_set`: the texts are cut to the sizes of their buffers. -/
def errorSet (code : ExitCode) (errno : Errno) (operation : String) (resource : Text)
    (message : String) : McError where
  code := code
  errno := errno
  operation := snprintf 64 operation.toList
  resource := snprintf 256 resource
  message := snprintf 256 message.toList

/-! ## Run configurations -/

/-- `IPPROTO_TCP` and `IPPROTO_UDP`. -/
def ipprotoTcp : UInt8 := 6

@[inherit_doc ipprotoTcp]
def ipprotoUdp : UInt8 := 17

/-- `struct mc_publish`: host address and ports, all in host byte order. -/
structure Publish where
  hostIpv4 : UInt32
  hostPort : UInt16
  containerPort : UInt16
  protocol : UInt8
  deriving DecidableEq, Repr

/-- `enum mc_mount_type`. A stored number is cast to the enumeration unchecked, so
    any other value may stand in a loaded configuration. -/
inductive MountType where
  | bind
  | tmpfs
  | other (raw : Int)
  deriving DecidableEq, Repr

def MountType.toInt : MountType → Int
  | .bind => 1
  | .tmpfs => 2
  | .other raw => raw

def MountType.ofInt (raw : Int) : MountType :=
  if raw = 1 then .bind else if raw = 2 then .tmpfs else .other raw

/-- `struct mc_mount`. -/
structure Mount where
  type : MountType
  source : Option Text
  target : Text
  size : UInt64
  readonly : Bool
  deriving DecidableEq, Repr

/-- `struct mc_run_config`. -/
structure RunConfig where
  id : Text
  name : Option Text
  rootfs : Text
  hostname : Text
  workdir : Text
  user : UInt32
  group : UInt32
  environment : List Text
  detach : Bool
  readyFd : Int
  memoryMax : UInt64
  swapMax : UInt64
  cpuQuota : UInt64
  pidsMax : UInt64
  capabilityMask : UInt64
  readonlyRoot : Bool
  mounts : List Mount
  seccompDenies : List Text
  networkBridge : Bool
  ipv4Host : UInt32
  publishes : List Publish
  command : List Text
  deriving DecidableEq, Repr

/-- The two published entries claim a common destination: one protocol and host
    port, and equal host addresses or a wildcard among them. -/
def Publish.overlaps (p q : Publish) : Bool :=
  p.protocol == q.protocol && p.hostPort == q.hostPort &&
    (p.hostIpv4 == 0 || q.hostIpv4 == 0 || p.hostIpv4 == q.hostIpv4)

theorem Publish.overlaps_comm (p q : Publish) : p.overlaps q = q.overlaps p := by
  rw [Bool.eq_iff_iff]
  simp only [overlaps, Bool.and_eq_true, Bool.or_eq_true, beq_iff_eq]
  constructor <;> (rintro ⟨⟨h₁, h₂⟩, h₃⟩; refine ⟨⟨h₁.symm, h₂.symm⟩, ?_⟩; tauto)

end MiniContainer
