import MiniContainer.Native.Cli
import MiniContainer.ForStd.Tokens

/-!
# Resource limits

The part of `mc_cgroup_create` that programs the limits: each value is written to its
control file and compared with what the file shows then. A kernel is given by what it
shows, which is not always what was written.
-/

namespace MiniContainer.Cgroup

open CString (Text decimal fgets snprintf strtou)

/-- What a control file shows behind a write of a value; `none` if the write fails. -/
abbrev Kernel := String → Text → Option Text

/-- `write_value`: what the file shows then. -/
def writeValue (kernel : Kernel) (name : String) (value : Text) : Except Errno Text :=
  match kernel name value with
  | none => .error .system
  | some content => .ok content

/-- `verify_value`. -/
def verifyValue (content expected : Text) : Except Errno Unit :=
  match fgets 256 content with
  | none => .error .system
  | some actual =>
    if actual.takeWhile (fun c => c != '\r' && c != '\n') = expected then .ok ()
    else .error .eio

/-- A value is written and verified. -/
def programLimit (kernel : Kernel) (name : String) (value : Text) : Except Errno Unit := do
  let content ← writeValue kernel name value
  verifyValue content value

/-- The memory limits of `mc_cgroup_create`. -/
def programMemory (kernel : Kernel) (memoryMax swapMax : UInt64) : Except Errno Unit := do
  programLimit kernel "memory.max" (snprintf 128 (decimal memoryMax.toNat))
  programLimit kernel "memory.swap.max" (snprintf 128 (decimal swapMax.toNat))

/-- All limits of `mc_cgroup_create`. -/
def programLimits (kernel : Kernel) (config : RunConfig) (payload : Text) :
    Except McError Unit :=
  let limits : Except Errno Unit := do
    programMemory kernel config.memoryMax config.swapMax
    programLimit kernel "cpu.max" (snprintf 128 (decimal config.cpuQuota.toNat ++ " 100000".toList))
    programLimit kernel "pids.max" (snprintf 128 (decimal config.pidsMax.toNat))
  limits.mapError fun errno =>
    errorSet .runtime errno "cgroup-limit" payload "cannot program and verify resource limit"

/-- What a page counter shows for a number of bytes: whole pages, or `max` from the largest
    number of pages on. -/
def pageCounter (maxPages bytes : Nat) : Text :=
  if maxPages ≤ bytes / 4096 then "max\n".toList
  else decimal (bytes / 4096 * 4096) ++ ['\n']

/-- A kernel that counts memory in pages and accepts every decimal number of bytes. -/
def pageKernel (maxPages : Nat) (others : Kernel) : Kernel := fun name value =>
  if name = "memory.max" ∨ name = "memory.swap.max" then
    (strtou 64 value).map fun c => pageCounter maxPages c.value
  else others name value

end MiniContainer.Cgroup
