import MiniContainer.Native.Main
import MiniContainer.Native.Stats

/-!
# Printed documents

What `mc_error_print`, `mc_state_print_list` and `mc_stats_print` print, for a terminal and in
JSON mode, with the readers of the cgroup files. The documents are put together with `printf`
from texts as they are.
-/

namespace MiniContainer

open CString (Text decimal)
open JsonC (Value)

/-! ## Errors -/

/-- `mc_error_print`, with the messages of the system. -/
def errorPrint (strerror : Errno → Text) (e : McError) (json : Bool) : Text :=
  let system := if e.errno = .zero then [] else strerror e.errno
  if json then
    "\x7b\"error\":\x7b\"code\":".toList ++ decimal e.code.toNat ++
      ",\"operation\":\"".toList ++ e.operation ++
      "\",\"resource\":\"".toList ++ e.resource ++ "\",\"message\":\"".toList ++ e.message ++
      "\",\"system\":\"".toList ++ system ++ "\"\x7d\x7d\n".toList
  else
    "minicontainer: ".toList ++ e.operation ++ ": ".toList ++ e.message ++
      (if e.resource = [] then [] else " [".toList ++ e.resource ++ "]".toList) ++
      (if system = [] then [] else ": ".toList ++ system) ++ "\n".toList

/-! ## The list of containers -/

def Status.text : Status → Text
  | .created => "created".toList
  | .running => "running".toList
  | .stopped => "stopped".toList
  | .failed => "failed".toList

/-- One row of the list, behind the others. -/
def printRow (json first : Bool) : Name × Text × Status → Text
  | (d, name, status) =>
    if json then
      (if first then [] else ",".toList) ++ "\x7b\"id\":\"".toList ++ d ++
        "\",\"name\":\"".toList ++ name ++ "\",\"status\":\"".toList ++ status.text ++
        "\"\x7d".toList
    else d.take 12 ++ "\t".toList ++ name ++ "\t".toList ++ status.text ++ "\n".toList

/-- The rows as the loop of `mc_state_print_list` prints them. -/
def printRows (json : Bool) : (first : Bool) → List (Name × Text × Status) → Text
  | _, [] => []
  | first, row :: rows => printRow json first row ++ printRows json false rows

/-- What `mc_state_print_list` prints for the rows of `printList`. -/
def listText (json : Bool) (rows : List (Name × Text × Status)) : Text :=
  if json then "[".toList ++ printRows json true rows ++ "]\n".toList
  else "ID\tNAME\tSTATUS\n".toList ++ printRows json true rows

/-! ## Statistics -/

/-- A file of a directory, by a path that has to fit. -/
def fileIn (files : Text → Option Text) (directory : Text) (name : String) : Option Text :=
  let path := directory ++ '/' :: name.toList
  if pathMax ≤ path.length then none else files path

/-- `state_cgroup`: the path is cut out of the document. -/
def stateCgroup (files : Text → Option Text) (id : Text) : Option Text := do
  let marker := "\"cgroup_path\":\"".toList
  let document ← Stats.readText 4096 (files (makePath id "state.json".toList))
  let start ← CString.strstr marker document
  let (path, _) ← CString.strchr '"' (start.drop marker.length)
  if path = [] ∨ pathMax ≤ path.length then none else some path

def uint64Max : UInt64 := 0xffffffffffffffff

/-- `read_u64`. -/
def readU64 (files : Text → Option Text) (directory : Text) (name : String) : Option UInt64 := do
  let text ← Stats.readText 128 (fileIn files directory name)
  if "max".toList.isPrefixOf text then some uint64Max
  else
    let number ← CString.strtou 64 text
    if number.erange || !(number.rest = [] || number.rest.head? = some '\n') then none
    else some (UInt64.ofNat number.value)

/-- `struct mc_stats`. -/
structure Stats where
  memoryCurrent : UInt64
  memoryMax : UInt64
  swapCurrent : UInt64
  swapMax : UInt64
  cpuUsage : UInt64
  cpuThrottled : UInt64
  cpuThrottledUsec : UInt64
  pidsCurrent : UInt64
  pidsMax : UInt64
  memoryOom : UInt64
  memoryOomKill : UInt64
  ioRead : UInt64
  ioWrite : UInt64
  deriving DecidableEq, Repr

/-- The readers of `mc_stats_print`. -/
def readStats (files : Text → Option Text) (id : Text) : Option Stats := do
  let cgroup ← stateCgroup files id
  let memoryCurrent ← readU64 files cgroup "memory.current"
  let memoryMax ← readU64 files cgroup "memory.max"
  let swapCurrent ← readU64 files cgroup "memory.swap.current"
  let swapMax ← readU64 files cgroup "memory.swap.max"
  let cpuStat := fileIn files cgroup "cpu.stat"
  let cpuUsage ← Stats.cpuField cpuStat "usage_usec".toList
  let cpuThrottled ← Stats.cpuField cpuStat "nr_throttled".toList
  let cpuThrottledUsec ← Stats.cpuField cpuStat "throttled_usec".toList
  let pidsCurrent ← readU64 files cgroup "pids.current"
  let pidsMax ← readU64 files cgroup "pids.max"
  let memoryOom ← Stats.namedField (fileIn files cgroup "memory.events") "oom".toList
  let memoryOomKill ← Stats.namedField (fileIn files cgroup "memory.events") "oom_kill".toList
  let ioRead ← Stats.namedField (fileIn files cgroup "io.stat") "rbytes".toList
  let ioWrite ← Stats.namedField (fileIn files cgroup "io.stat") "wbytes".toList
  some { memoryCurrent, memoryMax, swapCurrent, swapMax, cpuUsage, cpuThrottled,
         cpuThrottledUsec, pidsCurrent, pidsMax, memoryOom, memoryOomKill, ioRead, ioWrite }

def printU64 (value : UInt64) : Text := decimal value.toNat

/-- `print_limit`. -/
def printLimit (value : UInt64) : Text :=
  if value = uint64Max then "max".toList else printU64 value

/-- The printed part of `mc_stats_print`. -/
def printStats (id : Text) (json : Bool) (s : Stats) : Text :=
  if json then
    "\x7b\"schema_version\":1,\"id\":\"".toList ++ id ++
      "\",\"memory\":\x7b\"current\":".toList ++ printU64 s.memoryCurrent ++
      ",\"max\":".toList ++ printLimit s.memoryMax ++
      ",\"swap_current\":".toList ++ printU64 s.swapCurrent ++
      ",\"swap_max\":".toList ++ printLimit s.swapMax ++
      ",\"oom\":".toList ++ printU64 s.memoryOom ++
      ",\"oom_kill\":".toList ++ printU64 s.memoryOomKill ++
      "\x7d,\"cpu\":\x7b\"usage_usec\":".toList ++ printU64 s.cpuUsage ++
      ",\"nr_throttled\":".toList ++ printU64 s.cpuThrottled ++
      ",\"throttled_usec\":".toList ++ printU64 s.cpuThrottledUsec ++
      "\x7d,\"pids\":\x7b\"current\":".toList ++ printU64 s.pidsCurrent ++
      ",\"max\":".toList ++ printLimit s.pidsMax ++
      "\x7d,\"io\":\x7b\"read_bytes\":".toList ++ printU64 s.ioRead ++
      ",\"write_bytes\":".toList ++ printU64 s.ioWrite ++ "\x7d\x7d\n".toList
  else
    "ID\tMEMORY\tSWAP\tCPU USEC\tTHROTTLED\tPIDS\n".toList ++ id ++ "\t".toList ++
      printU64 s.memoryCurrent ++ "/".toList ++ printLimit s.memoryMax ++ "\t".toList ++
      printU64 s.swapCurrent ++ "/".toList ++ printLimit s.swapMax ++ "\t".toList ++
      printU64 s.cpuUsage ++ "\t".toList ++ printU64 s.cpuThrottled ++ "\t".toList ++
      printU64 s.pidsCurrent ++ "/".toList ++ printLimit s.pidsMax ++ "\n".toList

/-- `mc_stats_print`: the text, or the error. -/
def statsPrint (files : Text → Option Text) (id : Text) (json : Bool) : Except McError Text :=
  match readStats files id with
  | none => .error (errorSet .notFound .system "stats" id
      "container is not running or its cgroup is unavailable")
  | some s => .ok (printStats id json s)

end MiniContainer
