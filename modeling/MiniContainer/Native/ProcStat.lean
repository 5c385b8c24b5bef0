import MiniContainer.ForStd.Json
import MiniContainer.ForStd.Tokens

/-!
# Start times of processes

A process is identified by its ID and the time it was started at, the field 22 of
`/proc/PID/stat`. Three places read it: `process_start_time` of `state/store.c`, and
`write_state` of `linux/container.c` for the shim and for the init. A file is given by its
contents, or `none` if it cannot be opened.
-/

namespace MiniContainer.ProcStat

open CString (Text fgets strrchr strtok strtoull)
open JsonC (Value)

/-- The loop that goes on from field to field; the first token is the current one. -/
def nextFields (field : Nat) : List Text → Option Text
  | [] => none
  | token :: tokens => if field < 22 then nextFields (field + 1) tokens else some token

/-- The token that the three parsers convert: the fields start two characters behind the last
    closing parenthesis, with the third one. -/
def startToken (line : Text) : Option Text :=
  match strrchr ')' line with
  | none => none
  | some found => nextFields 3 (strtok ' ' (found.drop 2))

/-- `process_start_time`. -/
def processStartTime (stat : Option Text) : UInt64 :=
  match stat.bind (fgets 4096) with
  | none => 0
  | some line =>
    match startToken line with
    | none => 0
    | some token => strtoull token

/-- `start_time` of `write_state`, which is 0 unless it is assigned. -/
def shimStartTime (stat : Option Text) : UInt64 :=
  ((stat.bind (fgets 4096)).bind startToken).elim 0 strtoull

/-- `init_start_time` of `write_state`. -/
def initStartTime (initPid : Int) (stat : Option Text) : UInt64 :=
  if 0 < initPid then ((stat.bind (fgets 4096)).bind startToken).elim 0 strtoull else 0

/-- A start time as `write_state` prints it into the document, with `%llu`. -/
def recorded (start : UInt64) : Value := .int start.toNat

/-- The comparison of `mc_state_signal` and its like with a recorded start time. -/
def sameStart (stat : Option Text) (saved : Value) : Bool :=
  processStartTime stat == UInt64.ofNat saved.getUint64

end MiniContainer.ProcStat
