import MiniContainer.ForStd.Tokens
import MiniContainer.Native.ConfigJson

/-!
# Statistics

The readers of `linux/stats.c` for files with named fields. A file is given by its
contents, or `none` if it cannot be opened; `none` as a result stands for `-1`.
-/

namespace MiniContainer.Stats

open CString (Text isSpace strtok strtok₂ strtou strtoull)

/-- `read_text`. The end of the file has to be seen, so that a file which fills the buffer is
    too long. The callers see the text up to its first NUL. -/
def readText (size : Nat) (file : Option Text) : Option Text :=
  match file with
  | none => none
  | some content => if content.length < size - 1 then some (untilNul content) else none

/-! ## `memory.events` and `io.stat` -/

/-- The token is the field or starts with it and an equals sign: what stands behind. -/
def fieldNumber (field token : Text) : Option Text :=
  if field.isPrefixOf token then
    match token.drop field.length with
    | [] => some []
    | '=' :: number => some number
    | _ => none
  else none

/-- The loop of `named_field`: a number that is not in the token itself is the next one. -/
def namedLoop (field : Text) : List Text → UInt64 → UInt64
  | [], value => value
  | token :: tokens, value =>
    match fieldNumber field token with
    | none => namedLoop field tokens value
    | some [] =>
      match tokens with
      | [] => value
      | number :: rest => namedLoop field rest (value + strtoull number)
    | some number => namedLoop field tokens (value + strtoull number)

/-- `named_field`. -/
def namedField (file : Option Text) (field : Text) : Option UInt64 :=
  (readText 4096 file).map fun text => namedLoop field (strtok₂ ' ' '\n' text) 0

/-! ## `cpu.stat` -/

/-- `sscanf(line, "%63s %llu", key, &parsed) == 2`: the key and the number. -/
def scanLine (line : Text) : Option (Text × UInt64) :=
  let start := line.dropWhile isSpace
  let key := (start.takeWhile (!isSpace ·)).take 63
  if key = [] then none
  else (strtou 64 (start.drop key.length)).map fun c => (key, UInt64.ofNat c.value)

/-- The loop of `cpu_field`. -/
def cpuLoop (field : Text) : List Text → Option UInt64
  | [] => none
  | line :: lines =>
    match scanLine line with
    | some (key, parsed) => if key = field then some parsed else cpuLoop field lines
    | none => cpuLoop field lines

/-- `cpu_field`. -/
def cpuField (file : Option Text) (field : Text) : Option UInt64 :=
  (readText 2048 file).bind fun text => cpuLoop field (strtok '\n' text)

end MiniContainer.Stats
