import MiniContainer.ForStd.SlotRing
import MiniContainer.Native.Logs
import MiniContainer.Native.Types

/-!
# The tail of a log

The first part of `show_log`, in front of the loop of `--follow`: the lines that `getline` reads go
through a ring of as many slots as lines are wanted. The copies that `strdup` makes are numbered,
so that it shows which of them were released, and how often.
-/

namespace MiniContainer.Logs

/-- A copy of a line: the number of the call of `strdup` that made it, and its text. -/
structure Copy where
  number : Nat
  text : Bytes
  deriving DecidableEq, Repr

/-- The ring, the number of copies that were made, and the copies that were released, in order. -/
structure Tail where
  ring : SlotRing Copy
  copies : Nat := 0
  freed : List Nat := []

namespace Tail

/-- `free`, which does nothing with a null pointer. -/
def free (t : Tail) (pointer : Option Copy) : Tail :=
  { t with freed := t.freed ++ (pointer.map Copy.number).toList }

/-- The loop that releases the slots. -/
def freeRing (t : Tail) : Tail := t.ring.slots.foldl free t

/-- One turn of the reading loop. It is `none` for an access outside the ring, and an error when
    `strdup` fails, after everything was released. -/
def read (t : Tail) (allocated : Bool) (line : Bytes) : Option (Except Tail Tail) :=
  match t.ring.slots[t.ring.next]? with
  | none => none
  | some old =>
    let t := t.free old
    if allocated then
      some (.ok { t with ring := t.ring.push ⟨t.copies, fputs line⟩, copies := t.copies + 1 })
    else
      let slots := t.ring.slots.set t.ring.next none
      some (.error { t with ring := { t.ring with slots } }.freeRing)

/-- The reading loop. `allocate` says whether a call of `strdup` succeeds. -/
def readLines (allocate : Nat → Bool) : List Bytes → Tail → Option (Except Tail Tail)
  | [], t => some (.ok t)
  | line :: lines, t =>
    match t.read (allocate t.copies) line with
    | some (.ok t') => readLines allocate lines t'
    | stopped => stopped

/-- The printing loop from an index on, for this many turns. It is `none` for a null pointer. -/
def printFrom (ring : SlotRing Copy) (index : Nat) : Nat → Option Bytes
  | 0 => some []
  | turns + 1 =>
    match ring.entry index with
    | some (some copy) => (printFrom ring (index + 1) turns).map (fputs copy.text ++ ·)
    | _ => none

end Tail

/-- What `show_log` has done in front of its second loop. -/
structure Shown where
  printed : Bytes
  exit : ExitCode
  copies : Nat
  freed : List Nat

/-- The loops of `show_log` with a ring of `n` slots. -/
def showTail (n : Nat) (allocate : Nat → Bool) (lines : List Bytes) : Option Shown :=
  match Tail.readLines allocate lines { ring := SlotRing.empty n } with
  | none => none
  | some (.error t) => some ⟨[], .internal, t.copies, t.freed⟩
  | some (.ok t) =>
    match Tail.printFrom t.ring 0 t.ring.count with
    | none => none
    | some printed => some ⟨printed, .ok, t.copies, t.freeRing.freed⟩

/-- `show_log` up to the loop of `--follow`. A negative tail prints every line, and the tail 0
    none. -/
def showLines (tail : Int) (calloc : Bool) (allocate : Nat → Bool) (lines : List Bytes) :
    Option Shown :=
  if tail < 0 then some ⟨lines.flatMap fputs, .ok, 0, []⟩
  else if !calloc then some ⟨[], .internal, 0, []⟩
  else if tail = 0 then some ⟨[], .ok, 0, []⟩
  else showTail tail.toNat allocate lines

end MiniContainer.Logs
