import MiniContainer.Native.Signals

/-!
# Control requests

`handle_control` of `linux/container.c` on one connection, from the packet to the reply,
with the checks in the order of the source. `json_tokener_parse` is a parameter; of the
accessors of json-c, `json_object_get_string` returns a null pointer for a JSON null, and
`strcmp` crashes on it.
-/

namespace MiniContainer.Control

open CString (Text)
open JsonC (Value)
open Signals (Signal nsig requested)

/-- What a request makes the shim do. -/
inductive Action where
  /-- `pidfd_send_signal` to the container's init -/
  | pidfdSignal (number : Int)
  /-- a write to `cgroup.kill` -/
  | cgroupKill
  deriving DecidableEq, Repr

/-- What came of a connection: the packets sent on it, and what was done. -/
structure Served where
  replies : List Text
  actions : List Action
  deriving DecidableEq, Repr

/-- `control_reply`: the packets that it sends. -/
def controlReply (ok : Bool) (message : String) : List Text :=
  let response := "\x7b\"version\":1,\"ok\":".toList ++ (if ok then "true" else "false").toList ++
    ",\"message\":\"".toList ++ message.toList ++ "\"\x7d".toList
  if 0 < response.length ∧ response.length < 256 then [response] else []

def refused (message : String) : Served := ⟨controlReply false message, []⟩

/-- The label `invalid`. -/
def invalid : Served := refused "invalid request"

/-- The delivery of a signal; `delivered` says whether the write or the system call
    succeeds. -/
def deliver (active delivered : Bool) (number : Int) : Served :=
  if number ≤ 0 ∨ (nsig : Int) ≤ number then invalid
  else if number = Signals.sigkill then
    if active then
      if delivered then ⟨controlReply true "signal delivered", [.cgroupKill]⟩
      else refused "cgroup kill failed"
    else if delivered then ⟨controlReply true "signal delivered", [.pidfdSignal Signals.sigkill]⟩
    else refused "pidfd signal failed"
  else if delivered then ⟨controlReply true "signal delivered", [.pidfdSignal number]⟩
  else refused "pidfd signal failed"

/-- What follows the checks of the document. -/
def serve (active delivered : Bool) : Option Int → Served
  | none => invalid
  | some number => deliver active delivered number

/-- The text that the tokener gets: at most 1024 bytes of the packet, up to the first NUL. -/
def received (packet : List UInt8) : List UInt8 := (packet.take 1024).takeWhile (· != 0)

/-- `handle_control` behind `accept4`, for a packet (`none` if `recv` fails) from a peer with
    these credentials (`none` if `getsockopt` fails); `none` if it crashes. -/
def handleControl (tokener : List UInt8 → Option Value) (active delivered : Bool)
    (packet : Option (List UInt8)) (uid : Option UInt32) : Option Served :=
  match packet with
  | none | some [] => some invalid
  | some packet =>
    if uid ≠ some 0 then some (refused "permission denied")
    else
      match tokener (received packet) with
      | none => some invalid
      | some root => (requested root).map (serve active delivered)

end MiniContainer.Control
