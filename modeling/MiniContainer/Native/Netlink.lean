import MiniContainer.ForStd.Attributes
import MiniContainer.ForStd.CString

/-!
# Netlink messages

`add_attribute`, `begin_nested` and `end_nested` of `network/netlink.c` on the bytes of a
request, and the requests for links that are built with them. The arithmetic is that of the
macros: `NLMSG_ALIGN` of a 32-bit length, and `RTA_ALIGN` of a `size_t`, whose mask `~3U` has
only 32 bits.
-/

namespace MiniContainer.Netlink

open Rtattr (nlaFNested)

/-! ## Macros -/

/-- `NLMSG_ALIGN` of a `__u32`. -/
def nlmsgAlign (length : UInt32) : UInt32 := (length + 4 - 1) &&& 0xfffffffc

/-- `RTA_ALIGN` of a `size_t`: `(length + 4U - 1) & ~(4U - 1)`, where the mask is extended with
    zeros. -/
def rtaAlign (length : UInt64) : UInt64 := (length + 4 - 1) &&& 0xfffffffc

/-- `RTA_LENGTH` of a `size_t`. -/
def rtaLength (length : UInt64) : UInt64 := 4 + length

/-! ## Messages -/

/-- The requests of the three structures. -/
inductive Request where
  | link
  | address
  | route
  deriving DecidableEq, Repr

/-- The size of the header and the fixed part, with which `nlmsg_len` starts. -/
def Request.base : Request → Nat
  | .link => 32
  | .address => 24
  | .route => 28

/-- The size of the structure. -/
def Request.capacity (r : Request) : Nat :=
  match r with
  | .link => r.base + 2048
  | .address => r.base + 256
  | .route => r.base + 256

/-- A request: its bytes, and the member `nlmsg_len` of its header. -/
structure Message where
  buffer : List UInt8
  length : UInt32
  deriving DecidableEq

/-- Bytes are written at an offset. -/
def poke (buffer : List UInt8) (offset : Nat) (bytes : List UInt8) : List UInt8 :=
  buffer.take offset ++ bytes ++ buffer.drop (offset + bytes.length)

/-- A member of 16 bits. -/
def le16 (n : UInt16) : List UInt8 := Rtattr.le16 n.toNat

/-- `add_attribute`: whether it succeeds, and the message; `none` if it writes behind the end of
    the request. -/
def addAttribute (capacity : Nat) (type : UInt16) (data : List UInt8) (m : Message) :
    Option (Bool × Message) :=
  let offset := (nlmsgAlign m.length).toUInt64
  let attributeLength := rtaLength (UInt64.ofNat data.length)
  if UInt64.ofNat capacity < offset + rtaAlign attributeLength then some (false, m)
  else if capacity < offset.toNat + 4 + data.length then none
  else
    let buffer := poke m.buffer offset.toNat (le16 attributeLength.toUInt16 ++ le16 type)
    let buffer := poke buffer (offset.toNat + 4) data
    some (true, ⟨buffer, (offset + rtaAlign attributeLength).toUInt32⟩)

/-- `begin_nested`: the offset of the attribute, or `none` for a null pointer. -/
def beginNested (capacity : Nat) (type : UInt16) (m : Message) : Option Nat × Message :=
  let offset := (nlmsgAlign m.length).toUInt64
  if UInt64.ofNat capacity < offset + rtaAlign (rtaLength 0) then (none, m)
  else
    let buffer := poke m.buffer offset.toNat
      (le16 (rtaLength 0).toUInt16 ++ le16 (type ||| nlaFNested))
    (some offset.toNat, ⟨buffer, (offset + rtaAlign (rtaLength 0)).toUInt32⟩)

/-- `end_nested`, for the attribute at an offset. -/
def endNested (nested : Nat) (m : Message) : Message :=
  { m with buffer := poke m.buffer nested (le16 (UInt16.ofNat (m.length.toNat - nested))) }

/-- The header of the peer in `create_veth`, a copy of a `struct ifinfomsg`. -/
def addHeader (capacity : Nat) (header : List UInt8) (m : Message) : Bool × Message :=
  let headerLength := nlmsgAlign (UInt32.ofNat header.length)
  if UInt64.ofNat capacity < m.length.toUInt64 + headerLength.toUInt64 then (false, m)
  else (true, ⟨poke m.buffer m.length.toNat header, m.length + headerLength⟩)

/-! ## Calls -/

inductive Call where
  | add (type : UInt16) (data : List UInt8)
  | begin (type : UInt16)
  /-- A header of 16 bytes in front of the attributes of a nested one. -/
  | header (bytes : Fin 16 → UInt8)
  | finish

/-- A message under construction, with the nested attributes that are open, the innermost
    first. -/
structure State where
  message : Message
  stack : List Nat
  deriving DecidableEq

/-- One call: whether it succeeds, and the state; `none` if it writes behind the end of the
    request, or if there is nothing to finish. -/
def call (capacity : Nat) : Call → State → Option (Bool × State)
  | .add type data, s =>
    (addAttribute capacity type data s.message).map fun (ok, m) => (ok, { s with message := m })
  | .begin type, s =>
    match beginNested capacity type s.message with
    | (none, m) => some (false, { s with message := m })
    | (some nested, m) => some (true, ⟨m, nested :: s.stack⟩)
  | .header bytes, s =>
    let (ok, m) := addHeader capacity (List.ofFn bytes) s.message
    some (ok, { s with message := m })
  | .finish, s =>
    match s.stack with
    | [] => none
    | nested :: stack => some (true, ⟨endNested nested s.message, stack⟩)

/-- Calls one behind the other, up to the first that fails. -/
def calls (capacity : Nat) : List Call → State → Option (Bool × State)
  | [], s => some (true, s)
  | c :: cs, s =>
    match call capacity c s with
    | none => none
    | some (false, s') => some (false, s')
    | some (true, s') => calls capacity cs s'

/-- A request without attributes; its fixed part has been filled in. -/
def start (r : Request) (fixed : List UInt8) : State where
  message := ⟨fixed ++ List.replicate (r.capacity - r.base) 0, UInt32.ofNat r.base⟩
  stack := []

/-! ## Requests for links -/

/-- `IFLA_IFNAME` and its like. -/
def iflaIfname : UInt16 := 3

@[inherit_doc iflaIfname]
def iflaMaster : UInt16 := 10

@[inherit_doc iflaIfname]
def iflaLinkinfo : UInt16 := 18

@[inherit_doc iflaIfname]
def iflaNetNsPid : UInt16 := 19

@[inherit_doc iflaIfname]
def iflaInfoKind : UInt16 := 1

@[inherit_doc iflaIfname]
def iflaInfoData : UInt16 := 2

@[inherit_doc iflaIfname]
def vethInfoPeer : UInt16 := 1

/-- A name with its terminating NUL. -/
def cString (name : List UInt8) : List UInt8 := name ++ [0]

/-- The bytes of an ASCII text. -/
def ascii (s : String) : List UInt8 := s.toList.map fun c => UInt8.ofNat c.toNat

/-- The bytes of an `int`. -/
def int32 (i : Int) : List UInt8 :=
  let n := (i % 2 ^ 32).toNat
  Rtattr.le16 (n % 2 ^ 16) ++ Rtattr.le16 (n / 2 ^ 16)

/-- The calls of `create_bridge`. -/
def createBridge : List Call :=
  [.add iflaIfname (cString (ascii "mcbr0")), .begin iflaLinkinfo,
    .add iflaInfoKind (cString (ascii "bridge")), .finish]

/-- The calls of `configure_link`. -/
def configureLink (master netnsPid : Int) (newName : Option (List UInt8)) : List Call :=
  (if 0 < master then [.add iflaMaster (int32 master)] else []) ++
    (if 0 < netnsPid then [.add iflaNetNsPid (int32 netnsPid)] else []) ++
    (newName.map fun name => .add iflaIfname (cString name)).toList

/-- The calls of `create_veth`. -/
def createVeth (host peer : List UInt8) : List Call :=
  [.add iflaIfname (cString host), .begin iflaLinkinfo,
    .add iflaInfoKind (cString (ascii "veth")), .begin iflaInfoData, .begin vethInfoPeer,
    .header fun _ => 0, .add iflaIfname (cString peer), .finish, .finish, .finish]

end MiniContainer.Netlink
