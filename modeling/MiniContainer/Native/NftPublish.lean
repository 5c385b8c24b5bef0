import MiniContainer.Native.Nft
import MiniContainer.Native.Parse

/-!
# Published ports

The script that `mc_nft_add_container` hands to `nft -f -`, and what the rules in it
do with a packet.

What is modelled of `nft` is the part of its language that the script uses: a rule
asks something of the destination address, asks for a protocol and a destination
port, and ends with a verdict. A chain is traversed from its first rule on, up to a
rule that applies.
-/

namespace MiniContainer.Nft

open CString (Text strchr strtok decimal)

/-! ## The script -/

/-- `add rule inet minicontainer CHAIN %s%s%s %s dport %u dnat ip to %s:%u comment
    "minicontainer:%s"`. The three fragments in front hold the test of the destination
    address. -/
def dnatCommand (chain : Chain) (test host blank protocol : Text) (hostPort : UInt16)
    (containerIp : Text) (containerPort : UInt16) (id : Text) : Text :=
  "add rule inet minicontainer ".toList ++ chain.name ++ ' ' :: (test ++ host ++ blank) ++
    ' ' :: protocol ++ " dport ".toList ++ decimal hostPort.toNat ++ " dnat ip to ".toList ++
    (containerIp ++ ':' :: decimal containerPort.toNat) ++
    " comment ".toList ++ ("\"minicontainer:".toList ++ id ++ ['"']) ++ ['\n']

/-- `add rule inet minicontainer forward ip daddr %s %s dport %u accept comment
    "minicontainer:%s"`. -/
def acceptCommand (containerIp protocol : Text) (containerPort : UInt16) (id : Text) : Text :=
  "add rule inet minicontainer forward ip daddr ".toList ++ containerIp ++ ' ' :: protocol ++
    " dport ".toList ++ decimal containerPort.toNat ++ " accept".toList ++
    " comment ".toList ++ ("\"minicontainer:".toList ++ id ++ ['"']) ++ ['\n']

/-- The three commands of one published port. For a port of all addresses the fragments
    around the host address are empty, except for the test of the output chain. -/
def publishCommands (id : Text) (ipv4Host : UInt32) (p : Publish) : Text :=
  let containerIp := inetNtop ipv4Host
  let hostIp := inetNtop p.hostIpv4
  let protocol := protocolName p.protocol
  dnatCommand .prerouting (if p.hostIpv4 = 0 then [] else "ip daddr ".toList)
      (if p.hostIpv4 = 0 then [] else hostIp) (if p.hostIpv4 = 0 then [] else [' '])
      protocol p.hostPort containerIp p.containerPort id ++
    dnatCommand .output
      (if p.hostIpv4 = 0 then "fib daddr type local ".toList else "ip daddr ".toList)
      (if p.hostIpv4 = 0 then [] else hostIp) (if p.hostIpv4 = 0 then [] else [' '])
      protocol p.hostPort containerIp p.containerPort id ++
    acceptCommand containerIp protocol p.containerPort id

/-- The loop over the published ports. `used` is the script so far; a port whose commands do
    not fit behind it ends the loop with an error. -/
def publishLoop (capacity : Nat) (id : Text) (ipv4Host : UInt32) (used : Text) :
    List Publish → Option Text
  | [] => some used
  | p :: publishes =>
    if capacity - used.length ≤ (publishCommands id ipv4Host p).length then none
    else publishLoop capacity id ipv4Host (used ++ publishCommands id ipv4Host p) publishes

/-- The script of `mc_nft_add_container`, assembled in a buffer of 1024 bytes for each port.
    Without ports nothing is sent, which is the empty script. -/
def publishScript (id : Text) (ipv4Host : UInt32) (publishes : List Publish) : Option Text :=
  publishLoop (publishes.length * 1024 + 1) id ipv4Host [] publishes

/-! ## Reading rules -/

/-- What a rule asks of the destination address. -/
inductive Destination where
  | any
  | address (address : UInt32)
  /-- `fib daddr type local`: the host has the address. -/
  | ofHost
  deriving DecidableEq, Repr

inductive Verdict where
  | dnat (address : UInt32) (port : UInt16)
  | accept
  deriving DecidableEq, Repr

structure Statement where
  destination : Destination
  protocol : UInt8
  port : UInt16
  verdict : Verdict
  deriving DecidableEq, Repr

/-- A decimal port number. -/
def readPort (digits : Text) : Option UInt16 :=
  if digits ≠ [] ∧ digits.all Char.isDigit ∧ Nat.ofDigitChars 10 digits 0 < 65536 then
    some (UInt16.ofNat (Nat.ofDigitChars 10 digits 0))
  else none

/-- `ADDRESS:PORT`. -/
def readEndpoint (text : Text) : Option (UInt32 × UInt16) := do
  let (address, port) ← strchr ':' text
  some (← inetPton address, ← readPort port)

/-- The test of the destination address at the front of a rule, and the words behind it. -/
def readDestination : List Text → Option (Destination × List Text)
  | a :: b :: c :: d :: rest =>
    if a = "ip".toList ∧ b = "daddr".toList then
      (inetPton c).map fun address => (.address address, d :: rest)
    else if a = "fib".toList ∧ b = "daddr".toList ∧ c = "type".toList ∧ d = "local".toList then
      some (.ofHost, rest)
    else some (.any, a :: b :: c :: d :: rest)
  | _ => none

/-- `PROTOCOL dport PORT`, and the words behind it. -/
def readTransport : List Text → Option (UInt8 × UInt16 × List Text)
  | a :: b :: c :: rest =>
    if b = "dport".toList then do
      some (← publishProtocol a, ← readPort c, rest)
    else none
  | _ => none

/-- Behind the verdict stands nothing or a comment. -/
def endsRule : List Text → Bool
  | [] => true
  | [word, _] => word == "comment".toList
  | _ => false

/-- The words behind `dnat`. -/
def readDnat : List Text → Option Verdict
  | a :: b :: c :: rest =>
    if a = "ip".toList ∧ b = "to".toList ∧ endsRule rest = true then
      (readEndpoint c).map fun (address, port) => .dnat address port
    else none
  | _ => none

def readVerdict : List Text → Option Verdict
  | a :: rest =>
    if a = "accept".toList then if endsRule rest then some .accept else none
    else if a = "dnat".toList then readDnat rest
    else none
  | [] => none

/-- The words of a rule. -/
def readStatement (words : List Text) : Option Statement := do
  let (destination, words) ← readDestination words
  let (protocol, port, words) ← readTransport words
  some ⟨destination, protocol, port, ← readVerdict words⟩

/-- `nft` reading one command that adds a rule. -/
def readCommand (line : Text) : Option (Chain × Statement) :=
  match strtok ' ' line with
  | a :: b :: c :: d :: chain :: words =>
    if a = "add".toList ∧ b = "rule".toList ∧ c = "inet".toList ∧ d = "minicontainer".toList then do
      some (← chainOrder.find? (·.name == chain), ← readStatement words)
    else none
  | _ => none

/-- The rules that a script adds, in its order. -/
def readRules (script : Text) : Option (List (Chain × Statement)) :=
  (strtok '\n' script).mapM readCommand

/-- The rules among these that stand in a chain. -/
def rulesOf (rules : List (Chain × Statement)) (chain : Chain) : List Statement :=
  (rules.filter (·.1 == chain)).map (·.2)

/-! ## Packets -/

/-- A packet on its way into a chain. -/
structure Packet where
  destination : UInt32
  /-- The host has the destination address. -/
  isLocal : Bool
  protocol : UInt8
  port : UInt16
  deriving DecidableEq, Repr

def Destination.holds (packet : Packet) : Destination → Bool
  | .any => true
  | .address wanted => packet.destination == wanted
  | .ofHost => packet.isLocal

def Statement.applies (s : Statement) (packet : Packet) : Bool :=
  s.destination.holds packet && packet.protocol == s.protocol && packet.port == s.port

/-- The address and port to which a chain redirects a packet, by the first rule that applies. -/
def redirect (packet : Packet) : List Statement → Option (UInt32 × UInt16)
  | [] => none
  | s :: rules =>
    if s.applies packet then
      match s.verdict with
      | .dnat address port => some (address, port)
      | .accept => none
    else redirect packet rules

end MiniContainer.Nft
