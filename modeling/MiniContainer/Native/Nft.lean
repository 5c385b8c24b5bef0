import MiniContainer.Native.Types

/-!
# Packet filter rules

`mc_nft_add_container` and `mc_nft_remove_container`. Removal lists each chain
through `nft -a list chain`, picks the rules with the container's comment out of
the captured text and sends one script of `delete rule` commands to `nft -f -`.
The listing is captured in a buffer of 32768 bytes and the script is assembled in
one of 8192 bytes.

What is modelled of `nft` is its part of the contract: it prints one rule on a
line with its comment followed by its handle, and it executes a script completely
or not at all.
-/

namespace MiniContainer

open CString (Text strstr strtok strtou decimal)

/-! ## Rules and chains -/

/-- The chains that hold rules of containers. -/
inductive Chain where
  | prerouting
  | output
  | forward
  deriving DecidableEq, Repr

def Chain.name : Chain → Text
  | .prerouting => "prerouting".toList
  | .output => "output".toList
  | .forward => "forward".toList

/-- The array `chains`, in the order in which removal lists them. -/
def chainOrder : List Chain := [.prerouting, .output, .forward]

/-- The words in front of a comment, up to its opening quotation mark. -/
def commentWords : Text := "comment ".toList

/-- The words in front of a handle. -/
def handleWords : Text := "# handle ".toList

/-- The start of the comment of every rule that belongs to a container. -/
def ownerWord : Text := "minicontainer:".toList

/-- The comment of the rules of a container. -/
def ownerComment (id : Text) : Text := ownerWord ++ id

/-- The text with which the printed comment of every container's rule starts. -/
def ownerPhrase : Text := commentWords ++ '"' :: ownerWord

/-- The handle of a rule. -/
structure Handle where
  number : Nat
  pos : 0 < number
  lt : number < 2 ^ 64
  deriving DecidableEq

/-- How a comment is printed. -/
def printComment : Option Text → Text
  | none => []
  | some c => commentWords ++ '"' :: (c ++ '"' :: [' '])

/-- How a rule is printed: its statement, its comment and its handle. -/
def printRule (statement : Text) (comment : Option Text) (handle : Nat) : Text :=
  statement ++ (printComment comment ++ (handleWords ++ decimal handle))

/-- A rule of a chain. It prints on one line, and the words that start the comment of a
    container's rule stand nowhere in that line but at the comment. -/
structure Rule where
  /-- The text in front of the comment, with its indentation. -/
  statement : Text
  comment : Option Text
  handle : Handle
  statement_line : '\n' ∉ statement
  comment_line : ∀ c ∈ comment, '\n' ∉ c
  comment_quote : ∀ c ∈ comment, '"' ∉ c
  phrase_at : ∀ n, ownerPhrase <+: (printRule statement comment handle.number).drop n →
    n = statement.length

def Rule.line (r : Rule) : Text := printRule r.statement r.comment r.handle.number

/-- The rule belongs to the container. -/
def Rule.ownedBy (r : Rule) (id : Text) : Bool := r.comment == some (ownerComment id)

/-- The rules of the table, chain by chain. -/
abbrev Chains := Chain → List Rule

/-! ## Listing a chain -/

/-- The lines that `nft` prints around the rules of a chain. -/
structure ChainFrame where
  head : List Text
  tail : List Text
  one_line : ∀ l ∈ head ++ tail, '\n' ∉ l
  no_phrase : ∀ l ∈ head ++ tail, ∀ n, ¬ownerPhrase <+: l.drop n

/-- The lines of `nft -a list chain inet minicontainer CHAIN`. -/
def listingLines (frame : ChainFrame) (rules : List Rule) : List Text :=
  frame.head ++ rules.map Rule.line ++ frame.tail

/-- Lines of output. -/
def printLines (lines : List Text) : Text := lines.flatMap (· ++ ['\n'])

def listing (frame : ChainFrame) (rules : List Rule) : Text :=
  printLines (listingLines frame rules)

/-- `capture_nft` with a buffer of 32768 bytes. When there is more output than fits, the
    pipe is closed on `nft`: `survives` says whether it had written everything before and
    exits with status 0. `none` is a status other than 0. -/
def captureNft (survives : Bool) (text : Text) : Option Text :=
  if text.length ≤ 32767 then some text
  else if survives then some (text.take 32767)
  else none

/-! ## The deletion script -/

/-- The text that `strstr` looks for in a line. -/
def marker (id : Text) : Text :=
  CString.snprintf 80 (commentWords ++ '"' :: (ownerComment id ++ ['"']))

/-- The number behind the words that announce a handle; 0 is none. -/
def readHandle (digits : Text) : Option Nat :=
  match strtou 64 digits with
  | none => none
  | some number => if 0 < number.value then some number.value else none

/-- The handle in one line of the listing, if the line holds the container's comment. -/
def lineHandle (id line : Text) : Option Nat :=
  match strstr (marker id) line with
  | none => none
  | some owned =>
    match strstr handleWords owned with
    | none => none
    | some handle => readHandle (handle.drop handleWords.length)

/-- The command that deletes one rule, in front of its handle. -/
def deleteWords (chain : Chain) : Text :=
  "delete rule inet minicontainer ".toList ++ chain.name ++ " handle ".toList

def deleteCommand (command : Chain × Nat) : Text := deleteWords command.1 ++ decimal command.2

def deleteLine (command : Chain × Nat) : Text := deleteCommand command ++ ['\n']

/-- The buffer `script`: the text up to `script_used`, and what `snprintf` left behind it. -/
structure Script where
  used : Text
  leftover : Text
  deriving DecidableEq

/-- One `snprintf` into the rest of the buffer. A line that does not fit is not counted,
    but as much of it as fits stays in the buffer. -/
def Script.append (s : Script) (line : Text) : Script :=
  if line.length < 8192 - s.used.length then ⟨s.used ++ line, []⟩
  else ⟨s.used, line.take (8192 - s.used.length - 1)⟩

/-- The commands for the rules of a container that the listing of a chain shows. -/
def chainCommands (id : Text) (chain : Chain) (captured : Option Text) : List (Chain × Nat) :=
  match captured with
  | none => []
  | some text => (strtok '\n' text).filterMap fun line => (lineHandle id line).map (chain, ·)

/-- What `mc_nft_remove_container` knows about the machine besides the rules. -/
structure NftView where
  frame : Chain → ChainFrame
  survives : Chain → Bool

/-- The commands that the loop over the chains finds, in order. -/
def removalCommands (view : NftView) (id : Text) (chains : Chains) : List (Chain × Nat) :=
  chainOrder.flatMap fun chain =>
    chainCommands id chain
      (captureNft (view.survives chain) (listing (view.frame chain) (chains chain)))

/-- The script buffer after the loop. -/
def removalScript (commands : List (Chain × Nat)) : Script :=
  (commands.map deleteLine).foldl Script.append ⟨[], []⟩

/-! ## Executing a script -/

/-- `nft` reading a line of the script as a deletion in a chain. -/
def parseDeleteIn (line : Text) (chain : Chain) : Option (Chain × Nat) :=
  if (deleteWords chain).isPrefixOf line then
    let digits := line.drop (deleteWords chain).length
    if digits ≠ [] ∧ digits.all Char.isDigit then some (chain, Nat.ofDigitChars 10 digits 0)
    else none
  else none

/-- `nft` reading one command of the script. -/
def parseDelete (line : Text) : Option (Chain × Nat) :=
  chainOrder.findSome? (parseDeleteIn line)

/-- `nft` reading a script. -/
def readScript (script : Text) : Option (List (Chain × Nat)) :=
  (strtok '\n' script).mapM parseDelete

/-- The deletion of one rule, which must exist. -/
def deleteRule (chains : Chains) (command : Chain × Nat) : Option Chains :=
  if (chains command.1).any (·.handle.number == command.2) then
    some (Function.update chains command.1
      ((chains command.1).filter (·.handle.number != command.2)))
  else none

/-- `nft -f -`: the whole script is executed, or, when a command cannot be parsed or
    executed, nothing of it. -/
def executeNft (script : Text) (chains : Chains) : Chains :=
  match readScript script with
  | none => chains
  | some commands => (commands.foldlM deleteRule chains).getD chains

/-- `mc_nft_remove_container`, once it holds the lock. -/
def nftRemoveContainer (view : NftView) (id : Text) (chains : Chains) : Chains :=
  let script := removalScript (removalCommands view id chains)
  if script.used = [] then chains else executeNft (script.used ++ script.leftover) chains

/-! ## Adding rules -/

/-- `inet_ntop`. -/
def inetNtop (address : UInt32) : Text :=
  let n := address.toNat
  decimal (n / 2 ^ 24) ++ '.' :: decimal (n / 2 ^ 16 % 256) ++ '.' :: decimal (n / 2 ^ 8 % 256) ++
    '.' :: decimal (n % 256)

def protocolName (protocol : UInt8) : Text :=
  if protocol = ipprotoTcp then "tcp".toList else "udp".toList

/-- The statement of the rule that a published port adds to a chain, as `nft` prints it. -/
def publishStatement (ipv4Host : UInt32) (p : Publish) : Chain → Text
  | .prerouting =>
    "\t\t".toList ++
      (if p.hostIpv4 = 0 then [] else "ip daddr ".toList ++ inetNtop p.hostIpv4 ++ [' ']) ++
      protocolName p.protocol ++ " dport ".toList ++ decimal p.hostPort.toNat ++
      " dnat ip to ".toList ++ inetNtop ipv4Host ++ ':' :: decimal p.containerPort.toNat ++ [' ']
  | .output =>
    "\t\t".toList ++ (if p.hostIpv4 = 0 then "fib daddr type local ".toList
        else "ip daddr ".toList ++ inetNtop p.hostIpv4 ++ [' ']) ++
      protocolName p.protocol ++ " dport ".toList ++ decimal p.hostPort.toNat ++
      " dnat ip to ".toList ++ inetNtop ipv4Host ++ ':' :: decimal p.containerPort.toNat ++ [' ']
  | .forward =>
    "\t\tip daddr ".toList ++ inetNtop ipv4Host ++ ' ' :: protocolName p.protocol ++
      " dport ".toList ++ decimal p.containerPort.toNat ++ " accept ".toList

/-! ### The added rules are rules -/

/-- Text without quotation marks and line breaks. -/
def PlainText (s : Text) : Prop := '"' ∉ s ∧ '\n' ∉ s

instance (s : Text) : Decidable (PlainText s) := inferInstanceAs (Decidable (_ ∧ _))

theorem PlainText.append {s t : Text} (hs : PlainText s) (ht : PlainText t) :
    PlainText (s ++ t) :=
  ⟨by simp [hs.1, ht.1], by simp [hs.2, ht.2]⟩

theorem PlainText.cons {c : Char} {s : Text} (hc : PlainText [c]) (hs : PlainText s) :
    PlainText (c :: s) := hc.append hs

/-- Digits, letters and other characters that are neither. -/
theorem plainText_of_forall {s : Text} {p : Char → Bool} (hs : ∀ c ∈ s, p c = true)
    (hq : p '"' = false) (hn : p '\n' = false) : PlainText s :=
  ⟨fun h => by simp [hs _ h] at hq, fun h => by simp [hs _ h] at hn⟩

theorem plainText_decimal (n : Nat) : PlainText (decimal n) :=
  plainText_of_forall (fun _ => CString.isDigit_of_mem_decimal) (by decide) (by decide)

theorem plainText_inetNtop (address : UInt32) : PlainText (inetNtop address) := by
  have hdot : PlainText ['.'] := by decide
  refine .append (.append (.append (plainText_decimal _) (.cons hdot (plainText_decimal _)))
    (.cons hdot (plainText_decimal _))) (.cons hdot (plainText_decimal _))

theorem plainText_protocolName (protocol : UInt8) : PlainText (protocolName protocol) := by
  simp only [protocolName]
  split <;> decide

theorem plainText_publishStatement (ipv4Host : UInt32) (p : Publish) (chain : Chain) :
    PlainText (publishStatement ipv4Host p chain) := by
  have hip := plainText_inetNtop ipv4Host
  have haddr := plainText_inetNtop p.hostIpv4
  have hproto := plainText_protocolName p.protocol
  have htail : PlainText (':' :: decimal p.containerPort.toNat) :=
    .cons (by decide) (plainText_decimal _)
  have hdaddr : PlainText ("ip daddr ".toList ++ inetNtop p.hostIpv4 ++ [' ']) :=
    .append (.append (by decide) haddr) (by decide)
  cases chain with
  | prerouting | output =>
    refine .append (.append (.append (.append (.append (.append (.append (.append
      (by decide) ?_) hproto) (by decide)) (plainText_decimal _)) (by decide)) hip) htail)
      (by decide)
    split
    · decide
    · exact hdaddr
  | forward =>
    exact .append (.append (.append (.append (.append (by decide) hip) (.cons (by decide) hproto))
      (by decide)) (plainText_decimal _)) (by decide)

theorem plainText_ownerComment (id : ContainerId) : PlainText (ownerComment id.text) :=
  .append (by decide) (plainText_of_forall id.hex (by decide) (by decide))

/-- The positions of the two quotation marks around a comment. -/
private theorem quote_position {a c b : Text} (ha : '"' ∉ a) (hc : '"' ∉ c) (hb : '"' ∉ b)
    {k : Nat} (h : (a ++ '"' :: (c ++ '"' :: b))[k]? = some '"') :
    k = a.length ∨ k = a.length + 1 + c.length := by
  rw [List.getElem?_append] at h
  split at h
  · exact absurd (List.mem_of_getElem? h) ha
  · by_cases h₀ : k - a.length = 0
    · omega
    · obtain ⟨j, hj⟩ := Nat.exists_eq_succ_of_ne_zero h₀
      rw [hj, List.getElem?_cons_succ, List.getElem?_append] at h
      split at h
      · exact absurd (List.mem_of_getElem? h) hc
      · by_cases h₁ : j - c.length = 0
        · omega
        · obtain ⟨i, hi⟩ := Nat.exists_eq_succ_of_ne_zero h₁
          rw [hi, List.getElem?_cons_succ] at h
          exact absurd (List.mem_of_getElem? h) hb

/-- In a line whose only quotation marks enclose the comment, the words that start a
    container's comment stand where the comment stands. -/
theorem phrase_at_of_plainText {statement c : Text} (hs : PlainText statement)
    (hc : PlainText c) (handle n : Nat)
    (h : ownerPhrase <+: (printRule statement (some c) handle).drop n) :
    n = statement.length := by
  obtain ⟨t, ht⟩ := h
  have hplain : PlainText (' ' :: (handleWords ++ decimal handle)) :=
    .cons (by decide) (.append (by decide) (plainText_decimal _))
  have hfront : PlainText (statement ++ commentWords) := hs.append (by decide)
  have hline : printRule statement (some c) handle =
      (statement ++ commentWords) ++
        '"' :: (c ++ '"' :: ' ' :: (handleWords ++ decimal handle)) := by
    simp only [printRule, printComment, List.append_assoc, List.cons_append, List.nil_append]
  -- the ninth character of the words is a quotation mark, the tenth is not a blank
  have h8 : (printRule statement (some c) handle)[n + 8]? = some '"' := by
    rw [← List.getElem?_drop, ← ht]; rfl
  have h9 : (printRule statement (some c) handle)[n + 9]? = some 'm' := by
    rw [← List.getElem?_drop, ← ht]; rfl
  rw [hline] at h8 h9
  rcases quote_position hfront.1 hc.1 hplain.1 h8 with hn | hn
  · simp only [List.length_append] at hn
    have : commentWords.length = 8 := rfl
    omega
  · rw [show n + 9 = (statement ++ commentWords).length + 1 + (c.length + 1) by omega,
      Nat.add_assoc, List.getElem?_append_right (by omega)] at h9
    simp [Nat.add_comm 1] at h9

/-- The rule that a published port adds to a chain. -/
def publishRule (id : ContainerId) (ipv4Host : UInt32) (p : Publish) (chain : Chain)
    (handle : Handle) : Rule where
  statement := publishStatement ipv4Host p chain
  comment := some (ownerComment id.text)
  handle := handle
  statement_line := (plainText_publishStatement ipv4Host p chain).2
  comment_line := by
    rintro _ ⟨⟩
    exact (plainText_ownerComment id).2
  comment_quote := by
    rintro _ ⟨⟩
    exact (plainText_ownerComment id).1
  phrase_at n h := phrase_at_of_plainText (plainText_publishStatement ipv4Host p chain)
    (plainText_ownerComment id) _ n h

/-- The place of a chain in the three commands that each published port adds. -/
def Chain.index : Chain → Nat
  | .prerouting => 0
  | .output => 1
  | .forward => 2

/-- `mc_nft_add_container`: three rules for every published port, one for each chain. The
    script always fits its buffer of 1024 bytes for each port. `handles` are the numbers
    that `nft` gives to the new rules. -/
def nftAddContainer (id : ContainerId) (ipv4Host : UInt32) (publishes : List Publish)
    (handles : Nat → Handle) (chains : Chains) : Chains :=
  fun chain => chains chain ++ publishes.zipIdx.map fun (p, i) =>
    publishRule id ipv4Host p chain (handles (3 * i + chain.index))

end MiniContainer
