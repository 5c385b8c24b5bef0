import MiniContainer.ForStd.Path
import MiniContainer.Native.NftPublish

/-!
# What published ports redirect

The script of `mc_nft_add_container` reads as three rules for every published port
(`readRules_publishScript`). A chain that holds the rules of ports that do not overlap
redirects a packet to the port whose rule applies.

The prerouting rule of a port of all addresses has no test of the destination address, while
its output rule asks for an address of the host. So the prerouting chain also redirects
packets that the host forwards to another machine.
-/

namespace MiniContainer.Nft

open CString (Text strchr strtok decimal decimal_ne_nil isDigit_of_mem_decimal
  strtok_append_of_getLast strtok_append_of_head strtok_append_sep)

/-! ## Addresses and ports -/

/-- The digits of one octet, in the loop of `inet_pton`. -/
def readOctet (current : Option Nat) : Text → Option (Option Nat)
  | [] => some current
  | c :: s =>
    match current with
    | none => readOctet (some (c.toNat - '0'.toNat)) s
    | some value =>
      if value = 0 ∨ 255 < value * 10 + (c.toNat - '0'.toNat) then none
      else readOctet (some (value * 10 + (c.toNat - '0'.toNat))) s

theorem inetPtonLoop_digits {address octets : Nat} (hoctets : octets < 4) {digits rest : Text}
    (hdigits : ∀ c ∈ digits, c.isDigit = true) {current current' : Option Nat}
    (h : readOctet current digits = some current') :
    inetPtonLoop address octets current (digits ++ rest) =
      inetPtonLoop address octets current' rest := by
  induction digits generalizing current with
  | nil =>
    rw [readOctet, Option.some.injEq] at h
    rw [h, List.nil_append]
  | cons c digits ih =>
    have hc := hdigits c List.mem_cons_self
    have ih' := fun {current} => @ih (fun d hd => hdigits d (List.mem_cons_of_mem c hd)) current
    cases current with
    | none =>
      simp only [readOctet] at h
      simp only [List.cons_append, inetPtonLoop, if_pos hc, if_neg (Nat.not_le.mpr hoctets)]
      exact ih' h
    | some value =>
      simp only [readOctet] at h
      split at h
      · exact nomatch h
      · rename_i hvalue
        simp only [List.cons_append, inetPtonLoop, if_pos hc, if_neg hvalue]
        exact ih' h

theorem readOctet_decimal : ∀ n < 256, readOctet none (decimal n) = some (some n) := by
  decide +kernel

/-- The loop of `inet_pton` reads an octet. -/
theorem inetPtonLoop_octet {address octets n : Nat} (hoctets : octets < 4) (hn : n < 256)
    (rest : Text) :
    inetPtonLoop address octets none (decimal n ++ rest) =
      inetPtonLoop address octets (some n) rest :=
  inetPtonLoop_digits hoctets (fun _ => isDigit_of_mem_decimal) (readOctet_decimal n hn)

/-- The loop of `inet_pton` passes a dot. -/
theorem inetPtonLoop_dot {address octets n : Nat} (hoctets : octets < 3) (rest : Text) :
    inetPtonLoop address octets (some n) ('.' :: rest) =
      inetPtonLoop (address * 256 + n) (octets + 1) none rest := by
  rw [inetPtonLoop, if_neg (by decide), if_pos rfl]
  simp only [if_neg (Nat.ne_of_lt hoctets)]

/-- The last octet ends the address. -/
theorem inetPtonLoop_last {address n : Nat} (hn : n < 256) :
    inetPtonLoop address 3 none (decimal n) = some (UInt32.ofNat (address * 256 + n)) := by
  have h := @inetPtonLoop_octet address 3 n (by decide) hn []
  rw [List.append_nil] at h
  rw [h, inetPtonLoop]
  rfl

/-- An address is read as it is printed. -/
theorem inetPton_inetNtop (address : UInt32) : inetPton (inetNtop address) = some address := by
  have hlt := address.toNat_lt
  unfold inetPton inetNtop
  simp only [List.append_assoc, List.cons_append]
  rw [inetPtonLoop_octet (by omega) (by omega), inetPtonLoop_dot (by omega),
    inetPtonLoop_octet (by omega) (by omega), inetPtonLoop_dot (by omega),
    inetPtonLoop_octet (by omega) (by omega), inetPtonLoop_dot (by omega),
    inetPtonLoop_last (by omega)]
  rw [Option.some.injEq, UInt32.ofNat_eq_iff_mod_eq_toNat]
  omega

theorem readPort_decimal (port : UInt16) : readPort (decimal port.toNat) = some port := by
  have hdigits : (decimal port.toNat).all Char.isDigit = true :=
    List.all_eq_true.mpr fun _ => isDigit_of_mem_decimal
  have hlt := port.toNat_lt
  unfold readPort
  rw [CString.ofDigitChars_decimal, if_pos ⟨decimal_ne_nil _, hdigits, hlt⟩,
    UInt16.ofNat_toNat]

/-- Digits and dots hold no other character. -/
theorem not_mem_inetNtop (address : UInt32) {c : Char} (hdigit : c.isDigit = false)
    (hdot : c ≠ '.') : c ∉ inetNtop address := by
  have hdecimal : ∀ n, c ∉ decimal n := by
    intro n h
    rw [isDigit_of_mem_decimal h] at hdigit
    exact nomatch hdigit
  simp [inetNtop, hdecimal, hdot]

theorem readEndpoint_eq (address : UInt32) (port : UInt16) :
    readEndpoint (inetNtop address ++ ':' :: decimal port.toNat) = some (address, port) := by
  have hcolon := not_mem_inetNtop address (c := ':') (by decide) (by decide)
  unfold readEndpoint
  rw [CString.strchr_append hcolon]
  simp only [Option.bind_eq_bind, Option.bind_some, inetPton_inetNtop, readPort_decimal]

/-! ## Reading the script -/

/-- The words of the test of the destination address, at the front of a redirecting rule. -/
def testWords (wildcard : List Text) (p : Publish) : List Text :=
  if p.hostIpv4 = 0 then wildcard else ["ip".toList, "daddr".toList, inetNtop p.hostIpv4]

/-- The words of a redirecting rule behind its test. -/
def dnatWords (ipv4Host : UInt32) (p : Publish) : List Text :=
  [protocolName p.protocol, "dport".toList, decimal p.hostPort.toNat, "dnat".toList, "ip".toList,
    "to".toList, inetNtop ipv4Host ++ ':' :: decimal p.containerPort.toNat]

/-- The words of the rules of a published port. -/
def ruleWords (ipv4Host : UInt32) (p : Publish) : Chain → List Text
  | .prerouting => testWords [] p ++ dnatWords ipv4Host p
  | .output =>
    testWords ["fib".toList, "daddr".toList, "type".toList, "local".toList] p ++
      dnatWords ipv4Host p
  | .forward =>
    ["ip".toList, "daddr".toList, inetNtop ipv4Host, protocolName p.protocol, "dport".toList,
      decimal p.containerPort.toNat, "accept".toList]

/-- What the rules of a published port ask and do. -/
def publishedRule (ipv4Host : UInt32) (p : Publish) : Chain → Statement
  | .prerouting =>
    ⟨if p.hostIpv4 = 0 then .any else .address p.hostIpv4, p.protocol, p.hostPort,
      .dnat ipv4Host p.containerPort⟩
  | .output =>
    ⟨if p.hostIpv4 = 0 then .ofHost else .address p.hostIpv4, p.protocol, p.hostPort,
      .dnat ipv4Host p.containerPort⟩
  | .forward => ⟨.address ipv4Host, p.protocol, p.containerPort, .accept⟩

theorem publishProtocol_protocolName {protocol : UInt8}
    (h : protocol = ipprotoTcp ∨ protocol = ipprotoUdp) :
    publishProtocol (protocolName protocol) = some protocol := by
  rcases h with rfl | rfl <;> decide

section Reading

variable {ipv4Host : UInt32} {p : Publish}

theorem readTransport_dnatWords (hprotocol : p.protocol = ipprotoTcp ∨ p.protocol = ipprotoUdp)
    (rest : List Text) :
    readTransport (dnatWords ipv4Host p ++ rest) =
      some (p.protocol, p.hostPort, ["dnat".toList, "ip".toList, "to".toList,
        inetNtop ipv4Host ++ ':' :: decimal p.containerPort.toNat] ++ rest) := by
  simp only [dnatWords, List.cons_append, List.nil_append, readTransport,
    publishProtocol_protocolName hprotocol, readPort_decimal]
  rfl

theorem readVerdict_dnat (address : UInt32) (port : UInt16) {rest : List Text}
    (hend : endsRule rest = true) :
    readVerdict (["dnat".toList, "ip".toList, "to".toList,
      inetNtop address ++ ':' :: decimal port.toNat] ++ rest) = some (.dnat address port) := by
  have hdnat : readDnat (["ip".toList, "to".toList,
      inetNtop address ++ ':' :: decimal port.toNat] ++ rest) = some (.dnat address port) := by
    simp only [List.cons_append, List.nil_append, readDnat, hend, readEndpoint_eq, and_self,
      if_true, Option.map_some]
  show readVerdict ("dnat".toList :: _) = _
  rw [readVerdict, if_neg (by decide), if_pos rfl]
  exact hdnat

/-- A redirecting rule is read by its test and its target. -/
theorem readStatement_dnat (hprotocol : p.protocol = ipprotoTcp ∨ p.protocol = ipprotoUdp)
    {test rest : List Text} {destination : Destination} (hend : endsRule rest = true)
    (htest : readDestination (test ++ (dnatWords ipv4Host p ++ rest)) =
      some (destination, dnatWords ipv4Host p ++ rest)) :
    readStatement (test ++ dnatWords ipv4Host p ++ rest) =
      some ⟨destination, p.protocol, p.hostPort, .dnat ipv4Host p.containerPort⟩ := by
  unfold readStatement
  rw [List.append_assoc, htest]
  simp only [Option.bind_eq_bind, Option.bind_some, readTransport_dnatWords hprotocol,
    readVerdict_dnat _ _ hend]

theorem readStatement_ruleWords (hprotocol : p.protocol = ipprotoTcp ∨ p.protocol = ipprotoUdp)
    (chain : Chain) {rest : List Text} (hend : endsRule rest = true) :
    readStatement (ruleWords ipv4Host p chain ++ rest) = some (publishedRule ipv4Host p chain) := by
  cases chain with
  | prerouting | output =>
    apply readStatement_dnat hprotocol hend
    unfold testWords
    split
    · simp [dnatWords, readDestination]
    · simp [dnatWords, readDestination, inetPton_inetNtop]
  | forward =>
    have hverdict : readVerdict ("accept".toList :: rest) = some .accept := by
      rw [readVerdict, if_pos rfl, if_pos hend]
    unfold readStatement ruleWords
    simp only [List.cons_append, List.nil_append, readDestination, and_self, if_true,
      inetPton_inetNtop, Option.map_some, Option.bind_eq_bind, Option.bind_some, readTransport,
      publishProtocol_protocolName hprotocol, readPort_decimal, hverdict, publishedRule]

end Reading

/-! ### Lines and words -/

/-- A word of a command. -/
def IsWord (w : Text) : Prop := w ≠ [] ∧ ' ' ∉ w ∧ '\n' ∉ w

theorem IsWord.strtok {w : Text} (h : IsWord w) : strtok ' ' w = [w] :=
  CString.strtok_of_not_mem h.2.1 h.1

theorem isWord_decimal (n : Nat) : IsWord (decimal n) := by
  refine ⟨decimal_ne_nil n, fun h => ?_, fun h => ?_⟩
  · exact nomatch isDigit_of_mem_decimal h
  · exact nomatch isDigit_of_mem_decimal h

theorem isWord_inetNtop (address : UInt32) : IsWord (inetNtop address) :=
  ⟨by simp [inetNtop], not_mem_inetNtop address (by decide) (by decide),
    not_mem_inetNtop address (by decide) (by decide)⟩

theorem isWord_protocolName (protocol : UInt8) : IsWord (protocolName protocol) := by
  unfold protocolName IsWord
  split <;> decide

theorem isWord_endpoint (address : UInt32) (port : UInt16) :
    IsWord (inetNtop address ++ ':' :: decimal port.toNat) := by
  have ha := isWord_inetNtop address
  have hp := isWord_decimal port.toNat
  refine ⟨by simp, ?_, ?_⟩
  · simp [ha.2.1, hp.2.1]
  · simp [ha.2.2, hp.2.2]

/-- The comment of a container is one word. -/
theorem isWord_comment (id : ContainerId) :
    IsWord ("\"minicontainer:".toList ++ id.text ++ ['"']) := by
  have hhex : ∀ c, isHexDigit c = false → c ∉ id.text := by
    intro c hc hmem
    rw [id.hex c hmem] at hc
    exact nomatch hc
  refine ⟨by simp, ?_, ?_⟩
  · simp [hhex ' ' (by decide)]
  · simp [hhex '\n' (by decide)]

/-- The words in front of every rule of the script. -/
def addWords (chain : Chain) : List Text :=
  ["add".toList, "rule".toList, "inet".toList, "minicontainer".toList, chain.name]

/-- The words behind every rule of the script. -/
def ownerWords (id : ContainerId) : List Text :=
  ["comment".toList, "\"minicontainer:".toList ++ id.text ++ ['"']]

theorem isWord_name (chain : Chain) : IsWord chain.name := by
  unfold IsWord
  cases chain <;> decide

/-- The text is a line with these words. -/
def IsLine (text : Text) (words : List Text) : Prop :=
  ∃ line, text = line ++ ['\n'] ∧ '\n' ∉ line ∧ strtok ' ' line = words

theorem isLine_dnatCommand (ipv4Host : UInt32) (p : Publish) (id : ContainerId) (chain : Chain)
    {test host blank : Text} (hline : '\n' ∉ test ++ host ++ blank) :
    IsLine (dnatCommand chain test host blank (protocolName p.protocol) p.hostPort
        (inetNtop ipv4Host) p.containerPort id.text)
      (addWords chain ++ (strtok ' ' (test ++ host ++ blank) ++ dnatWords ipv4Host p ++
        ownerWords id)) := by
  have hname := isWord_name chain
  have hprotocol := isWord_protocolName p.protocol
  have hport := isWord_decimal p.hostPort.toNat
  have htarget := isWord_endpoint ipv4Host p.containerPort
  have hcomment := isWord_comment id
  unfold dnatCommand addWords dnatWords ownerWords
  generalize test ++ host ++ blank = tests at hline ⊢
  generalize inetNtop ipv4Host ++ ':' :: decimal p.containerPort.toNat = target at htarget ⊢
  generalize "\"minicontainer:".toList ++ id.text ++ ['"'] = comment at hcomment ⊢
  generalize protocolName p.protocol = protocol at hprotocol ⊢
  generalize decimal p.hostPort.toNat = port at hport ⊢
  refine ⟨_, rfl, ?_, ?_⟩
  · have hwords : '\n' ∉ "add rule inet minicontainer ".toList ∧ '\n' ∉ " dport ".toList ∧
        '\n' ∉ " dnat ip to ".toList ∧ '\n' ∉ " comment ".toList := by decide
    simp only [List.mem_append, List.mem_cons, not_or]
    simp only [hname.2.2, hprotocol.2.2, hport.2.2, htarget.2.2, hcomment.2.2, hline, hwords]
    decide
  · simp only [List.append_assoc, List.cons_append]
    rw [strtok_append_of_getLast rfl, strtok_append_sep, strtok_append_sep,
      strtok_append_of_head rfl, strtok_append_of_getLast rfl,
      strtok_append_of_head rfl, strtok_append_of_getLast rfl,
      strtok_append_of_head rfl, strtok_append_of_getLast rfl,
      hname.strtok, hprotocol.strtok, hport.strtok, htarget.strtok, hcomment.strtok]
    rfl

theorem isLine_acceptCommand (ipv4Host : UInt32) (p : Publish) (id : ContainerId) :
    IsLine (acceptCommand (inetNtop ipv4Host) (protocolName p.protocol) p.containerPort id.text)
      (addWords .forward ++ (ruleWords ipv4Host p .forward ++ ownerWords id)) := by
  have haddress := isWord_inetNtop ipv4Host
  have hprotocol := isWord_protocolName p.protocol
  have hport := isWord_decimal p.containerPort.toNat
  have hcomment := isWord_comment id
  unfold acceptCommand addWords ruleWords ownerWords
  generalize inetNtop ipv4Host = address at haddress ⊢
  generalize "\"minicontainer:".toList ++ id.text ++ ['"'] = comment at hcomment ⊢
  generalize protocolName p.protocol = protocol at hprotocol ⊢
  generalize decimal p.containerPort.toNat = port at hport ⊢
  refine ⟨_, rfl, ?_, ?_⟩
  · have hwords : '\n' ∉ "add rule inet minicontainer forward ip daddr ".toList ∧
        '\n' ∉ " dport ".toList ∧ '\n' ∉ " accept".toList ∧ '\n' ∉ " comment ".toList := by decide
    simp only [List.mem_append, List.mem_cons, not_or]
    simp only [haddress.2.2, hprotocol.2.2, hport.2.2, hcomment.2.2, hwords]
    decide
  · simp only [List.append_assoc, List.cons_append]
    rw [strtok_append_of_getLast rfl, strtok_append_sep,
      strtok_append_of_head rfl, strtok_append_of_getLast rfl,
      strtok_append_of_head rfl, strtok_append_of_head rfl,
      strtok_append_of_getLast rfl,
      haddress.strtok, hprotocol.strtok, hport.strtok, hcomment.strtok]
    rfl

/-- The text is read as these rules, whatever follows it. -/
def ReadsAs (text : Text) (rules : List (Chain × Statement)) : Prop :=
  ∀ rest, readRules (text ++ rest) = (readRules rest).map (rules ++ ·)

theorem ReadsAs.append {a b : Text} {x y : List (Chain × Statement)} (ha : ReadsAs a x)
    (hb : ReadsAs b y) : ReadsAs (a ++ b) (x ++ y) := by
  intro rest
  rw [List.append_assoc, ha, hb, Option.map_map]
  congr 1
  funext rules
  exact (List.append_assoc x y rules).symm

/-- A command is read by its words. -/
theorem readsAs_of_isLine {text : Text} {chain : Chain} {words : List Text} {s : Statement}
    (h : IsLine text (addWords chain ++ words)) (hs : readStatement words = some s) :
    ReadsAs text [(chain, s)] := by
  obtain ⟨line, rfl, hline, hwords⟩ := h
  have hcommand : readCommand line = some (chain, s) := by
    unfold readCommand
    rw [hwords]
    simp only [addWords, List.cons_append, List.nil_append, hs]
    cases chain <;> rfl
  have hne : line ≠ [] := by
    rintro rfl
    exact nomatch hwords
  intro rest
  unfold readRules
  rw [List.append_assoc, List.singleton_append, strtok_append_sep,
    CString.strtok_of_not_mem hline hne, List.singleton_append, List.mapM_cons, hcommand]
  simp only [Option.bind_eq_bind, Option.bind_some, Option.map_eq_bind]
  rfl

/-- The fragments around the host address hold one of two tests. -/
theorem test_fragments {wildcard : Text} (hline : '\n' ∉ wildcard) (p : Publish) :
    '\n' ∉ (if p.hostIpv4 = 0 then wildcard else "ip daddr ".toList) ++
        (if p.hostIpv4 = 0 then [] else inetNtop p.hostIpv4) ++
        (if p.hostIpv4 = 0 then [] else [' ']) ∧
      strtok ' ' ((if p.hostIpv4 = 0 then wildcard else "ip daddr ".toList) ++
        (if p.hostIpv4 = 0 then [] else inetNtop p.hostIpv4) ++
        (if p.hostIpv4 = 0 then [] else [' '])) = testWords (strtok ' ' wildcard) p := by
  have hhost := isWord_inetNtop p.hostIpv4
  unfold testWords
  split
  · rw [List.append_nil, List.append_nil]
    exact ⟨hline, rfl⟩
  · refine ⟨by simp [hhost.2.2], ?_⟩
    rw [strtok_append_of_head rfl, strtok_append_of_getLast rfl, hhost.strtok]
    rfl

/-- The rules that the three commands of a published port add. -/
def publishedRules (ipv4Host : UInt32) (p : Publish) : List (Chain × Statement) :=
  chainOrder.map fun chain => (chain, publishedRule ipv4Host p chain)

/-- The commands of a published port are read as its rules. -/
theorem readsAs_publishCommands (id : ContainerId) (ipv4Host : UInt32) {p : Publish}
    (hprotocol : p.protocol = ipprotoTcp ∨ p.protocol = ipprotoUdp) :
    ReadsAs (publishCommands id.text ipv4Host p) (publishedRules ipv4Host p) := by
  have hread := fun chain =>
    @readStatement_ruleWords ipv4Host p hprotocol chain (ownerWords id) rfl
  obtain ⟨hline, hwords⟩ := @test_fragments [] List.not_mem_nil p
  obtain ⟨hline', hwords'⟩ := @test_fragments "fib daddr type local ".toList (by decide) p
  have hprerouting := isLine_dnatCommand ipv4Host p id .prerouting hline
  have houtput := isLine_dnatCommand ipv4Host p id .output hline'
  rw [hwords] at hprerouting
  rw [hwords'] at houtput
  have hforward := isLine_acceptCommand ipv4Host p id
  exact ((readsAs_of_isLine hprerouting (hread .prerouting)).append
    (readsAs_of_isLine houtput (hread .output))).append
      (readsAs_of_isLine hforward (hread .forward))

/-! ### The buffer -/

theorem inetNtop_length_le (address : UInt32) : (inetNtop address).length ≤ 15 := by
  have hlt := address.toNat_lt
  have hoctet : ∀ n < 256, (decimal n).length ≤ 3 := fun n hn =>
    CString.decimal_length_le (by decide) (by omega)
  have h₁ := hoctet (address.toNat / 2 ^ 24) (by omega)
  have h₂ := hoctet (address.toNat / 2 ^ 16 % 256) (by omega)
  have h₃ := hoctet (address.toNat / 2 ^ 8 % 256) (by omega)
  have h₄ := hoctet (address.toNat % 256) (by omega)
  simp only [inetNtop, List.length_append, List.length_cons]
  omega

theorem decimal_port_length_le (port : UInt16) : (decimal port.toNat).length ≤ 5 := by
  have := port.toNat_lt
  exact CString.decimal_length_le (by decide) (by omega)

theorem protocolName_length (protocol : UInt8) : (protocolName protocol).length = 3 := by
  unfold protocolName
  split <;> rfl

theorem dnatCommand_length (chain : Chain) (test host blank protocol : Text) (hostPort : UInt16)
    (containerIp : Text) (containerPort : UInt16) (id : Text) :
    (dnatCommand chain test host blank protocol hostPort containerIp containerPort id).length ≤
      test.length + host.length + blank.length + protocol.length + containerIp.length +
        id.length + 97 := by
  have hport := decimal_port_length_le hostPort
  have hport' := decimal_port_length_le containerPort
  have hname : chain.name.length ≤ 10 := by cases chain <;> decide
  have h₁ : "add rule inet minicontainer ".toList.length = 28 := rfl
  have h₂ : " dport ".toList.length = 7 := rfl
  have h₃ : " dnat ip to ".toList.length = 12 := rfl
  have h₄ : " comment ".toList.length = 9 := rfl
  have h₅ : "\"minicontainer:".toList.length = 15 := rfl
  unfold dnatCommand
  simp only [List.length_append, List.length_cons, List.length_nil]
  simp only [h₁, h₂, h₃, h₄, h₅]
  clear h₁ h₂ h₃ h₄ h₅
  omega

theorem acceptCommand_length (containerIp protocol : Text) (containerPort : UInt16) (id : Text) :
    (acceptCommand containerIp protocol containerPort id).length ≤
      containerIp.length + protocol.length + id.length + 91 := by
  have hport := decimal_port_length_le containerPort
  have h₁ : "add rule inet minicontainer forward ip daddr ".toList.length = 45 := rfl
  have h₂ : " dport ".toList.length = 7 := rfl
  have h₃ : " accept".toList.length = 7 := rfl
  have h₄ : " comment ".toList.length = 9 := rfl
  have h₅ : "\"minicontainer:".toList.length = 15 := rfl
  unfold acceptCommand
  simp only [List.length_append, List.length_cons, List.length_nil]
  simp only [h₁, h₂, h₃, h₄, h₅]
  clear h₁ h₂ h₃ h₄ h₅
  omega

/-- The commands of a port take less than their share of the buffer. -/
theorem publishCommands_length (id : ContainerId) (ipv4Host : UInt32) (p : Publish) :
    (publishCommands id.text ipv4Host p).length < 1024 := by
  have hip := inetNtop_length_le ipv4Host
  have hhost := inetNtop_length_le p.hostIpv4
  have hprotocol := protocolName_length p.protocol
  have hid := id.length_text
  have hfragment : ∀ {a b : Text} {n : Nat}, a.length ≤ n → b.length ≤ n →
      (if p.hostIpv4 = 0 then a else b).length ≤ n := by
    intro a b n ha hb
    split
    · exact ha
    · exact hb
  have hnone : ([] : Text).length ≤ 21 := by decide
  have hnone' : ([] : Text).length ≤ 15 := by decide
  have htest := hfragment hnone (b := "ip daddr ".toList) (by decide)
  have htest' := hfragment (a := "fib daddr type local ".toList) (b := "ip daddr ".toList)
    (n := 21) (by decide) (by decide)
  have haddress := hfragment hnone' hhost
  have hblank := hfragment hnone' (b := [' ']) (by decide)
  unfold publishCommands
  rw [List.length_append, List.length_append]
  refine Nat.lt_of_le_of_lt (Nat.add_le_add (Nat.add_le_add (dnatCommand_length ..)
    (dnatCommand_length ..)) (acceptCommand_length ..)) ?_
  omega

/-- The loop never fails. -/
theorem publishLoop_eq (id : ContainerId) (ipv4Host : UInt32) {capacity : Nat} {used : Text}
    {publishes : List Publish} (h : used.length + publishes.length * 1024 < capacity) :
    publishLoop capacity id.text ipv4Host used publishes =
      some (used ++ publishes.flatMap (publishCommands id.text ipv4Host)) := by
  induction publishes generalizing used with
  | nil => simp [publishLoop]
  | cons p publishes ih =>
    have hlength := publishCommands_length id ipv4Host p
    rw [List.length_cons] at h
    rw [publishLoop, if_neg (by omega), ih (by rw [List.length_append]; omega), List.append_assoc]
    rfl

/-- The script reads as three rules for every published port. -/
theorem readRules_publishScript (id : ContainerId) (ipv4Host : UInt32) {publishes : List Publish}
    (hprotocols : ∀ p ∈ publishes, p.protocol = ipprotoTcp ∨ p.protocol = ipprotoUdp) :
    (publishScript id.text ipv4Host publishes).bind readRules =
      some (publishes.flatMap (publishedRules ipv4Host)) := by
  rw [publishScript, publishLoop_eq id ipv4Host (by simp), Option.bind_some, List.nil_append]
  induction publishes with
  | nil => rfl
  | cons p publishes ih =>
    rw [List.flatMap_cons, readsAs_publishCommands id ipv4Host (hprotocols p List.mem_cons_self),
      ih fun q hq => hprotocols q (List.mem_cons_of_mem p hq)]
    rfl

theorem rulesOf_published (ipv4Host : UInt32) (publishes : List Publish) (chain : Chain) :
    rulesOf (publishes.flatMap (publishedRules ipv4Host)) chain =
      publishes.map (publishedRule ipv4Host · chain) := by
  induction publishes with
  | nil => rfl
  | cons p publishes ih =>
    have hone : rulesOf (publishedRules ipv4Host p) chain = [publishedRule ipv4Host p chain] := by
      cases chain <;> rfl
    unfold rulesOf at ih hone ⊢
    rw [List.flatMap_cons, List.filter_append, List.map_append, ih, hone]
    rfl

/-! ### The rules as they are listed -/

/-- The published traffic of a port: its protocol and port, to its host address or, for a port
    of all addresses, to any address of the host. -/
def Published (p : Publish) (packet : Packet) : Prop :=
  packet.protocol = p.protocol ∧ packet.port = p.hostPort ∧
    if p.hostIpv4 = 0 then packet.isLocal = true else packet.destination = p.hostIpv4

/-- The two chains redirect the published traffic, and nothing else; they agree, and leave
    packets to other hosts alone. -/
structure RedirectsExactly (ipv4Host : UInt32) (publishes : List Publish)
    (rules : Chain → List Statement) (packet : Packet) : Prop where
  prerouting : ∀ target, redirect packet (rules .prerouting) = some target ↔
    ∃ p ∈ publishes, Published p packet ∧ target = (ipv4Host, p.containerPort)
  output : ∀ target, redirect packet (rules .output) = some target ↔
    ∃ p ∈ publishes, Published p packet ∧ target = (ipv4Host, p.containerPort)
  agree : redirect packet (rules .prerouting) = redirect packet (rules .output)
  remote : packet.isLocal = false →
    redirect packet (rules .prerouting) = none ∧ redirect packet (rules .output) = none

section Redirection

variable {ipv4Host : UInt32} {publishes : List Publish} {packet : Packet}

/-- Protocol and port are the packet's, and the host address is none or the destination. -/
def Names (p : Publish) (packet : Packet) : Prop :=
  p.protocol = packet.protocol ∧ p.hostPort = packet.port ∧
    (p.hostIpv4 = 0 ∨ p.hostIpv4 = packet.destination)

theorem overlaps_of_names {p q : Publish} (hp : Names p packet) (hq : Names q packet) :
    p.overlaps q = true := by
  obtain ⟨h₁, h₂, h₃⟩ := hp
  obtain ⟨h₁', h₂', h₃'⟩ := hq
  simp only [Publish.overlaps, h₁, h₂, h₁', h₂', beq_self_eq_true, Bool.true_and, Bool.or_eq_true,
    beq_iff_eq]
  rcases h₃ with h | h
  · exact .inl (.inl h)
  · rcases h₃' with h' | h'
    · exact .inl (.inr h')
    · exact .inr (h.trans h'.symm)

/-- Which packets a rule of the first chain redirects. -/
theorem applies_prerouting (p : Publish) :
    (publishedRule ipv4Host p .prerouting).applies packet = true ↔ Names p packet := by
  simp only [Statement.applies, publishedRule, Names, Bool.and_eq_true, beq_iff_eq]
  split
  · rename_i h
    simp only [Destination.holds, h, true_and, true_or, and_true]
    exact ⟨fun h => ⟨h.1.symm, h.2.symm⟩, fun h => ⟨h.1.symm, h.2.symm⟩⟩
  · rename_i h
    simp only [Destination.holds, beq_iff_eq, h, false_or]
    exact ⟨fun h => ⟨h.1.2.symm, h.2.symm, h.1.1.symm⟩,
      fun h => ⟨⟨h.2.2.symm, h.1.symm⟩, h.2.1.symm⟩⟩

theorem applies_output (p : Publish) :
    (publishedRule ipv4Host p .output).applies packet = true ↔ Published p packet := by
  simp only [Statement.applies, publishedRule, Published, Bool.and_eq_true, beq_iff_eq]
  split
  · exact ⟨fun h => ⟨h.1.2, h.2, h.1.1⟩, fun h => ⟨⟨h.2.2, h.1⟩, h.2.1⟩⟩
  · simp only [Destination.holds, beq_iff_eq]
    exact ⟨fun h => ⟨h.1.2, h.2, h.1.1⟩, fun h => ⟨⟨h.2.2, h.1⟩, h.2.1⟩⟩

theorem Published.names {p : Publish} (h : Published p packet) : Names p packet := by
  obtain ⟨hprotocol, hport, hdestination⟩ := h
  refine ⟨hprotocol.symm, hport.symm, ?_⟩
  split at hdestination
  · rename_i h
    exact .inl h
  · exact .inr hdestination.symm

/-- For a packet to the host, both tests are the same. -/
theorem published_of_names (hlocal : packet.isLocal = true) {p : Publish} (h : Names p packet) :
    Published p packet := by
  obtain ⟨hprotocol, hport, hdestination⟩ := h
  refine ⟨hprotocol.symm, hport.symm, ?_⟩
  split
  · exact hlocal
  · rename_i hne
    exact (hdestination.resolve_left hne).symm

/-- Only one of the ports that do not overlap takes a packet. -/
theorem redirect_published {chain : Chain} (hdnat : ∀ p, (publishedRule ipv4Host p chain).verdict =
      .dnat ipv4Host p.containerPort)
    (hnames : ∀ p, (publishedRule ipv4Host p chain).applies packet = true → Names p packet)
    (hdisjoint : publishes.Pairwise fun p q => p.overlaps q = false) (target : UInt32 × UInt16) :
    redirect packet (publishes.map (publishedRule ipv4Host · chain)) = some target ↔
      ∃ p ∈ publishes, (publishedRule ipv4Host p chain).applies packet = true ∧
        target = (ipv4Host, p.containerPort) := by
  induction publishes with
  | nil => simp [redirect]
  | cons p publishes ih =>
    obtain ⟨hp, hdisjoint⟩ := List.pairwise_cons.mp hdisjoint
    rw [List.map_cons, redirect]
    split
    · rename_i happlies
      simp only [hdnat]
      constructor
      · intro h
        exact ⟨p, List.mem_cons_self, happlies, (Option.some.inj h).symm⟩
      · rintro ⟨q, hq, happlies', rfl⟩
        rcases List.mem_cons.mp hq with rfl | hq
        · rfl
        · -- two ports that take one packet overlap
          have hoverlaps := overlaps_of_names (hnames p happlies) (hnames q happlies')
          exact nomatch hoverlaps.symm.trans (hp q hq)
    · rename_i hother
      rw [ih hdisjoint]
      simp [hother]

end Redirection

/-- The rules of ports that do not overlap redirect exactly their traffic, for a packet to the
    host and for one that no port names by its protocol, its port and its address or all
    addresses; a packet to another host that a port names is redirected. -/
theorem redirects_exactly_iff (id : ContainerId) (ipv4Host : UInt32) (publishes : List Publish)
    (hprotocols : ∀ p ∈ publishes, p.protocol = ipprotoTcp ∨ p.protocol = ipprotoUdp)
    (hdisjoint : publishes.Pairwise fun p q => p.overlaps q = false) (packet : Packet) :
    ∃ rules, (publishScript id.text ipv4Host publishes).bind readRules = some rules ∧
      (RedirectsExactly ipv4Host publishes (rulesOf rules) packet ↔
        packet.isLocal = true ∨ ∀ p ∈ publishes, ¬Names p packet) := by
  refine ⟨_, readRules_publishScript id ipv4Host hprotocols, ?_⟩
  have hprerouting := fun target => @redirect_published ipv4Host publishes packet .prerouting
    (fun _ => rfl) (fun p => (applies_prerouting p).mp) hdisjoint target
  have houtput := fun target => @redirect_published ipv4Host publishes packet .output
    (fun _ => rfl) (fun p h => ((applies_output p).mp h).names) hdisjoint target
  simp only [← rulesOf_published] at hprerouting houtput
  simp only [applies_prerouting] at hprerouting
  simp only [applies_output] at houtput
  generalize publishes.flatMap (publishedRules ipv4Host) = rules at hprerouting houtput ⊢
  constructor
  · intro h
    cases hlocal : packet.isLocal with
    | true => exact .inl rfl
    | false =>
      right
      intro p hp hnames
      have hredirect := (hprerouting _).mpr ⟨p, hp, hnames, rfl⟩
      rw [(h.remote hlocal).1] at hredirect
      exact nomatch hredirect
  · intro h
    -- the packet is to the host, or no port names it
    have hsame : ∀ p ∈ publishes, Names p packet ↔ Published p packet := by
      intro p hp
      refine ⟨fun hnames => ?_, Published.names⟩
      rcases h with hlocal | hnone
      · exact published_of_names hlocal hnames
      · exact absurd hnames (hnone p hp)
    have hpublished : ∀ target, redirect packet (rulesOf rules .prerouting) = some target ↔
        ∃ p ∈ publishes, Published p packet ∧ target = (ipv4Host, p.containerPort) := by
      intro target
      rw [hprerouting]
      exact exists_congr fun p => and_congr_right fun hp => and_congr_left' (hsame p hp)
    refine ⟨hpublished, houtput, ?_, fun hlocal => ?_⟩
    · exact Option.ext fun target => (hpublished target).trans (houtput target).symm
    · have hnone := h.resolve_left (by simp [hlocal])
      constructor
      · rw [Option.eq_none_iff_forall_ne_some]
        intro target htarget
        obtain ⟨p, hp, hnames, -⟩ := (hprerouting target).mp htarget
        exact hnone p hp hnames
      · rw [Option.eq_none_iff_forall_ne_some]
        intro target htarget
        obtain ⟨p, hp, hpublished, -⟩ := (houtput target).mp htarget
        exact hnone p hp hpublished.names

def webId : ContainerId := generateId fun _ => 0xaa

/-- The option `--publish 0.0.0.0:8080:80/tcp`. -/
def webPort : Publish := ⟨0, 8080, 80, ipprotoTcp⟩

/-- A connection to port 8080 of the host is redirected. -/
theorem redirects_exactly_web :
    ∃ rules, (publishScript webId.text 0x0a2c0002 [webPort]).bind readRules = some rules ∧
      RedirectsExactly 0x0a2c0002 [webPort] (rulesOf rules) ⟨0x7f000001, true, ipprotoTcp, 8080⟩ ∧
      redirect ⟨0x7f000001, true, ipprotoTcp, 8080⟩ (rulesOf rules .output) =
        some (0x0a2c0002, 80) := by
  obtain ⟨rules, hrules, h⟩ := redirects_exactly_iff webId 0x0a2c0002 [webPort]
    (by decide) (by decide) ⟨0x7f000001, true, ipprotoTcp, 8080⟩
  have hexactly := h.mpr (.inl rfl)
  refine ⟨rules, hrules, hexactly, (hexactly.output _).mpr ⟨webPort, by decide, ?_, rfl⟩⟩
  exact ⟨rfl, rfl, rfl⟩

/-- A connection to port 8080 of another machine, for which the host is a router, is redirected
    in the prerouting chain. -/
theorem redirects_remote :
    ∃ rules, (publishScript webId.text 0x0a2c0002 [webPort]).bind readRules = some rules ∧
      redirect ⟨0xc0000201, false, ipprotoTcp, 8080⟩ (rulesOf rules .prerouting) =
        some (0x0a2c0002, 80) ∧
      redirect ⟨0xc0000201, false, ipprotoTcp, 8080⟩ (rulesOf rules .output) = none := by
  have hrun : ((publishScript webId.text 0x0a2c0002 [webPort]).bind readRules).any
      (fun rules => decide
        (redirect ⟨0xc0000201, false, ipprotoTcp, 8080⟩ (rulesOf rules .prerouting) =
          some (0x0a2c0002, 80) ∧
        redirect ⟨0xc0000201, false, ipprotoTcp, 8080⟩ (rulesOf rules .output) = none)) = true := by
    decide +kernel
  obtain ⟨rules, hrules, htest⟩ := (Option.any_eq_true _ _).mp hrun
  exact ⟨rules, hrules, of_decide_eq_true htest⟩

end MiniContainer.Nft
