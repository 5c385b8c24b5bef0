import MiniContainer.Native.Seccomp

/-!
# What the system call filter allows

The filter for a deny list consists of the rules of the built-in policy whose names are not
in the list (`mem_installSeccomp`). No two names share a number, so a call is decided by the
rules of its own name (`allows_iff`), and every statement about two filters or about one
call follows from that.
-/

namespace MiniContainer.Seccomp

open CString (Text)

variable {lib : Library} {denies : List Text} {filter : Filter} {number : Int}
  {arguments : Arguments}

/-! ## The rules of a filter -/

/-- The built-in policy: which rules belong to which name. -/
inductive Policy (lib : Library) : Text → Rule → Prop where
  | table {name : Text} {number : Int} (hmem : name ∈ allowed)
      (hnumber : lib.resolve name = some number) : Policy lib name { action := .allow, number }
  | clone3 : Policy lib "clone3".toList (clone3Rule lib)
  | clone : Policy lib "clone".toList (cloneRule lib)
  | socket {rule : Rule} (hmem : rule ∈ socketRules lib) : Policy lib "socket".toList rule

theorem mem_socketRules {rule : Rule} (h : rule ∈ socketRules lib) :
    (∃ family ∈ families, rule = typedSocketRule lib family 1 ∨
      rule = typedSocketRule lib family 2) ∨ rule = netlinkRule lib := by
  simpa only [socketRules, List.mem_append, List.mem_flatMap, List.mem_cons, List.not_mem_nil,
    or_false] using h

theorem socketRules_spec {rule : Rule} (h : rule ∈ socketRules lib) :
    rule.action = .allow ∧ rule.number = lib.socket := by
  obtain ⟨_, -, rfl | rfl⟩ | rfl := mem_socketRules h <;> exact ⟨rfl, rfl⟩

/-- The rules of a name are rules for its number. -/
theorem Policy.resolve_eq {name : Text} {rule : Rule} (h : Policy lib name rule) :
    lib.resolve name = some rule.number := by
  cases h with
  | table _ hnumber => exact hnumber
  | clone3 => exact lib.resolve_clone3
  | clone => exact lib.resolve_clone
  | socket hmem =>
    rw [(socketRules_spec hmem).2]
    exact lib.resolve_socket

/-- The calls with rules of their own are not in the table. -/
theorem not_mem_allowed :
    "clone3".toList ∉ allowed ∧ "clone".toList ∉ allowed ∧ "socket".toList ∉ allowed := by
  have hall : (allowedNames.all fun name =>
      name != "clone3" && name != "clone" && name != "socket") = true := by decide +kernel
  have hmem : ∀ name, name ∉ allowedNames → name.toList ∉ allowed := by
    intro name h hmem
    obtain ⟨name', hname', heq⟩ := List.mem_map.mp hmem
    exact h (String.toList_inj.mp heq ▸ hname')
  refine ⟨hmem _ fun h => ?_, hmem _ fun h => ?_, hmem _ fun h => ?_⟩ <;>
    exact absurd (List.all_eq_true.mp hall _ h) (by decide)

/-- Only the rule of `clone3` does not allow what it applies to. -/
theorem Policy.action_eq_allow_iff {name : Text} {rule : Rule} (h : Policy lib name rule) :
    rule.action = .allow ↔ rule.number ≠ lib.clone3 := by
  have hname : rule.number = lib.clone3 → name = "clone3".toList := fun heq =>
    lib.resolve_inj h.resolve_eq (heq ▸ lib.resolve_clone3)
  cases h with
  | clone3 => simp [clone3Rule]
  | table hmem _ =>
    refine iff_of_true rfl fun heq => ?_
    rw [hname heq] at hmem
    exact not_mem_allowed.1 hmem
  | clone => exact iff_of_true rfl fun heq => absurd (hname heq) (by decide)
  | socket hmem =>
    exact iff_of_true (socketRules_spec hmem).1 fun heq => absurd (hname heq) (by decide)

/-! ## Building -/

theorem not_deniedByProfile {name : Text} :
    ¬deniedByProfile name denies = true ↔ name ∉ denies := by
  rw [deniedByProfile, List.contains_iff_mem]

theorem eq_of_ruleAdd {rule : Rule} {filter' : Filter}
    (h : lib.ruleAdd filter rule = some filter') : filter' = filter ++ [rule] := by
  unfold Library.ruleAdd at h
  split at h
  · exact (Option.some.inj h).symm
  · exact nomatch h

/-- Rules that are all taken stand behind the ones that were there. -/
theorem eq_of_foldlM_ruleAdd {rules : List Rule} {filter' : Filter}
    (h : rules.foldlM lib.ruleAdd filter = some filter') : filter' = filter ++ rules := by
  induction rules generalizing filter with
  | nil =>
    rw [List.append_nil]
    exact (Option.some.inj h).symm
  | cons rule rules ih =>
    obtain ⟨next, hadd, hrest⟩ := Option.bind_eq_some_iff.mp h
    rw [ih hrest, eq_of_ruleAdd hadd, List.append_assoc, List.singleton_append]

theorem mem_allowSyscall {name : Text} {filter' : Filter} {rule : Rule}
    (h : lib.allowSyscall filter name = some filter') :
    rule ∈ filter' ↔ rule ∈ filter ∨
      ∃ number, lib.resolve name = some number ∧ rule = { action := .allow, number } := by
  unfold Library.allowSyscall at h
  split at h
  · rename_i hnone
    rw [← Option.some.inj h]
    simp [hnone]
  · rename_i number hsome
    rw [eq_of_ruleAdd h]
    simp [hsome]

/-- The loop over the table adds a rule for each known name that is not denied. -/
theorem mem_allowNames {names : List Text} {filter' : Filter} {rule : Rule}
    (h : allowNames lib denies names filter = some filter') :
    rule ∈ filter' ↔ rule ∈ filter ∨ ∃ name ∈ names, name ∉ denies ∧
      ∃ number, lib.resolve name = some number ∧ rule = { action := .allow, number } := by
  induction names generalizing filter with
  | nil =>
    rw [← Option.some.inj h]
    simp
  | cons name names ih =>
    rw [List.exists_mem_cons_iff]
    unfold allowNames at h
    split at h
    · -- a denied name is passed over
      rename_i hdenied
      have : name ∈ denies := List.contains_iff_mem.mp hdenied
      rw [ih h]
      simp [this]
    · rename_i hdenied
      obtain ⟨next, hadd, hrest⟩ := Option.bind_eq_some_iff.mp h
      have : name ∉ denies := not_deniedByProfile.mp hdenied
      rw [ih hrest, mem_allowSyscall hadd, or_assoc]
      simp [this]

theorem mem_addUnlessDenied {name : Text} {rules : List Rule} {filter' : Filter} {rule : Rule}
    (h : addUnlessDenied lib denies name rules filter = some filter') :
    rule ∈ filter' ↔ rule ∈ filter ∨ name ∉ denies ∧ rule ∈ rules := by
  unfold addUnlessDenied at h
  split at h
  · rename_i hdenied
    have : name ∈ denies := List.contains_iff_mem.mp hdenied
    rw [← Option.some.inj h]
    simp [this]
  · rename_i hdenied
    have : name ∉ denies := not_deniedByProfile.mp hdenied
    rw [eq_of_foldlM_ruleAdd h]
    simp [this]

/-- The filter for a deny list consists of the policy's rules for the other names. -/
theorem mem_installSeccomp {rule : Rule} (h : installSeccomp lib denies = some filter) :
    rule ∈ filter ↔ ∃ name, name ∉ denies ∧ Policy lib name rule := by
  obtain ⟨f₁, h₁, h⟩ := Option.bind_eq_some_iff.mp h
  obtain ⟨f₂, h₂, h⟩ := Option.bind_eq_some_iff.mp h
  obtain ⟨f₃, h₃, h⟩ := Option.bind_eq_some_iff.mp h
  obtain ⟨f₄, h₄, h⟩ := Option.bind_eq_some_iff.mp h
  have hfilter : f₄ = filter := by
    split at h
    · exact Option.some.inj h
    · exact nomatch h
  rw [← hfilter, mem_addUnlessDenied h₄, mem_addUnlessDenied h₃, mem_addUnlessDenied h₂,
    mem_allowNames h₁]
  constructor
  · -- each of the four groups is a constructor of the policy
    intro hmem
    rcases hmem with (((hnil | htable) | hclone3) | hclone) | hsocket
    · exact nomatch hnil
    · obtain ⟨name, hmem, hname, number, hnumber, rfl⟩ := htable
      exact ⟨name, hname, .table hmem hnumber⟩
    · obtain rfl := List.mem_singleton.mp hclone3.2
      exact ⟨_, hclone3.1, .clone3⟩
    · obtain rfl := List.mem_singleton.mp hclone.2
      exact ⟨_, hclone.1, .clone⟩
    · exact ⟨_, hsocket.1, .socket hsocket.2⟩
  · rintro ⟨name, hname, hpolicy⟩
    cases hpolicy with
    | table hmem hnumber => exact .inl (.inl (.inl (.inr ⟨name, hmem, hname, _, hnumber, rfl⟩)))
    | clone3 => exact .inl (.inl (.inr ⟨hname, List.mem_singleton.mpr rfl⟩))
    | clone => exact .inl (.inr ⟨hname, List.mem_singleton.mpr rfl⟩)
    | socket hmem => exact .inr ⟨hname, hmem⟩

/-- Where `libseccomp` reports no failure, a filter is loaded for every deny list. -/
theorem exists_installSeccomp (htakes : ∀ filter rule, lib.takes filter rule = true)
    (hloads : ∀ filter, lib.loads filter = true) (denies : List Text) :
    ∃ filter, installSeccomp lib denies = some filter := by
  have hadd : ∀ filter rule, lib.ruleAdd filter rule = some (filter ++ [rule]) :=
    fun filter rule => if_pos (htakes filter rule)
  have hnames : ∀ names filter, ∃ filter', allowNames lib denies names filter = some filter' := by
    intro names
    induction names with
    | nil => exact fun filter => ⟨filter, rfl⟩
    | cons name names ih =>
      intro filter
      simp only [allowNames, Library.allowSyscall, hadd]
      split
      · exact ih filter
      · cases lib.resolve name <;> exact ih _
  have hrules : ∀ (rules : List Rule) (filter : Filter),
      rules.foldlM lib.ruleAdd filter = some (filter ++ rules) := by
    intro rules
    induction rules with
    | nil => exact fun filter => by rw [List.append_nil]; rfl
    | cons rule rules ih =>
      intro filter
      rw [List.foldlM_cons, hadd, Option.bind_eq_bind, Option.bind_some, ih, List.append_assoc,
        List.singleton_append]
  have hcall : ∀ name rules filter,
      ∃ filter', addUnlessDenied lib denies name rules filter = some filter' := by
    intro name rules filter
    unfold addUnlessDenied
    split
    · exact ⟨filter, rfl⟩
    · exact ⟨_, hrules rules filter⟩
  obtain ⟨f₁, h₁⟩ := hnames allowed []
  obtain ⟨f₂, h₂⟩ := hcall "clone3".toList [clone3Rule lib] f₁
  obtain ⟨f₃, h₃⟩ := hcall "clone".toList [cloneRule lib] f₂
  obtain ⟨f₄, h₄⟩ := hcall "socket".toList (socketRules lib) f₃
  refine ⟨f₄, ?_⟩
  simp only [installSeccomp, h₁, h₂, h₃, h₄, Option.bind_eq_bind, Option.bind_some, hloads,
    if_true]

/-! ## Deciding -/

/-- A call is allowed when a rule of the policy for its own name applies to it and the name
    is not denied; `clone3` never is. -/
theorem allows_iff (h : installSeccomp lib denies = some filter) :
    filter.allows number arguments ↔ number ≠ lib.clone3 ∧
      ∃ name, name ∉ denies ∧ ∃ rule, Policy lib name rule ∧ rule.applies number arguments := by
  have hnumber : ∀ {rule : Rule}, rule.applies number arguments = true → rule.number = number :=
    fun happlies => eq_of_beq (Bool.and_eq_true_iff.mp happlies).1
  unfold Filter.allows Filter.action
  cases hfind : filter.find? (·.applies number arguments) with
  | none =>
    refine iff_of_false (fun heq => nomatch heq) ?_
    rintro ⟨-, name, hname, rule, hpolicy, happlies⟩
    have hmem := (mem_installSeccomp h).mpr ⟨name, hname, hpolicy⟩
    exact List.find?_eq_none.mp hfind rule hmem happlies
  | some rule =>
    -- whichever rule is found first, its number decides about the action
    obtain ⟨name, hname, hpolicy⟩ := (mem_installSeccomp h).mp (List.mem_of_find?_eq_some hfind)
    have happlies : rule.applies number arguments = true :=
      List.find?_some (p := fun r : Rule => r.applies number arguments) hfind
    show rule.action = .allow ↔ _
    rw [hpolicy.action_eq_allow_iff, hnumber happlies]
    exact ⟨fun hne => ⟨hne, name, hname, rule, hpolicy, happlies⟩, fun h => h.1⟩

/-- A call that is allowed has a name that is not denied. -/
theorem not_mem_denies_of_allows (h : installSeccomp lib denies = some filter)
    (ha : filter.allows number arguments) {name : Text} (hname : lib.resolve name = some number) :
    name ∉ denies := by
  obtain ⟨-, name', hdenied, rule, hpolicy, happlies⟩ := (allows_iff h).mp ha
  have hnumber : rule.number = number := eq_of_beq (Bool.and_eq_true_iff.mp happlies).1
  rwa [lib.resolve_inj hname (hnumber ▸ hpolicy.resolve_eq)]

/-- A longer deny list allows no more calls. -/
theorem allows_anti {denies' : List Text} {filter' : Filter}
    (h : installSeccomp lib denies = some filter)
    (h' : installSeccomp lib denies' = some filter') (hsub : denies ⊆ denies')
    (ha : filter'.allows number arguments) : filter.allows number arguments := by
  obtain ⟨hne, name, hname, hrule⟩ := (allows_iff h').mp ha
  exact (allows_iff h).mpr ⟨hne, name, fun hmem => hname (hsub hmem), hrule⟩

/-- The rules that can apply to a call of `clone` or of `socket` are its own. -/
theorem policy_of_allows (h : installSeccomp lib denies = some filter)
    (ha : filter.allows number arguments) {name : Text} (hname : lib.resolve name = some number) :
    ∃ rule, Policy lib name rule ∧ rule.applies number arguments := by
  obtain ⟨-, name', -, rule, hpolicy, happlies⟩ := (allows_iff h).mp ha
  have hnumber : rule.number = number := eq_of_beq (Bool.and_eq_true_iff.mp happlies).1
  rw [lib.resolve_inj hname (hnumber ▸ hpolicy.resolve_eq)]
  exact ⟨rule, hpolicy, happlies⟩

theorem and_namespaceFlag {flag value : UInt64} (hflag : flag ∈ namespaceFlags)
    (h : value &&& forbiddenClone = 0) : value &&& flag = 0 := by
  have hall : namespaceFlags.all (fun flag => forbiddenClone &&& flag == flag) = true := by decide
  have hpart : forbiddenClone &&& flag = flag := by
    simpa using List.all_eq_true.mp hall flag hflag
  rw [← hpart, ← UInt64.and_assoc, h, UInt64.zero_and]

/-- A call of `clone` that is allowed asks for no namespace. -/
theorem clone_of_allows (h : installSeccomp lib denies = some filter)
    (ha : filter.allows lib.clone arguments) : arguments 0 &&& forbiddenClone = 0 := by
  obtain ⟨rule, hpolicy, happlies⟩ := policy_of_allows h ha lib.resolve_clone
  generalize hname : "clone".toList = name at hpolicy
  cases hpolicy with
  | table hmem _ =>
    rw [← hname] at hmem
    exact absurd hmem not_mem_allowed.2.1
  | clone3 | socket _ => exact absurd hname (by decide)
  | clone => simpa [Rule.applies, cloneRule, Comparison.holds] using happlies

/-- A deny list only narrows the built-in filter: what the filter for it allows, the built-in
    filter allows, and its name is not in the list; a longer list never allows more; and no
    list makes the filter allow `clone3` or a `clone` into a new namespace. -/
theorem installSeccomp_narrows (lib : Library) {denies : List Text} {filter : Filter}
    (h : installSeccomp lib denies = some filter) (number : Int) (arguments : Arguments) :
    (filter.allows number arguments →
      (∀ builtin, installSeccomp lib [] = some builtin → builtin.allows number arguments) ∧
        ∀ name, lib.resolve name = some number → name ∉ denies) ∧
    (∀ more narrower, denies ⊆ more → installSeccomp lib more = some narrower →
      narrower.allows number arguments → filter.allows number arguments) ∧
    (∀ flag ∈ namespaceFlags, arguments 0 &&& flag ≠ 0 → ¬filter.allows lib.clone arguments) ∧
    ¬filter.allows lib.clone3 arguments := by
  refine ⟨fun ha => ⟨fun builtin hb => ?_, fun name hname => ?_⟩, ?_, ?_, ?_⟩
  · exact allows_anti hb h (List.nil_subset denies) ha
  · exact not_mem_denies_of_allows h ha hname
  · intro more narrower hsub hmore ha
    exact allows_anti h hmore hsub ha
  · intro flag hflag hset ha
    exact hset (and_namespaceFlag hflag (clone_of_allows h ha))
  · exact fun ha => ((allows_iff h).mp ha).1 rfl

/-- A library that knows four calls, by their numbers on x86-64. -/
def fourCalls : Library where
  resolve name :=
    if name = "accept".toList then some 43
    else if name = "socket".toList then some 41
    else if name = "clone".toList then some 56
    else if name = "clone3".toList then some 435
    else none
  clone3 := 435
  clone := 56
  socket := 41
  takes _ _ := true
  loads _ := true
  resolve_clone3 := by decide
  resolve_clone := by decide
  resolve_socket := by decide
  resolve_inj := by
    intro a b number ha hb
    split_ifs at ha hb
    all_goals simp only [Option.some.injEq] at ha hb
    all_goals first | omega | simp only [*]

theorem fourCalls_installs (denies : List Text) :
    ∃ filter, installSeccomp fourCalls denies = some filter :=
  exists_installSeccomp (fun _ _ => rfl) (fun _ => rfl) denies

/-- A profile that denies `socket`: `accept` stays allowed, as in the built-in filter. -/
theorem installSeccomp_narrows_socket :
    ∃ filter builtin, installSeccomp fourCalls ["socket".toList] = some filter ∧
      installSeccomp fourCalls [] = some builtin ∧ filter.allows 43 (fun _ => 0) ∧
      builtin.allows 43 (fun _ => 0) ∧ ¬filter.allows fourCalls.clone3 (fun _ => 0) := by
  obtain ⟨filter, h⟩ := fourCalls_installs ["socket".toList]
  obtain ⟨builtin, hb⟩ := fourCalls_installs []
  have hpolicy : Policy fourCalls "accept".toList { action := .allow, number := 43 } :=
    .table List.mem_cons_self rfl
  have ha : filter.allows 43 (fun _ => 0) :=
    (allows_iff h).mpr ⟨by decide, "accept".toList, by decide, _, hpolicy, rfl⟩
  have hnarrows := installSeccomp_narrows fourCalls h 43 fun _ => 0
  exact ⟨filter, builtin, h, hb, ha, (hnarrows.1 ha).1 builtin hb, hnarrows.2.2.2⟩

/-! ## Sockets -/

/-- The sockets that the policy is meant to allow: streams and datagrams of three families,
    and the raw type of `AF_NETLINK` for routing. The kernel takes the type from the low four
    bits of its argument. -/
def PlainSocket (family type protocol : UInt64) : Prop :=
  (family = 1 ∨ family = 2 ∨ family = 10) ∧ (type &&& 0xf = 1 ∨ type &&& 0xf = 2) ∨
    family = 16 ∧ type &&& 0xf = 3 ∧ protocol = 0

instance (family type protocol : UInt64) : Decidable (PlainSocket family type protocol) :=
  inferInstanceAs (Decidable (_ ∨ _))

/-- What the rules for `socket` compare: only two bits of the type for the three families. -/
theorem socket_of_allows (h : installSeccomp lib denies = some filter)
    (ha : filter.allows lib.socket arguments) :
    (arguments 0 ∈ families ∧ (arguments 1 &&& 3 = 1 ∨ arguments 1 &&& 3 = 2)) ∨
      arguments 0 = 16 ∧ arguments 1 &&& 15 = 3 ∧ arguments 2 = 0 := by
  obtain ⟨rule, hpolicy, happlies⟩ := policy_of_allows h ha lib.resolve_socket
  generalize hname : "socket".toList = name at hpolicy
  cases hpolicy with
  | table hmem _ =>
    rw [← hname] at hmem
    exact absurd hmem not_mem_allowed.2.2
  | clone3 | clone => exact absurd hname (by decide)
  | socket hmem =>
    obtain ⟨family, hfamily, rfl | rfl⟩ | rfl := mem_socketRules hmem
    all_goals simp only [Rule.applies, typedSocketRule, netlinkRule, Comparison.holds,
      beq_self_eq_true, Bool.true_and, List.all_cons, List.all_nil, Bool.and_true, Bool.and_eq_true,
      beq_iff_eq] at happlies
    · exact .inl ⟨happlies.1 ▸ hfamily, .inl happlies.2⟩
    · exact .inl ⟨happlies.1 ▸ hfamily, .inr happlies.2⟩
    · exact .inr happlies

/-- The low four bits of a type from the two that are compared and the two that are not. -/
theorem and_fifteen (type : UInt64) : type &&& 15 = type &&& 3 ||| type &&& 12 := by
  apply UInt64.toBitVec_inj.mp
  exact BitVec.and_or_distrib_left (x := type.toBitVec) (y := 3) (z := 12)

/-- An allowed call of `socket` asks for one of these sockets exactly when it is for
    `AF_NETLINK` or the bits of the type that the rules do not compare are clear. -/
theorem socket_plain_iff (lib : Library) {denies : List Text} {filter : Filter}
    (h : installSeccomp lib denies = some filter) (arguments : Arguments)
    (ha : filter.allows lib.socket arguments) :
    PlainSocket (arguments 0) (arguments 1) (arguments 2) ↔
      arguments 0 = 16 ∨ arguments 1 &&& 12 = 0 := by
  constructor
  · rintro (⟨-, htype⟩ | ⟨hfamily, -⟩)
    · -- neither type has one of the two bits
      right
      have hpart : arguments 1 &&& 12 = (arguments 1 &&& 15) &&& 12 := by
        rw [UInt64.and_assoc]
        rfl
      rw [hpart]
      rcases htype with heq | heq <;> (rw [heq]; rfl)
    · exact .inl hfamily
  · intro hcond
    rcases socket_of_allows h ha with ⟨hfamily, htype⟩ | hnetlink
    · rcases hcond with h16 | hclear
      · rw [h16] at hfamily
        exact absurd hfamily (by decide)
      · refine .inl ⟨by simpa [families] using hfamily, ?_⟩
        rw [and_fifteen, hclear, UInt64.or_zero]
        exact htype
    · exact .inr hnetlink

/-- `socket(AF_INET, SOCK_PACKET, 0)`. -/
def packetSocket : Arguments := fun index => if index = 0 then 2 else if index = 1 then 10 else 0

/-- `socket(AF_INET, SOCK_STREAM | SOCK_CLOEXEC, 0)`. -/
def streamSocket : Arguments := fun index =>
  if index = 0 then 2 else if index = 1 then 0x80001 else 0

theorem socket_plain_stream :
    ∃ filter, installSeccomp fourCalls [] = some filter ∧
      filter.allows fourCalls.socket streamSocket ∧ PlainSocket 2 0x80001 0 := by
  obtain ⟨filter, h⟩ := fourCalls_installs []
  have hrule : typedSocketRule fourCalls 2 1 ∈ socketRules fourCalls := by decide
  have ha : filter.allows fourCalls.socket streamSocket :=
    (allows_iff h).mpr ⟨by decide, _, List.not_mem_nil, _, .socket hrule, by decide⟩
  exact ⟨filter, h, ha, (socket_plain_iff fourCalls h streamSocket ha).mpr (.inr rfl)⟩

/-- A packet socket passes the built-in filter. -/
theorem installSeccomp_allows_packet :
    ∃ filter, installSeccomp fourCalls [] = some filter ∧
      filter.allows fourCalls.socket packetSocket ∧
      ¬PlainSocket (packetSocket 0) (packetSocket 1) (packetSocket 2) := by
  obtain ⟨filter, h⟩ := fourCalls_installs []
  have hrule : typedSocketRule fourCalls 2 2 ∈ socketRules fourCalls := by decide
  have ha : filter.allows fourCalls.socket packetSocket :=
    (allows_iff h).mpr ⟨by decide, _, List.not_mem_nil, _, .socket hrule, by decide⟩
  exact ⟨filter, h, ha, by decide⟩

end MiniContainer.Seccomp
