import MiniContainer.Native.Cli
import MiniContainer.Native.Launch
import MiniContainer.Spec.ConfigRoundTrip

/-!
# What the argument parser accepts

Bounds and well-formedness of every configuration that `run` and `create` can
build. Each value parser has one lemma about the values it returns; the argument
loop keeps `RunOptions.Accepted`, so that `RunConfig.Accepted` holds of the
configuration at its end.
-/

namespace MiniContainer

open CString (Text strchr strtou)

/-! ## Values -/

theorem parsePositiveU64_bounds {value : Text} {maximum n : UInt64}
    (h : parsePositiveU64 value maximum = some n) : 0 < n.toNat ∧ n ≤ maximum := by
  simp only [parsePositiveU64] at h
  split at h
  · exact nomatch h
  · split at h
    · exact nomatch h
    · rename_i c hc
      split at h
      · exact nomatch h
      · rename_i hok
        cases h
        have hlt := CString.strtou_lt hc
        simp only [not_or] at hok
        rw [UInt64.le_iff_toNat_le, UInt64.toNat_ofNat_of_lt' hlt]
        omega

theorem suffixMultiplier_pos {suffix : Text} {m : Nat} (h : suffixMultiplier suffix = some m) :
    0 < m := by
  simp only [suffixMultiplier] at h
  split at h
  · cases h; decide
  · split at h
    · cases h; decide
    · split at h
      · cases h; decide
      · split at h
        · cases h; decide
        · exact nomatch h

theorem parseBytes_pos {value : Text} {n : UInt64} (h : parseBytes value = some n) :
    0 < n.toNat := by
  simp only [parseBytes] at h
  split at h
  · exact nomatch h
  · split at h
    · exact nomatch h
    · rename_i c hc
      split at h
      · exact nomatch h
      · rename_i hok
        split at h
        · exact nomatch h
        · rename_i m hm
          split at h
          · exact nomatch h
          · rename_i hfit
            cases h
            have hmpos := suffixMultiplier_pos hm
            have hprod : c.value * m < 2 ^ 64 := by
              have := (Nat.le_div_iff_mul_le hmpos).mp (Nat.le_of_not_lt hfit)
              omega
            simp only [not_or] at hok
            rw [UInt64.toNat_ofNat_of_lt' hprod]
            exact Nat.mul_pos (by omega) hmpos

theorem parseCpuQuota_bounds {value : Text} {q : UInt64} (h : parseCpuQuota value = some q) :
    0 < q.toNat ∧ q ≤ 102400000 := by
  simp only [parseCpuQuota] at h
  split at h
  · exact nomatch h
  · split at h
    · exact nomatch h
    · rename_i s _
      split at h
      · exact nomatch h
      · split at h
        · exact nomatch h
        · rename_i hm
          split at h
          · rename_i hpos
            cases h
            simp only [not_or, Nat.not_lt] at hm
            generalize s.whole * 1000000 + s.fraction * 1000000 / s.scale = micros at hm hpos ⊢
            have hle : micros * 100000 / 1000000 ≤ 102400000 := by omega
            rw [UInt64.le_iff_toNat_le,
              UInt64.toNat_ofNat_of_lt' (Nat.lt_of_le_of_lt hle (by decide))]
            exact ⟨hpos, hle⟩
          · exact nomatch h

theorem parseUser_bounds {value : Text} {user group : UInt32}
    (h : parseUser value = some (user, group)) : user.toNat ≤ 65535 ∧ group.toNat ≤ 65535 := by
  have cast : ∀ n : Nat, ¬65535 < n → (UInt32.ofNat n).toNat ≤ 65535 := by
    intro n hn
    rw [UInt32.toNat_ofNat_of_lt' (Nat.lt_of_le_of_lt (Nat.le_of_not_lt hn) (by decide))]
    omega
  simp only [parseUser] at h
  split at h
  · exact nomatch h
  · split at h
    · exact nomatch h
    · split at h
      · exact nomatch h
      · rename_i hu
        split at h
        · cases h
          exact ⟨cast _ fun hlt => hu (.inr hlt), cast _ fun hlt => hu (.inr hlt)⟩
        · split at h
          · exact nomatch h
          · split at h
            · exact nomatch h
            · rename_i hg
              cases h
              exact ⟨cast _ fun hlt => hu (.inr hlt), cast _ fun hlt => hg (.inr (.inl hlt))⟩
        · exact nomatch h

/-- What both parsers of published ports guarantee. -/
structure Publish.Valid (p : Publish) : Prop where
  hostPort : p.hostPort ≠ 0
  containerPort : p.containerPort ≠ 0
  protocol : p.protocol = ipprotoTcp ∨ p.protocol = ipprotoUdp

private theorem scannedPort_ne_zero {n : UInt32} {port : UInt16}
    (h : scannedPort n = some port) : port ≠ 0 := by
  simp only [scannedPort] at h
  split at h
  · exact nomatch h
  · rename_i hn
    cases h
    simp only [not_or, UInt32.not_lt, UInt32.le_iff_toNat_le] at hn
    intro hz
    have hz' := congrArg UInt16.toNat hz
    simp only [UInt32.toNat_toUInt16, UInt16.toNat_zero] at hz'
    have hmax : (65535 : UInt32).toNat = 65535 := rfl
    exact hn.1 (UInt32.toNat_inj.mp (by simp only [UInt32.toNat_zero]; omega))

theorem parsePublish_valid {value : Text} {p : Publish} (h : parsePublish value = some p) :
    p.Valid := by
  simp only [parsePublish, Option.bind_eq_bind, Option.bind_eq_some_iff] at h
  obtain ⟨_, _, _, _, _, _, _, _, _, _, _, _, _, _, _, _, hostPort, hhp, containerPort, hcp,
    protocol, hproto, hp⟩ := h
  split at hp
  · cases hp
    refine ⟨scannedPort_ne_zero hhp, scannedPort_ne_zero hcp, ?_⟩
    simp only [publishProtocol] at hproto
    split at hproto
    · exact .inl (Option.some.inj hproto).symm
    · split at hproto
      · exact .inr (Option.some.inj hproto).symm
      · exact nomatch hproto
  · exact nomatch hp

/-! ## Mounts, capabilities and seccomp names -/

/-- The mounts that the parsers build: a bind mount of an allowed directory in canonical
    form, or a `tmpfs` of bounded size. The target never holds the separator. -/
inductive Mount.Accepted (host : Host) : Mount → Prop where
  | bind {source target : Text} {readonly : Bool} (hreal : host.realpath source = some source)
      (hdir : host.isDirectory source = true) (hallowed : bindAllowed host source = true)
      (htarget : validTarget target = true) (hcolon : ':' ∉ target) :
      Mount.Accepted host ⟨.bind, some source, target, 0, readonly⟩
  | tmpfs {target : Text} {size : UInt64} (htarget : validTarget target = true)
      (hcolon : ':' ∉ target) (hpos : 0 < size.toNat) (hsize : size ≤ 1073741824) :
      Mount.Accepted host ⟨.tmpfs, none, target, size, false⟩

theorem bindTarget_no_colon {rest : Text} : ':' ∉ (bindTarget rest).1 := by
  simp only [bindTarget]
  split
  · rename_i h
    exact CString.strchr_eq_none.mp h
  · rename_i h
    exact (CString.strchr_eq_some h).2

theorem parseBindMount_accepted {host : Host} {value : Text} {m : Mount}
    (h : parseBindMount host value = .ok m) : m.Accepted host := by
  simp only [parseBindMount] at h
  split at h
  · rename_i m' hm
    obtain rfl := Except.ok.inj h
    simp only [bindMount] at hm
    split at hm
    · exact nomatch hm
    · split at hm
      · rename_i htarget
        split at hm
        · rename_i readonly resolved hmode hreal
          split at hm
          · rename_i hdir
            cases hm
            exact .bind (host.realpath_idem _ _ hreal) hdir.1 hdir.2 htarget.2 bindTarget_no_colon
          · exact nomatch hm
        · exact nomatch hm
      · exact nomatch hm
  · exact nomatch h

/-- The first character of a target is a slash, so only the others can be colons. -/
private theorem no_colon_cons {first : Char} {target : Text} (h : ':' ∉ target)
    (hv : validTarget (first :: target) = true) : ':' ∉ first :: target := by
  have hfirst : first = '/' := by
    simp only [validTarget, List.head?_cons, Bool.and_eq_true, beq_iff_eq, Option.some.injEq] at hv
    exact hv.1.1.1.1
  simp [hfirst, h]

theorem parseTmpfsMount_accepted {host : Host} {value : Text} {m : Mount}
    (h : parseTmpfsMount value = .ok m) : m.Accepted host := by
  simp only [parseTmpfsMount] at h
  split at h
  · rename_i m' hm
    obtain rfl := Except.ok.inj h
    simp only [tmpfsMount] at hm
    split at hm
    · exact nomatch hm
    · split at hm
      · rename_i hnone
        split at hm
        · rename_i hv
          cases hm
          exact .tmpfs hv (no_colon_cons (CString.strchr_eq_none.mp hnone) hv) (by decide)
            (by decide)
        · exact nomatch hm
      · rename_i hsome
        split at hm
        · exact nomatch hm
        · rename_i hsize
          split at hm
          · rename_i hv
            cases hm
            exact .tmpfs hv.2 (no_colon_cons (CString.strchr_eq_some hsome).2 hv.2)
              (parseBytes_pos hsize) hv.1
          · exact nomatch hm
  · exact nomatch h

theorem capabilityParse_lt {name : Text} {n : Nat} (h : capabilityParse name = some n) :
    n < capabilityNames.length := by
  simp only [capabilityParse] at h
  exact (List.findIdx?_eq_some_iff_getElem.mp h).1

theorem loadDenies_valid {host : Host} {loaded names : List Text} {entries : List JsonC.Value}
    (h : loadDenies host loaded entries = some names)
    (hl : ∀ name ∈ loaded, seccompNameValid host name = true) :
    ∀ name ∈ names, seccompNameValid host name = true := by
  induction entries generalizing loaded with
  | nil =>
    cases h
    exact hl
  | cons entry rest ih =>
    simp only [loadDenies] at h
    split at h
    · exact nomatch h
    · rename_i name _
      split at h
      · exact nomatch h
      · rename_i hok
        simp only [not_or, Bool.not_eq_true', Bool.not_eq_false] at hok
        refine ih h fun n hn => ?_
        rcases List.mem_append.mp hn with hn | hn
        · exact hl n hn
        · obtain rfl := List.mem_singleton.mp hn
          exact hok.1

theorem seccompProfileLoad_valid {host : Host} {path : Text} {names : List Text}
    (h : seccompProfileLoad host path = .ok names) :
    ∀ name ∈ names, seccompNameValid host name = true := by
  simp only [seccompProfileLoad] at h
  split at h
  · rename_i names' hp
    obtain rfl := Except.ok.inj h
    simp only [seccompProfile, Option.bind_eq_bind] at hp
    split at hp
    · simp only [Option.bind_eq_some_iff] at hp
      obtain ⟨_, _, _, _, _, _, hp⟩ := hp
      split at hp
      · exact loadDenies_valid hp (by simp)
      · exact nomatch hp
    · exact nomatch hp
  · exact nomatch h

/-- Setting a named capability sets one bit of the mask. -/
theorem testBit_addCapability {mask : UInt64} {n : Nat} (hn : n < 64) (i : Nat) :
    (addCapability mask n).toNat.testBit i = (mask.toNat.testBit i || decide (n = i)) := by
  have hlt : 2 ^ n < UInt64.size := Nat.pow_lt_pow_right (by decide) hn
  rw [addCapability, UInt64.toNat_or, UInt64.toNat_ofNat_of_lt' hlt, Nat.testBit_or,
    Nat.testBit_two_pow]

/-! ## The argument loop -/

/-- What the argument loop keeps true of its variables. -/
structure RunOptions.Accepted (host : Host) (o : RunOptions) : Prop where
  name : ∀ name ∈ o.name, validName name = true
  workdir : o.workdir.head? = some '/'
  environment : ∀ e ∈ o.environment, validEnvironment e = true
  user : o.user.toNat ≤ 65535
  group : o.group.toNat ≤ 65535
  memory : 0 < o.memoryMax.toNat
  cpu : 0 < o.cpuQuota.toNat ∧ o.cpuQuota ≤ 102400000
  pids : 0 < o.pidsMax.toNat ∧ o.pidsMax ≤ 4194304
  publishes : ∀ p ∈ o.publishes, p.Valid
  disjoint : o.publishes.Pairwise fun p q => p.overlaps q = false
  mounts : ∀ m ∈ o.mounts, m.Accepted host
  denies : ∀ names ∈ o.seccompDenies, ∀ name ∈ names, seccompNameValid host name = true
  capabilities : ∀ i, o.capabilityMask.toNat.testBit i = true → i < capabilityNames.length

theorem RunOptions.accepted_default (host : Host) : RunOptions.Accepted host {} where
  name := by simp
  workdir := rfl
  environment := by simp
  user := by decide
  group := by decide
  memory := by decide
  cpu := by decide
  pids := by decide
  publishes := by simp
  disjoint := .nil
  mounts := by simp
  denies := by simp
  capabilities := by simp

private theorem orUsage_ok {α : Type} {parsed : Option α} {store : α → RunOptions} {o : RunOptions}
    (h : orUsage parsed store = .ok o) : ∃ a, parsed = some a ∧ store a = o := by
  cases parsed with
  | none => exact nomatch h
  | some a => exact ⟨a, rfl, Except.ok.inj h⟩

private theorem orReport_ok {α : Type} {parsed : Except McError α} {store : α → RunOptions}
    {o : RunOptions} (h : orReport parsed store = .ok o) : ∃ a, parsed = .ok a ∧ store a = o := by
  cases parsed with
  | error e => exact nomatch h
  | ok a => exact ⟨a, rfl, Except.ok.inj h⟩

/-- Adding an element that has a property to a list of such elements. -/
private theorem forall_mem_concat {α : Type} {P : α → Prop} {xs : List α} {x : α}
    (h : ∀ y ∈ xs, P y) (hx : P x) : ∀ y ∈ xs ++ [x], P y := by
  intro y hy
  rcases List.mem_append.mp hy with hy | hy
  · exact h y hy
  · exact List.mem_singleton.mp hy ▸ hx

/-- One flag with its value keeps the options accepted. -/
theorem RunOptions.Accepted.apply {host : Host} {o o' : RunOptions} (ha : o.Accepted host)
    {flag : RunFlag} {value : Text} (h : o.apply host flag value = .ok o') :
    o'.Accepted host := by
  cases flag with
  | name =>
    simp only [RunOptions.apply] at h
    split at h
    · rename_i hv
      obtain rfl := Except.ok.inj h
      exact { ha with name := by simpa using hv }
    · exact nomatch h
  | image | hostname =>
    obtain rfl := Except.ok.inj h
    exact { ha with }
  | workdir =>
    simp only [RunOptions.apply] at h
    split at h
    · rename_i hv
      obtain rfl := Except.ok.inj h
      exact { ha with workdir := hv }
    · exact nomatch h
  | user =>
    obtain ⟨⟨user, group⟩, hp, rfl⟩ := orUsage_ok h
    exact { ha with user := (parseUser_bounds hp).1, group := (parseUser_bounds hp).2 }
  | env =>
    simp only [RunOptions.apply] at h
    split at h
    · rename_i hv
      obtain rfl := Except.ok.inj h
      exact { ha with environment := forall_mem_concat ha.environment hv }
    · exact nomatch h
  | memory =>
    obtain ⟨n, hp, rfl⟩ := orUsage_ok h
    exact { ha with memory := parseBytes_pos hp }
  | memorySwap =>
    simp only [RunOptions.apply] at h
    split at h
    · obtain rfl := Except.ok.inj h
      exact { ha with }
    · obtain ⟨n, _, rfl⟩ := orUsage_ok h
      exact { ha with }
  | cpus =>
    obtain ⟨n, hp, rfl⟩ := orUsage_ok h
    exact { ha with cpu := parseCpuQuota_bounds hp }
  | pidsLimit =>
    obtain ⟨n, hp, rfl⟩ := orUsage_ok h
    exact { ha with pids := parsePositiveU64_bounds hp }
  | network =>
    simp only [RunOptions.apply] at h
    split at h
    · obtain rfl := Except.ok.inj h
      exact { ha with }
    · split at h
      · obtain rfl := Except.ok.inj h
        exact { ha with }
      · exact nomatch h
  | publish =>
    simp only [RunOptions.apply] at h
    split at h
    · exact nomatch h
    · rename_i p hp
      split at h
      · exact nomatch h
      · rename_i hfree
        obtain rfl := Except.ok.inj h
        simp only [List.any_eq_true, not_exists, not_and, Bool.not_eq_true] at hfree
        refine { ha with
          publishes := forall_mem_concat ha.publishes (parsePublish_valid hp)
          disjoint := List.pairwise_append.mpr ⟨ha.disjoint, List.pairwise_singleton _ _, ?_⟩ }
        intro q hq p' hp'
        obtain rfl := List.mem_singleton.mp hp'
        exact hfree q hq
  | capAdd =>
    simp only [RunOptions.apply] at h
    split at h
    · exact nomatch h
    · rename_i n hn
      split at h
      · exact nomatch h
      · obtain rfl := Except.ok.inj h
        have hlt := capabilityParse_lt hn
        refine { ha with capabilities := fun i hi => ?_ }
        rw [testBit_addCapability (by omega), Bool.or_eq_true, decide_eq_true_eq] at hi
        rcases hi with hi | rfl
        · exact ha.capabilities i hi
        · exact hlt
  | bind =>
    obtain ⟨m, hm, rfl⟩ := orReport_ok h
    exact { ha with mounts := forall_mem_concat ha.mounts (parseBindMount_accepted hm) }
  | tmpfs =>
    obtain ⟨m, hm, rfl⟩ := orReport_ok h
    exact { ha with mounts := forall_mem_concat ha.mounts (parseTmpfsMount_accepted hm) }
  | seccompProfile =>
    simp only [RunOptions.apply] at h
    split at h
    · exact nomatch h
    · obtain ⟨names, hp, rfl⟩ := orReport_ok h
      exact { ha with denies := by simpa using seccompProfileLoad_valid hp }

/-- The argument loop keeps the options accepted. -/
theorem parseRunArgs_accepted {host : Host} {o o' : RunOptions} {args : List Text}
    {command : Option (List Text)} (ha : o.Accepted host)
    (h : parseRunArgs host o args = .ok (o', command)) : o'.Accepted host := by
  fun_induction parseRunArgs host o args with
  | case1 | case2 | case6 =>
    obtain ⟨rfl, -⟩ := Prod.mk.inj (Except.ok.inj h)
    exact ha
  | case3 | case4 =>
    obtain ⟨rfl, -⟩ := Prod.mk.inj (Except.ok.inj h)
    exact { ha with }
  | case5 | case9 | case10 => exact nomatch h
  | case7 _ _ _ _ ih | case8 _ _ _ _ _ ih => exact ih { ha with } h
  | case11 _ _ _ _ _ _ _ _ _ _ happly ih => exact ih (ha.apply happly) h

/-! ## Configurations -/

/-- What holds of every configuration that `run` and `create` build. -/
structure RunConfig.Accepted (host : Host) (config : RunConfig) : Prop where
  name : ∀ name ∈ config.name, validName name = true
  workdir : config.workdir.head? = some '/'
  environment : ∀ e ∈ config.environment, validEnvironment e = true
  user : config.user.toNat ≤ 65535
  group : config.group.toNat ≤ 65535
  memory : 0 < config.memoryMax.toNat
  cpu : 0 < config.cpuQuota.toNat ∧ config.cpuQuota ≤ 102400000
  pids : 0 < config.pidsMax.toNat ∧ config.pidsMax ≤ 4194304
  publishes : ∀ p ∈ config.publishes, p.Valid
  disjoint : config.publishes.Pairwise fun p q => p.overlaps q = false
  mounts : ∀ m ∈ config.mounts, m.Accepted host
  denies : ∀ name ∈ config.seccompDenies, seccompNameValid host name = true
  capabilities : ∀ i, config.capabilityMask.toNat.testBit i = true → i < capabilityNames.length
  command : config.command ≠ []

/-- The shape of an accepted request: its options, its image and its command. -/
theorem runRequest_ok {host : Host} {args : List Text} {r : RunRequest}
    (h : runRequest host args = .ok r) :
    r.options.Accepted host ∧ validName r.image = true ∧ r.command ≠ [] := by
  simp only [runRequest] at h
  split at h
  · exact nomatch h
  · rename_i options command hparse
    split at h
    · rename_i image program arguments _ hcommand
      split at h
      · exact nomatch h
      · rename_i rootfs hresolve
        obtain rfl := Except.ok.inj h
        refine ⟨parseRunArgs_accepted (RunOptions.accepted_default host) hparse, ?_, by simp⟩
        simp only [imageResolve] at hresolve
        split at hresolve
        · assumption
        · exact nomatch hresolve
    · exact nomatch h

/-- Every configuration that `run` and `create` build is accepted, whatever its ID and the
    address it is given. -/
theorem RunRequest.config_accepted {host : Host} {args : List Text} {r : RunRequest}
    (h : runRequest host args = .ok r) (id : Text) (ipv4Host : UInt32) :
    RunConfig.Accepted host { r.config id with ipv4Host } := by
  obtain ⟨ho, -, hc⟩ := runRequest_ok h
  refine { ho with command := hc, denies := fun name hname => ?_ }
  simp only [RunRequest.config] at hname
  cases hd : r.options.seccompDenies with
  | none => simp [hd] at hname
  | some names =>
    simp only [hd, Option.getD_some] at hname
    exact ho.denies names hd name hname

/-- Accepted names fit every buffer of the runtime. -/
theorem validName_length {name : Text} (h : validName name = true) : name.length ≤ 64 := by
  simp only [validName, Bool.and_eq_true, decide_eq_true_eq] at h
  exact h.1.1.1.2

/-- An accepted name is stored and compared as it was given. -/
theorem untilNul_of_validName {name : Text} (h : validName name = true) : untilNul name = name := by
  simp only [validName, Bool.and_eq_true, List.all_eq_true] at h
  exact untilNul_eq_self_iff.mpr fun hnul => absurd (h.1.2 _ hnul) (by decide)

/-- A host with nothing but an image store. -/
def plainHost : Host where
  realpath _ := none
  isDirectory _ := false
  configFile := none
  statProfile _ := none
  readProfile _ := none
  syscallKnown _ := false
  imageStore name := .ok ("/images/".toList ++ name)
  realpath_idem _ _ h := nomatch h
  realpath_absolute _ _ h := nomatch h
  realpath_length _ _ h := nomatch h

/-- Accepted mounts can be stored. -/
theorem Mount.Accepted.storable {host : Host} {m : Mount} (h : m.Accepted host) :
    m.Storable := by
  cases h with
  | bind => exact .inl ⟨rfl, by simp⟩
  | tmpfs => exact .inr rfl

end MiniContainer
