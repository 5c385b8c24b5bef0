import MiniContainer.Spec.Accepted

/-!
# From the command line to the shim

What the shim's `main` makes of the argument vector that `mc_launch_shim` built.
Every value but those of bind mounts reads back. `carried` is what the shim makes
of one mount, and `shimConfig_shimArguments` says that the shim receives the
launched configuration with its mounts replaced by what was carried of them.
-/

namespace MiniContainer

open CString (Text strchr strtou decimal snprintf decimal_length_le noDigit_cons noDigit_nil
  snprintf_of_fits strchr_append strtou_decimal)

/-! ## Values read back -/

/-- A printed number fits a buffer of 32 bytes. -/
private theorem snprintf_decimal {n : Nat} (h : n < 2 ^ 64) :
    snprintf 32 (decimal n) = decimal n := by
  have hlen : (decimal n).length ≤ 20 := decimal_length_le (by decide) (by omega)
  exact snprintf_of_fits (by omega)

/-- A printed number is read to its end. -/
private theorem strtou_decimal_nil {n : Nat} (h : n < 2 ^ 64) :
    strtou 64 (decimal n) = some ⟨n, false, []⟩ := by
  have := strtou_decimal h noDigit_nil
  rwa [List.append_nil] at this

/-- A printed number is not empty and has no sign. -/
private theorem decimal_unsigned (n : Nat) : ¬(decimal n = [] ∨ (decimal n).head? = some '-') := by
  rintro (h | h)
  · exact CString.decimal_ne_nil n h
  · have hdigit := CString.isDigit_of_mem_decimal (List.mem_of_head? h)
    exact absurd hdigit (by decide)

theorem parsePositiveU64_decimal {n maximum : UInt64} (hpos : 0 < n.toNat) (hle : n ≤ maximum) :
    parsePositiveU64 (snprintf 32 (decimal n.toNat)) maximum = some n := by
  have hlt := n.toNat_lt
  rw [UInt64.le_iff_toNat_le] at hle
  rw [snprintf_decimal hlt, parsePositiveU64, if_neg (decimal_unsigned _), strtou_decimal_nil hlt]
  simp only [Bool.false_eq_true, ne_eq, not_true_eq_false, false_or]
  rw [if_neg (by omega), UInt64.ofNat_toNat]

theorem scanUnsigned_decimal {n : Nat} (maximum : Nat) (hlt : n < 2 ^ 64) (hle : n ≤ maximum) :
    scanUnsigned (snprintf 32 (decimal n)) maximum = some n := by
  rw [snprintf_decimal hlt, scanUnsigned, strtou_decimal_nil hlt]
  simp only [Bool.false_eq_true, ne_eq, not_true_eq_false, false_or]
  rw [if_neg (by omega)]

theorem scanReadyFd_decimal {fd : Nat} (h : fd ≤ 1048576) :
    scanReadyFd (snprintf 32 (decimal fd)) = some (fd : Int) := by
  have hread := CString.strtol_decimal (n := fd) (by omega) noDigit_nil
  rw [List.append_nil] at hread
  rw [snprintf_decimal (by omega), scanReadyFd, hread]
  simp only [Bool.false_eq_true, ne_eq, not_true_eq_false, false_or]
  rw [if_neg (by omega)]

theorem parseBytes_decimal {n : UInt64} (hpos : 0 < n.toNat) :
    parseBytes (decimal n.toNat) = some n := by
  have hlt := n.toNat_lt
  rw [parseBytes, if_neg (decimal_unsigned _), strtou_decimal_nil hlt]
  have hone : suffixMultiplier (List.map Char.toLower []) = some 1 := by decide
  simp only [Bool.false_eq_true, List.length_nil, false_or, hone]
  rw [if_neg (by omega), if_neg (by omega), Nat.mul_one, UInt64.ofNat_toNat]

/-- User and group print into their buffer and read back. -/
theorem parseUser_decimal {user group : UInt32} (hu : user.toNat ≤ 65535)
    (hg : group.toNat ≤ 65535) :
    parseUser (snprintf 32 (decimal user.toNat ++ ':' :: decimal group.toNat)) =
      some (user, group) := by
  have hfits : (decimal user.toNat ++ ':' :: decimal group.toNat).length < 32 := by
    have h₁ := decimal_length_le (n := user.toNat) (k := 5) (by decide) (by omega)
    have h₂ := decimal_length_le (n := group.toNat) (k := 5) (by decide) (by omega)
    simp only [List.length_append, List.length_cons]
    omega
  have hread : strtou 64 (decimal user.toNat ++ ':' :: decimal group.toNat) =
      some ⟨user.toNat, false, ':' :: decimal group.toNat⟩ :=
    strtou_decimal (by omega) (by rw [noDigit_cons]; decide)
  rw [snprintf_of_fits hfits, parseUser, if_neg (by simp), hread]
  simp only [Bool.false_eq_true, false_or, strtou_decimal_nil (show group.toNat < 2 ^ 64 by omega)]
  rw [if_neg (by omega)]
  simp only [ne_eq, not_true_eq_false, or_false]
  rw [if_neg (by omega), UInt32.ofNat_toNat, UInt32.ofNat_toNat]

/-! ### Published ports -/

private theorem scanU_decimal {n : Nat} {rest : Text} (hn : n < 2 ^ 32)
    (hr : CString.NoDigit rest) :
    scanU (decimal n ++ rest) = some (UInt32.ofNat n, rest) := by
  rw [scanU, strtou_decimal (by omega) hr]
  rfl

private theorem scannedPort_toNat {port : UInt16} (h : port ≠ 0) :
    scannedPort (UInt32.ofNat port.toNat) = some port := by
  have hlt := port.toNat_lt
  have hto : (UInt32.ofNat port.toNat).toNat = port.toNat :=
    UInt32.toNat_ofNat_of_lt' (Nat.lt_of_lt_of_le hlt (by decide))
  have hne : UInt32.ofNat port.toNat ≠ 0 := by
    intro hz
    have hz' := congrArg UInt32.toNat hz
    rw [hto] at hz'
    exact h (UInt16.toNat_inj.mp (by simpa using hz'))
  have hle : ¬(65535 : UInt32) < UInt32.ofNat port.toNat := by
    rw [UInt32.lt_iff_toNat_lt, hto]
    have : (65535 : UInt32).toNat = 65535 := rfl
    omega
  have hback : (UInt32.ofNat port.toNat).toUInt16 = port := by
    apply UInt16.toNat_inj.mp
    rw [UInt32.toNat_toUInt16, hto]
    omega
  rw [scannedPort, if_neg (not_or.mpr ⟨hne, hle⟩), hback]

/-- A published port prints into its buffer and reads back. -/
theorem scanShimPublish_decimal {p : Publish} (hp : p.Valid) :
    scanShimPublish (snprintf 64 (decimal p.hostIpv4.toNat ++ ',' :: decimal p.hostPort.toNat ++
      ',' :: decimal p.containerPort.toNat ++ ',' :: decimal p.protocol.toNat)) = some p := by
  have h₁ := p.hostIpv4.toNat_lt
  have h₂ := p.hostPort.toNat_lt
  have h₃ := p.containerPort.toNat_lt
  have h₄ := p.protocol.toNat_lt
  have hcomma : ∀ s : Text, CString.NoDigit (',' :: s) := fun s => by
    rw [noDigit_cons]; decide
  have hfits : (decimal p.hostIpv4.toNat ++ ',' :: decimal p.hostPort.toNat ++
      ',' :: decimal p.containerPort.toNat ++ ',' :: decimal p.protocol.toNat).length < 64 := by
    have l₁ := decimal_length_le (n := p.hostIpv4.toNat) (k := 10) (by decide) (by omega)
    have l₂ := decimal_length_le (n := p.hostPort.toNat) (k := 5) (by decide) (by omega)
    have l₃ := decimal_length_le (n := p.containerPort.toNat) (k := 5) (by decide)
      (by omega)
    have l₄ := decimal_length_le (n := p.protocol.toNat) (k := 3) (by decide) (by omega)
    simp only [List.length_append, List.length_cons]
    omega
  have hproto : scannedProtocol (UInt32.ofNat p.protocol.toNat) = some p.protocol := by
    rcases hp.protocol with h | h <;> rw [h] <;> decide
  have hlast : scanU (decimal p.protocol.toNat) = some (UInt32.ofNat p.protocol.toNat, []) := by
    have := scanU_decimal (n := p.protocol.toNat) (by omega) noDigit_nil
    rwa [List.append_nil] at this
  rw [snprintf_of_fits hfits]
  simp only [List.append_assoc, List.cons_append]
  simp only [scanShimPublish, scanU_decimal h₁ (hcomma _),
    scanU_decimal (Nat.lt_of_lt_of_le h₂ (by decide)) (hcomma _),
    scanU_decimal (Nat.lt_of_lt_of_le h₃ (by decide)) (hcomma _), hlast, scanLiteral, if_true,
    Option.bind_eq_bind, Option.bind_some, scannedPort_toNat hp.hostPort,
    scannedPort_toNat hp.containerPort, hproto, UInt32.ofNat_toNat]

/-! ## Mounts -/

/-- What the shim makes of one mount of the launched configuration. -/
def carried (host : Host) (m : Mount) : Option Mount :=
  if m.type = .bind then
    bindMount host (snprintf 8192 (m.source.getD "(null)".toList ++ ':' :: m.target ++ ':' ::
      (if m.readonly then "ro".toList else "rw".toList)))
  else tmpfsMount (snprintf 8192 (m.target ++ ':' :: decimal m.size.toNat))

theorem validTarget_length {target : Text} (h : validTarget target = true) :
    target.length < pathMax := by
  simp only [validTarget, Bool.and_eq_true, decide_eq_true_eq] at h
  exact h.1.1.2

theorem validTarget_head {target : Text} (h : validTarget target = true) :
    target.head? = some '/' := by
  simp only [validTarget, Bool.and_eq_true, beq_iff_eq] at h
  exact h.1.1.1.1

/-- A `tmpfs` mount is carried over. -/
theorem carried_tmpfs {host : Host} {target : Text} {size : UInt64}
    (htarget : validTarget target = true) (hcolon : ':' ∉ target) (hpos : 0 < size.toNat)
    (hsize : size ≤ 1073741824) :
    carried host ⟨.tmpfs, none, target, size, false⟩ =
      some ⟨.tmpfs, none, target, size, false⟩ := by
  have hlen := validTarget_length htarget
  have hfits : (target ++ ':' :: decimal size.toNat).length < 8192 := by
    have h₁ := decimal_length_le (n := size.toNat) (k := 20) (by decide)
      (Nat.lt_of_lt_of_le size.toNat_lt (by decide))
    simp only [List.length_append, List.length_cons, pathMax] at hlen ⊢
    omega
  rw [carried, if_neg (by simp), snprintf_of_fits hfits]
  cases target with
  | nil => exact absurd (validTarget_head htarget) (by simp)
  | cons first tail =>
    simp only [List.mem_cons, not_or] at hcolon
    simp only [tmpfsMount, List.cons_append, strchr_append hcolon.2,
      parseBytes_decimal hpos]
    rw [if_pos ⟨hsize, htarget⟩]

/-- What the shim reads as the mode of a bind mount, when `room` characters of the buffer
    are left behind the target. -/
def carriedMode (room : Nat) (readonly : Bool) : Option Bool :=
  if room = 0 then some false else if room < 3 then none else some readonly

/-- The value of `--bind`: source and target always fit the buffer, the mode may be cut. -/
private theorem bindValue_eq {source target mode : Text} (hs : source.length < pathMax)
    (ht : target.length < pathMax) :
    snprintf 8192 (source ++ ':' :: target ++ ':' :: mode) =
      source ++ ':' :: (target ++ (':' :: mode).take (8190 - source.length - target.length)) := by
  simp only [pathMax] at hs ht
  have hroom : 8192 - 1 - source.length = 8190 - source.length + 1 := by omega
  rw [snprintf, List.append_assoc, List.take_append, List.take_of_length_le (by omega), hroom,
    List.cons_append, List.take_succ_cons, List.take_append, List.take_of_length_le (by omega)]

/-- Behind the target the shim finds what was left of the mode. -/
private theorem bindTarget_cut {target : Text} (readonly : Bool) (hcolon : ':' ∉ target)
    (room : Nat) :
    let found := bindTarget (target ++
      (':' :: (if readonly then "ro".toList else "rw".toList)).take room)
    found.1 = target ∧ bindMode found.2 = carriedMode room readonly := by
  match room with
  | 0 =>
    simp only [List.take_zero, List.append_nil, bindTarget, CString.strchr_of_not_mem hcolon]
    exact ⟨trivial, rfl⟩
  | 1 =>
    simp only [List.take_succ_cons, List.take_zero, bindTarget, strchr_append hcolon]
    exact ⟨trivial, rfl⟩
  | 2 =>
    simp only [List.take_succ_cons, bindTarget, strchr_append hcolon]
    exact ⟨trivial, by cases readonly <;> rfl⟩
  | n + 3 =>
    have hwhole : (if readonly then "ro".toList else "rw".toList).take (n + 2) =
        if readonly then "ro".toList else "rw".toList :=
      List.take_of_length_le (by cases readonly <;> simp)
    simp only [List.take_succ_cons, hwhole, bindTarget, strchr_append hcolon]
    exact ⟨trivial, by cases readonly <;> rfl⟩

/-- A bind mount whose source has no separator is carried over up to its mode. -/
theorem carried_bind {host : Host} {source target : Text} {readonly : Bool}
    (hreal : host.realpath source = some source) (hdir : host.isDirectory source = true)
    (hallowed : bindAllowed host source = true) (htarget : validTarget target = true)
    (hcolon : ':' ∉ target) (hsource : ':' ∉ source) :
    carried host ⟨.bind, some source, target, 0, readonly⟩ =
      (carriedMode (8190 - source.length - target.length) readonly).map
        (⟨.bind, some source, target, 0, ·⟩) := by
  obtain ⟨hfound, hmode⟩ := bindTarget_cut readonly hcolon
    (8190 - source.length - target.length)
  rw [carried, if_pos rfl, Option.getD_some,
    bindValue_eq (host.realpath_length _ _ hreal) (validTarget_length htarget)]
  simp only [bindMount, strchr_append hsource, hfound, hmode, hreal, htarget,
    host.realpath_absolute _ _ hreal, and_self, if_true]
  cases carriedMode (8190 - source.length - target.length) readonly with
  | none => rfl
  | some mode => simp [hdir, hallowed]

/-- Text behind a further colon that holds a slash is never a mode. -/
private theorem bindMode_of_slash {before behind : Text} (h : '/' ∈ behind) :
    bindMode (bindTarget (before ++ ':' :: behind)).2 = none := by
  have hmode : ∀ mode : Text, '/' ∈ mode → bindMode (some mode) = none := by
    intro mode hmem
    have hro : mode ≠ "ro".toList := by rintro rfl; exact absurd hmem (by decide)
    have hrw : mode ≠ "rw".toList := by rintro rfl; exact absurd hmem (by decide)
    rw [bindMode, if_neg hro, if_neg hrw]
  by_cases hc : ':' ∈ before
  · obtain ⟨b₁, b₂, rfl, hb⟩ := List.eq_append_cons_of_mem hc
    rw [List.append_assoc, List.cons_append, bindTarget, strchr_append hb]
    exact hmode _ (by simp [h])
  · rw [bindTarget, strchr_append hc]
    exact hmode _ h

/-- A bind mount whose source holds the separator is rejected: the shim takes the text
    behind the first colon for the target and the rest for the mode. -/
theorem carried_bind_colon {host : Host} {source target : Text} {readonly : Bool}
    (hlen : source.length < pathMax) (htarget : validTarget target = true) (hmem : ':' ∈ source) :
    carried host ⟨.bind, some source, target, 0, readonly⟩ = none := by
  have hslash : ∀ s : Text, '/' ∈ target ++ s := fun s =>
    List.mem_append_left _ (List.mem_of_head? (validTarget_head htarget))
  rw [carried, if_pos rfl, Option.getD_some, bindValue_eq hlen (validTarget_length htarget)]
  obtain ⟨a, b, rfl, ha⟩ := List.eq_append_cons_of_mem hmem
  rw [List.append_assoc, List.cons_append, bindMount, strchr_append ha]
  simp only [bindMode_of_slash (hslash _), ite_self]

/-- When the shim receives a mount unchanged. -/
def Mount.CarriedOver (m : Mount) : Prop :=
  m.type = .bind → ∀ source ∈ m.source, ':' ∉ source ∧
    (source.length + m.target.length + 4 < 8192 ∨
      (source.length + m.target.length = 8190 ∧ m.readonly = false))

/-- The shim receives an accepted mount unchanged exactly when its source has no colon and
    the printed value fits the buffer, or loses nothing but the default mode. -/
theorem carried_eq_self_iff {host : Host} {m : Mount} (h : m.Accepted host) :
    carried host m = some m ↔ m.CarriedOver := by
  cases h with
  | tmpfs htarget hcolon hpos hsize =>
    simp [carried_tmpfs htarget hcolon hpos hsize, Mount.CarriedOver]
  | @bind source target readonly hreal hdir hallowed htarget hcolon =>
    have hs := host.realpath_length _ _ hreal
    have ht := validTarget_length htarget
    simp only [Mount.CarriedOver, Option.mem_def, Option.some.injEq, forall_eq', true_implies]
    by_cases hmem : ':' ∈ source
    · simp [carried_bind_colon hs htarget hmem, hmem]
    · rw [carried_bind hreal hdir hallowed htarget hcolon hmem]
      simp only [pathMax] at hs ht
      simp only [hmem, not_false_eq_true, true_and, carriedMode]
      split
      · rename_i hroom
        have hsum : source.length + target.length = 8190 := by omega
        cases readonly <;> simp [hsum]
      · split
        · simp only [Option.map_none, reduceCtorEq, false_iff]
          omega
        · simp only [Option.map_some, true_iff]
          omega

/-! ## The argument loop -/

section Loop

variable {host : Host} {s : ShimConfig} {rest : List (Option Text)}

@[simp] theorem untilNull_cons (arg : Text) :
    untilNull (some arg :: rest) = arg :: untilNull rest := rfl

private theorem ofText_ne {flag : ShimFlag} {arg bare : Text}
    (hflag : ShimFlag.ofText arg = some flag) (hbare : ShimFlag.ofText bare = none) :
    arg ≠ bare := by
  rintro rfl
  rw [hbare] at hflag
  exact nomatch hflag

/-- A flag of the shim and its value. -/
theorem parseShimArgs_flag (flag : ShimFlag) {arg : Text}
    (hflag : ShimFlag.ofText arg = some flag) (value : Text) (args : List Text) :
    parseShimArgs host s (arg :: value :: args) =
      (s.apply host flag value).bind fun s' => parseShimArgs host s' args := by
  rw [parseShimArgs, if_neg (ofText_ne hflag (by decide)), if_neg (ofText_ne hflag (by decide)),
    if_neg (ofText_ne hflag (by decide)), hflag]
  cases hs : s.apply host flag value <;> simp only [hs, Option.bind_none, Option.bind_some]

theorem parseShimArgs_readonly (args : List Text) :
    parseShimArgs host s ("--read-only".toList :: args) =
      parseShimArgs host { s with readonlyRoot := true } args := by
  cases args with
  | nil => rfl
  | cons value args => rw [parseShimArgs, if_neg (by decide), if_neg (by decide), if_pos rfl]

theorem parseShimArgs_detach (args : List Text) :
    parseShimArgs host s ("--detach".toList :: args) =
      parseShimArgs host { s with detach := true } args := by
  cases args with
  | nil => rfl
  | cons value args => rw [parseShimArgs, if_neg (by decide), if_pos rfl]

/-- A list of the configuration that travels as one flag for each element: how an element
    is printed, what the shim reads, and the list it appends that to. -/
structure ListFlag (host : Host) (α β : Type) where
  flag : α → ShimFlag
  arg : α → Text
  value : α → Text
  read : α → Option β
  push : ShimConfig → List β → ShimConfig
  ofText_arg : ∀ x, ShimFlag.ofText (arg x) = some (flag x)
  apply_value : ∀ s x, s.apply host (flag x) (value x) = (read x).map fun y => push s [y]
  push_nil : ∀ s, push s [] = s
  push_push : ∀ s y ys, push (push s [y]) ys = push s (y :: ys)

/-- The argument pair of one element. -/
def ListFlag.arguments {host : Host} {α β : Type} (L : ListFlag host α β) (x : α) :
    List (Option Text) := [some (L.arg x), some (L.value x)]

/-- The shim reads the elements one by one. -/
theorem ListFlag.parse {α β : Type} (L : ListFlag host α β) (xs : List α) :
    parseShimArgs host s (untilNull (xs.flatMap L.arguments ++ rest)) =
      (xs.mapM L.read).bind fun ys => parseShimArgs host (L.push s ys) (untilNull rest) := by
  induction xs generalizing s with
  | nil => simp [L.push_nil]
  | cons x xs ih =>
    rw [List.flatMap_cons, List.mapM_cons, List.append_assoc, ListFlag.arguments, List.cons_append,
      List.cons_append, List.nil_append, untilNull_cons, untilNull_cons,
      parseShimArgs_flag _ (L.ofText_arg x), L.apply_value]
    cases L.read x with
    | none => rfl
    | some y =>
      rw [Option.map_some, Option.bind_some, ih]
      cases xs.mapM L.read with
      | none => rfl
      | some ys => simp [L.push_push]

/-- The environment, one `--env` for each assignment. -/
def environmentFlag (host : Host) : ListFlag host Text Text where
  flag _ := .env
  arg _ := "--env".toList
  value e := e
  read e := if validEnvironment e then some e else none
  push s ys := { s with environment := s.environment ++ ys }
  ofText_arg _ := by decide
  apply_value s e := by simp only [ShimConfig.apply]; split <;> rfl
  push_nil s := by simp
  push_push s y ys := by simp

/-- The published ports. -/
def publishFlag (host : Host) : ListFlag host Publish Publish where
  flag _ := .publish
  arg _ := "--publish".toList
  value p := snprintf 64 (decimal p.hostIpv4.toNat ++ ',' :: decimal p.hostPort.toNat ++ ',' ::
      decimal p.containerPort.toNat ++ ',' :: decimal p.protocol.toNat)
  read p := scanShimPublish (snprintf 64 (decimal p.hostIpv4.toNat ++ ',' ::
    decimal p.hostPort.toNat ++ ',' :: decimal p.containerPort.toNat ++ ',' ::
    decimal p.protocol.toNat))
  push s ys := { s with publishes := s.publishes ++ ys }
  ofText_arg _ := by decide
  apply_value s p := rfl
  push_nil s := by simp
  push_push s y ys := by simp

/-- The mounts, with one flag for each type. -/
def mountFlag (host : Host) : ListFlag host Mount Mount where
  flag m := if m.type = .bind then .bind else .tmpfs
  arg m := if m.type = .bind then "--bind".toList else "--tmpfs".toList
  value m :=
    if m.type = .bind then
      snprintf 8192 (m.source.getD "(null)".toList ++ ':' :: m.target ++ ':' ::
        (if m.readonly then "ro".toList else "rw".toList))
    else snprintf 8192 (m.target ++ ':' :: decimal m.size.toNat)
  read m := carried host m
  push s ys := { s with mounts := s.mounts ++ ys }
  ofText_arg m := by split <;> decide
  apply_value s m := by
    rw [carried]
    split
    · simp only [ShimConfig.apply, parseBindMount]
      cases bindMount host _ <;> rfl
    · simp only [ShimConfig.apply, parseTmpfsMount]
      cases tmpfsMount _ <;> rfl
  push_nil s := by simp
  push_push s y ys := by simp

/-- The denied system calls. -/
def denyFlag (host : Host) : ListFlag host Text Text where
  flag _ := .seccompDeny
  arg _ := "--seccomp-deny".toList
  value name := name
  read name := if seccompNameValid host name then some name else none
  push s ys := { s with seccompDenies := s.seccompDenies ++ ys }
  ofText_arg _ := by decide
  apply_value s name := by simp only [ShimConfig.apply]; split <;> rfl
  push_nil s := by simp
  push_push s y ys := by simp

/-- The arguments of a mount, as the launcher writes them. -/
theorem mountArguments_eq (host : Host) : mountArguments = (mountFlag host).arguments := by
  funext m
  simp only [mountArguments, ListFlag.arguments, mountFlag]
  split <;> rfl

/-- A list whose elements are all read back. -/
theorem ListFlag.parse_of_forall {α : Type} (L : ListFlag host α α) {xs : List α}
    (h : ∀ x ∈ xs, L.read x = some x) :
    parseShimArgs host s (untilNull (xs.flatMap L.arguments ++ rest)) =
      parseShimArgs host (L.push s xs) (untilNull rest) := by
  rw [L.parse, List.mapM_eq_some_self_iff.mpr h, Option.bind_some]

/-! ### Capabilities -/

private theorem capabilityParse_getElem :
    ∀ i : Fin capabilityNames.length, capabilityParse capabilityNames[i] = some i.val := by
  decide +kernel

/-- A capability is read back from its name. -/
theorem capabilityParse_name {n : Nat} (h : n < capabilityNames.length) :
    ∃ name, capabilityName n = some name ∧ capabilityParse name = some n :=
  ⟨capabilityNames[n], List.getElem?_eq_getElem h, capabilityParse_getElem ⟨n, h⟩⟩

/-- The mask that the shim has built once it has seen the bits `ns` of `mask`. -/
def collectCapabilities (mask : UInt64) (ns : List Nat) (acc : UInt64) : UInt64 :=
  ns.foldl (fun acc n => if hasCapability mask n then addCapability acc n else acc) acc

theorem testBit_collectCapabilities {mask acc : UInt64} {ns : List Nat} (hns : ∀ n ∈ ns, n < 64)
    (i : Nat) :
    (collectCapabilities mask ns acc).toNat.testBit i =
      (acc.toNat.testBit i || (decide (i ∈ ns) && mask.toNat.testBit i)) := by
  induction ns generalizing acc with
  | nil => simp [collectCapabilities]
  | cons n ns ih =>
    have hstep : collectCapabilities mask (n :: ns) acc = collectCapabilities mask ns
        (if hasCapability mask n then addCapability acc n else acc) := rfl
    rw [hstep, ih fun m hm => hns m (List.mem_cons_of_mem _ hm)]
    by_cases hbit : hasCapability mask n = true
    · rw [if_pos hbit, testBit_addCapability (hns n List.mem_cons_self)]
      by_cases hi : n = i
      · subst hi
        rw [hasCapability] at hbit
        simp [hbit]
      · simp [hi, Ne.symm hi]
    · rw [if_neg hbit]
      by_cases hi : i = n
      · subst hi
        rw [hasCapability, Bool.not_eq_true] at hbit
        simp [hbit]
      · simp [hi]

/-- All 64 bits together are the mask. -/
theorem collectCapabilities_range (mask : UInt64) :
    collectCapabilities mask (List.range 64) 0 = mask := by
  apply UInt64.toNat_inj.mp
  apply Nat.eq_of_testBit_eq
  intro i
  rw [testBit_collectCapabilities fun n hn => List.mem_range.mp hn]
  by_cases hi : i < 64
  · simp [hi]
  · have hzero : mask.toNat.testBit i = false :=
      Nat.testBit_lt_two_pow (Nat.lt_of_lt_of_le mask.toNat_lt
        (Nat.pow_le_pow_right (by decide) (Nat.le_of_not_lt hi)))
    simp [hzero]

/-- The capability flags: the shim sets the bits that are set in the launched mask. -/
theorem parseShimArgs_capabilities {mask : UInt64} {ns : List Nat}
    (hmask : ∀ n, hasCapability mask n = true → n < capabilityNames.length) :
    parseShimArgs host s (untilNull (ns.flatMap (capabilityArguments mask) ++ rest)) =
      parseShimArgs host
        { s with capabilityMask := collectCapabilities mask ns s.capabilityMask }
        (untilNull rest) := by
  induction ns generalizing s with
  | nil => rfl
  | cons n ns ih =>
    rw [List.flatMap_cons, capabilityArguments]
    by_cases hbit : hasCapability mask n = true
    · have hn := hmask n hbit
      obtain ⟨name, hname, hparse⟩ := capabilityParse_name hn
      have hlen : capabilityNames.length = 41 := by decide
      have hflag : ShimFlag.ofText "--cap-add".toList = some .capAdd := by decide
      have happly : s.apply host .capAdd name =
          some { s with capabilityMask := addCapability s.capabilityMask n } := by
        simp only [ShimConfig.apply, hparse]
        rw [if_neg (by omega)]
      rw [if_pos hbit, hname, List.append_assoc, List.cons_append, List.cons_append,
        List.nil_append, untilNull_cons, untilNull_cons, parseShimArgs_flag _ hflag, happly,
        Option.bind_some, ih]
      simp [collectCapabilities, hbit]
    · rw [if_neg hbit, List.nil_append, ih]
      simp [collectCapabilities, hbit]

/-! ### Scalar values -/

theorem parseShimArgs_identity {config : RunConfig} (hu : config.user.toNat ≤ 65535)
    (hg : config.group.toNat ≤ 65535) :
    parseShimArgs host s (untilNull (identityArguments config ++ rest)) =
      parseShimArgs host
        { s with
          id := some config.id, rootfs := some config.rootfs, hostname := some config.hostname
          workdir := some config.workdir, user := config.user, group := config.group }
        (untilNull rest) := by
  simp only [identityArguments, List.cons_append, List.nil_append, untilNull_cons,
    parseShimArgs_flag .id (show ShimFlag.ofText "--id".toList = _ by decide),
    parseShimArgs_flag .rootfs (show ShimFlag.ofText "--rootfs".toList = _ by decide),
    parseShimArgs_flag .hostname (show ShimFlag.ofText "--hostname".toList = _ by decide),
    parseShimArgs_flag .workdir (show ShimFlag.ofText "--workdir".toList = _ by decide),
    parseShimArgs_flag .user (show ShimFlag.ofText "--user".toList = _ by decide),
    ShimConfig.apply, Option.bind_some, Option.map_some, parseUser_decimal hu hg]

private theorem apply_network (bridge : Bool) :
    s.apply host .network (if bridge then "bridge".toList else "none".toList) =
      some { s with networkBridge := bridge } := by
  cases bridge <;> rfl

theorem parseShimArgs_limits {config : RunConfig} (ha : config.Accepted host) :
    parseShimArgs host s (untilNull (limitArguments config ++ rest)) =
      parseShimArgs host
        { s with
          memoryMax := config.memoryMax, swapMax := config.swapMax, cpuQuota := config.cpuQuota
          pidsMax := config.pidsMax, networkBridge := config.networkBridge
          ipv4Host := config.ipv4Host }
        (untilNull rest) := by
  have hmemory : config.memoryMax ≤ 0xffffffffffffffff := by
    have := config.memoryMax.toNat_lt
    rw [UInt64.le_iff_toNat_le]
    exact Nat.le_of_lt_succ this
  have hswap := scanUnsigned_decimal 0xffffffffffffffff config.swapMax.toNat_lt
    (Nat.le_of_lt_succ config.swapMax.toNat_lt)
  have hip := scanUnsigned_decimal 0xffffffff
    (Nat.lt_of_lt_of_le config.ipv4Host.toNat_lt (by decide))
    (Nat.le_of_lt_succ config.ipv4Host.toNat_lt)
  simp only [limitArguments, List.cons_append, List.nil_append, untilNull_cons,
    parseShimArgs_flag .memory (show ShimFlag.ofText "--memory".toList = _ by decide),
    parseShimArgs_flag .memorySwap (show ShimFlag.ofText "--memory-swap".toList = _ by decide),
    parseShimArgs_flag .cpuQuota (show ShimFlag.ofText "--cpu-quota".toList = _ by decide),
    parseShimArgs_flag .pidsLimit (show ShimFlag.ofText "--pids-limit".toList = _ by decide),
    parseShimArgs_flag .network (show ShimFlag.ofText "--network".toList = _ by decide),
    parseShimArgs_flag .ipv4Host (show ShimFlag.ofText "--ipv4-host".toList = _ by decide),
    apply_network]
  simp only [ShimConfig.apply, Option.bind_some, Option.map_some,
    parsePositiveU64_decimal ha.memory hmemory, hswap,
    parsePositiveU64_decimal ha.cpu.1 ha.cpu.2, parsePositiveU64_decimal ha.pids.1 ha.pids.2, hip,
    UInt64.ofNat_toNat, UInt32.ofNat_toNat]

theorem parseShimArgs_readonlyRoot (readonly : Bool) :
    parseShimArgs host s
        (untilNull ((if readonly then [some "--read-only".toList] else []) ++ rest)) =
      parseShimArgs host { s with readonlyRoot := s.readonlyRoot || readonly }
        (untilNull rest) := by
  cases readonly with
  | false => simp
  | true =>
    rw [if_pos rfl, List.cons_append, List.nil_append, untilNull_cons, parseShimArgs_readonly,
      Bool.or_true]

/-- The descriptor that a shim finds among its arguments, with its value in front of them. -/
def receivedFd (unset : Int) (config : RunConfig) (fd : Nat) : Option Int :=
  if config.detach then scanReadyFd (snprintf 32 (decimal fd)) else some unset

theorem receivedFd_eq {unset : Int} {config : RunConfig} {fd : Nat} (hfd : fd ≤ 1048576) :
    receivedFd unset config fd = some (if config.detach then (fd : Int) else unset) := by
  unfold receivedFd
  split
  · exact scanReadyFd_decimal hfd
  · rfl

theorem receivedFd_nonneg {unset : Int} {config : RunConfig} {fd : Nat} {readyFd : Int}
    (h : receivedFd unset config fd = some readyFd) : ¬(config.detach = true ∧ readyFd < 0) := by
  rintro ⟨hd, hneg⟩
  rw [receivedFd, if_pos hd, scanReadyFd] at h
  split at h
  · exact nomatch h
  · split at h
    · exact nomatch h
    · rename_i hbounds
      cases h
      exact hbounds (.inr (.inr (.inl hneg)))

theorem parseShimArgs_detached {config : RunConfig} {fd : Nat} :
    parseShimArgs host s (untilNull (detachArguments config fd ++ rest)) =
      (receivedFd s.readyFd config fd).bind fun readyFd =>
        parseShimArgs host { s with detach := s.detach || config.detach, readyFd }
          (untilNull rest) := by
  cases hd : config.detach with
  | false => simp [detachArguments, receivedFd, hd]
  | true =>
    simp only [detachArguments, receivedFd, hd, if_true, List.cons_append, List.nil_append,
      untilNull_cons, parseShimArgs_detach,
      parseShimArgs_flag .readyFd (show ShimFlag.ofText "--ready-fd".toList = _ by decide),
      ShimConfig.apply, Bool.or_true]
    cases scanReadyFd (snprintf 32 (decimal fd)) with
    | none => rfl
    | some readyFd => rw [Option.map_some, Option.bind_some, Option.bind_some]

theorem untilNull_map_some (args : List Text) : untilNull (args.map some) = args := by
  induction args with
  | nil => rfl
  | cons arg args ih => rw [List.map_cons, untilNull_cons, ih]

theorem parseShimArgs_command (command : List Text) :
    parseShimArgs host s (untilNull (some "--".toList :: command.map some)) =
      some (s, command) := by
  rw [untilNull_cons, untilNull_map_some]
  cases command with
  | nil | cons value rest => rw [parseShimArgs, if_pos rfl]

end Loop

/-! ## The received configuration -/

private theorem ne_zero_of_pos {n : UInt64} (h : 0 < n.toNat) : n ≠ 0 := by
  rintro rfl
  exact absurd h (by decide)

/-- The shim receives an accepted configuration with its mounts as they were carried, or
    rejects it when one of them was not or the descriptor is too large. -/
theorem shimConfig_shimArguments_eq {host : Host} {config : RunConfig} {fd : Nat}
    (ha : config.Accepted host) :
    shimConfig host (shimArguments config fd) =
      (config.mounts.mapM (carried host)).bind fun mounts => (receivedFd (-1) config fd).map
        fun readyFd => { config with name := none, readyFd, mounts } := by
  have henv : ∀ e ∈ config.environment, (environmentFlag host).read e = some e :=
    fun e he => if_pos (ha.environment e he)
  have hpublish : ∀ p ∈ config.publishes, (publishFlag host).read p = some p :=
    fun p hp => scanShimPublish_decimal (ha.publishes p hp)
  have hdeny : ∀ name ∈ config.seccompDenies, (denyFlag host).read name = some name :=
    fun name hn => if_pos (ha.denies name hn)
  simp only [shimConfig, shimArguments, argumentVector, List.append_assoc, mountArguments_eq host]
  rw [parseShimArgs_identity ha.user ha.group,
    show (fun assignment => [some "--env".toList, some assignment]) =
      (environmentFlag host).arguments from rfl,
    (environmentFlag host).parse_of_forall henv, parseShimArgs_limits ha,
    show publishArguments = (publishFlag host).arguments from rfl,
    (publishFlag host).parse_of_forall hpublish, parseShimArgs_capabilities ha.capabilities,
    parseShimArgs_readonlyRoot, (mountFlag host).parse,
    show (mountFlag host).read = carried host from rfl]
  cases config.mounts.mapM (carried host) with
  | none => rfl
  | some mounts =>
    rw [Option.bind_some,
      show (fun name => [some "--seccomp-deny".toList, some name]) =
        (denyFlag host).arguments from rfl,
      (denyFlag host).parse_of_forall hdeny, parseShimArgs_detached]
    simp only [environmentFlag, publishFlag, mountFlag, denyFlag, List.nil_append, Bool.false_or,
      collectCapabilities_range]
    cases hready : receivedFd (-1) config fd with
    | none => rfl
    | some readyFd =>
      rw [Option.bind_some, parseShimArgs_command]
      have hcheck : ¬(config.workdir.head? ≠ some '/' ∨ config.command = [] ∨
          (config.detach = true ∧ readyFd < 0) ∨
          config.memoryMax = 0 ∨ config.cpuQuota = 0 ∨ config.pidsMax = 0) := by
        rintro (h | h | h | h | h | h)
        · exact h ha.workdir
        · exact ha.command h
        · exact receivedFd_nonneg hready h
        · exact ne_zero_of_pos ha.memory h
        · exact ne_zero_of_pos ha.cpu.1 h
        · exact ne_zero_of_pos ha.pids.1 h
      simp only [ShimConfig.complete, Option.map_some]
      rw [if_neg hcheck, Option.bind_some]

/-- The descriptors of a process are not as large as that. -/
theorem shimConfig_shimArguments {host : Host} {config : RunConfig} {fd : Nat}
    (ha : config.Accepted host) (hfd : fd ≤ 1048576) :
    shimConfig host (shimArguments config fd) =
      (config.mounts.mapM (carried host)).map fun mounts =>
        { config with
          name := none
          readyFd := if config.detach then fd else -1
          mounts } := by
  rw [shimConfig_shimArguments_eq ha, receivedFd_eq hfd]
  cases config.mounts.mapM (carried host) <;> rfl

/-- What a container is, apart from its name and the way it was launched. -/
def RunConfig.runtime (config : RunConfig) : RunConfig :=
  { config with name := none, detach := false, readyFd := -1 }

/-- The configurations that reach `mc_launch_shim`: `run` hands over the one it built,
    `start` the one it finds in `config.json`. -/
inductive RunConfig.LaunchedAs (config : RunConfig) (image : Text) : RunConfig → Prop where
  | run : RunConfig.LaunchedAs config image config
  | start {stamp : Stamp} {loaded : RunConfig} {text : Text}
      (h : loadDocument (configJson stamp config image) = some (loaded, text)) :
      RunConfig.LaunchedAs config image { loaded with detach := true }

/-- Launching changes nothing that the container is made of. -/
theorem RunConfig.LaunchedAs.spec {host : Host} {config c : RunConfig} {image : Text}
    (ha : config.Accepted host) (hi : image.length < pathMax) (h : config.LaunchedAs image c) :
    c.Accepted host ∧ c.runtime = config.runtime := by
  cases h with
  | run => exact ⟨ha, rfl⟩
  | start hload =>
    rw [loadDocument_configJson _ _ _ (fun m hm => (ha.mounts m hm).storable)
      ha.command hi] at hload
    obtain ⟨rfl, -⟩ := Prod.mk.inj (Option.some.inj hload)
    exact ⟨{ ha with }, rfl⟩

/-- The shim receives the configuration that was launched, for every request that the
    command line accepts, exactly when each mount is carried over. -/
theorem shimConfig_launched_iff {host : Host} {args : List Text} {r : RunRequest}
    (hr : runRequest host args = .ok r) {id : Text} {ipv4Host : UInt32} {c : RunConfig} {fd : Nat}
    (hc : RunConfig.LaunchedAs { r.config id with ipv4Host } r.image c) (hfd : fd ≤ 1048576) :
    (∃ received, shimConfig host (shimArguments c fd) = some received ∧
      received.runtime = { r.config id with ipv4Host }.runtime) ↔
    ∀ m ∈ r.options.mounts, m.CarriedOver := by
  have himage : r.image.length < pathMax :=
    Nat.lt_of_le_of_lt (validName_length (runRequest_ok hr).2.1) (by decide)
  obtain ⟨ha, hsame⟩ := hc.spec (RunRequest.config_accepted hr id ipv4Host) himage
  have hmounts : c.mounts = r.options.mounts := congrArg RunConfig.mounts hsame
  have hall : (∀ m ∈ r.options.mounts, m.CarriedOver) ↔
      c.mounts.mapM (carried host) = some c.mounts := by
    rw [List.mapM_eq_some_self_iff, hmounts]
    exact forall₂_congr fun m hm => (carried_eq_self_iff (ha.mounts m (hmounts ▸ hm))).symm
  rw [hall, shimConfig_shimArguments ha hfd, ← hsame]
  constructor
  · rintro ⟨received, hrec, hrt⟩
    obtain ⟨mounts, hm, rfl⟩ := Option.map_eq_some_iff.mp hrec
    have : mounts = c.mounts := congrArg RunConfig.mounts hrt
    rw [hm, this]
  · intro hm
    rw [hm]
    exact ⟨_, rfl, rfl⟩

/-- A host with two directories that may be bound: `/d`, and `/a:b` with a link `/l` to it. -/
def linkedHost : Host where
  realpath p :=
    if p = "/l".toList ∨ p = "/a:b".toList then some "/a:b".toList
    else if p = "/d".toList then some "/d".toList
    else none
  isDirectory _ := true
  configFile := some (.obj [("allowed_bind_sources",
    .arr [.str "/a:b".toList, .str "/d".toList])])
  statProfile _ := none
  readProfile _ := none
  syscallKnown _ := false
  imageStore _ := .ok "/images/sha256/0/rootfs".toList
  realpath_idem p r h := by
    split at h
    · cases h; decide
    · split at h
      · cases h; decide
      · exact nomatch h
  realpath_absolute p r h := by
    split at h
    · cases h; decide
    · split at h
      · cases h; decide
      · exact nomatch h
  realpath_length p r h := by
    split at h
    · cases h; decide
    · split at h
      · cases h; decide
      · exact nomatch h

/-- The request for a shell with one bind mount. -/
def boundRequest (source : Text) (readonly : Bool) : RunRequest where
  options := {
    image := some "alpine".toList
    mounts := [⟨.bind, some source, "/data".toList, 0, readonly⟩] }
  image := "alpine".toList
  rootfs := "/images/sha256/0/rootfs".toList
  command := ["sh".toList]

/-- A read-only bind mount of a directory without a colon arrives. -/
theorem shimConfig_launched_directory :
    runRequest linkedHost (["--image", "alpine", "--bind", "/d:/data:ro", "--", "sh"].map
      String.toList) = .ok (boundRequest "/d".toList true) ∧
    ∃ received,
      shimConfig linkedHost (shimArguments
        { (boundRequest "/d".toList true).config "0".toList with ipv4Host := 2 } 5) =
        some received ∧
      received.runtime =
        { (boundRequest "/d".toList true).config "0".toList with ipv4Host := 2 }.runtime := by
  have hr : runRequest linkedHost (["--image", "alpine", "--bind", "/d:/data:ro", "--", "sh"].map
      String.toList) = .ok (boundRequest "/d".toList true) := rfl
  refine ⟨hr, (shimConfig_launched_iff hr .run (by decide)).mpr ?_⟩
  intro m hm
  obtain rfl := List.mem_singleton.mp hm
  rintro - _ ⟨⟩
  decide

/-- `run` accepts a bind mount through the link, and the shim rejects what it is launched
    with: the resolved source holds a colon. -/
theorem shimConfig_rejects_link :
    runRequest linkedHost (["--image", "alpine", "--bind", "/l:/data", "--", "sh"].map
      String.toList) = .ok (boundRequest "/a:b".toList false) ∧
    shimConfig linkedHost
      (shimArguments ((boundRequest "/a:b".toList false).config "0".toList) 5) = none :=
  ⟨rfl, by decide +kernel⟩

end MiniContainer
