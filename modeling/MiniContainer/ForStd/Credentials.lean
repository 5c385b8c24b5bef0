import Mathlib.Data.Nat.Bitwise

/-!
# Credentials of a process

The user and group IDs of a Linux process, its capability sets and the flags that go with them,
and what the system calls make of them: those for IDs and capabilities, the options of `prctl`,
and `execve`. IDs are those of the user namespace of the process.

- `Cred.capset_ok` and the like: what a call that succeeds has done.
- `Cred.call_keeps`: a process that has given up new privileges gets no capability, and without
  `CAP_SETUID` and `CAP_SETGID` it keeps its IDs.
-/

namespace Linux

/-! ## Sets of capabilities -/

/-- A set of capabilities; capability `n` is bit `n`. -/
abbrev CapSet := UInt64

namespace CapSet

variable {s s' : CapSet} {n : Nat}

/-- The bit of a capability. -/
def has (s : CapSet) (n : Nat) : Bool := s.toNat.testBit n

/-- A set that is handed over in two words. -/
def ofWords (low high : UInt32) : CapSet := low.toUInt64 ||| high.toUInt64 <<< 32

/-- One capability. -/
def single (n : Nat) : CapSet := UInt64.ofNat (2 ^ n)

/-- Capabilities up to `last`. -/
def upTo (last : Nat) : CapSet := UInt64.ofNat (2 ^ (last + 1) - 1)

/-- `cap_issubset`. -/
def subset (s s' : CapSet) : Bool := s &&& ~~~s' == 0

theorem has_lt (h : s.has n = true) : n < 64 := by
  by_contra hge
  have hlt : s.toNat < 2 ^ n :=
    lt_of_lt_of_le s.toNat_lt (Nat.pow_le_pow_right (by decide) (Nat.le_of_not_lt hge))
  simp [has, Nat.testBit_lt_two_pow hlt] at h

@[simp]
theorem has_zero (n : Nat) : has 0 n = false := Nat.zero_testBit n

@[simp]
theorem has_and (s s' : CapSet) (n : Nat) : has (s &&& s') n = (has s n && has s' n) := by
  simp [has]

@[simp]
theorem has_or (s s' : CapSet) (n : Nat) : has (s ||| s') n = (has s n || has s' n) := by
  simp [has]

theorem has_compl (s : CapSet) (hn : n < 64) : has (~~~s) n = !has s n := by
  have h : (~~~s.toBitVec).getLsbD n = !s.toBitVec.getLsbD n := by
    rw [BitVec.getLsbD_not]
    simp [hn]
  exact h

theorem has_single (hn : n < 64) (m : Nat) : has (single n) m = (n == m) := by
  have hlt : 2 ^ n < 2 ^ 64 := Nat.pow_lt_pow_right (by decide) hn
  rw [has, single, UInt64.toNat_ofNat_of_lt' hlt, Nat.testBit_two_pow]
  rfl

theorem has_upTo {last : Nat} (hlast : last < 64) : has (upTo last) n = decide (n ≤ last) := by
  have hlt : 2 ^ (last + 1) - 1 < 2 ^ 64 :=
    lt_of_lt_of_le (Nat.sub_lt (Nat.two_pow_pos _) Nat.one_pos)
      (Nat.pow_le_pow_right (by decide) hlast)
  rw [has, upTo, UInt64.toNat_ofNat_of_lt' hlt, Nat.testBit_two_pow_sub_one]
  exact decide_eq_decide.mpr Nat.lt_succ_iff

/-- The halves of a set, as a program splits it. -/
theorem ofWords_halves (s : CapSet) : ofWords s.toUInt32 (s >>> 32).toUInt32 = s := by
  have hshift : (32 : UInt64).toBitVec % 64 = 32#64 := by decide
  refine UInt64.toBitVec_inj.mp (BitVec.eq_of_getLsbD_eq fun n hn => ?_)
  simp only [ofWords, UInt64.toBitVec_or, UInt64.toBitVec_shiftLeft, UInt32.toBitVec_toUInt64,
    UInt64.toBitVec_toUInt32, UInt64.toBitVec_shiftRight, hshift, BitVec.shiftLeft_eq',
    BitVec.ushiftRight_eq']
  rw [show (32#64).toNat = 32 from rfl]
  simp only [BitVec.getLsbD_or, BitVec.getLsbD_setWidth, BitVec.getLsbD_shiftLeft,
    BitVec.getLsbD_ushiftRight, hn, decide_true, Bool.true_and]
  by_cases h : n < 32
  · simp [h]
  · rw [show 32 + (n - 32) = n by omega]
    simp [h, show n - 32 < 64 by omega, show n - 32 < 32 by omega]

theorem ext (h : ∀ n, s.has n = s'.has n) : s = s' :=
  UInt64.toNat_inj.mp (Nat.eq_of_testBit_eq h)

/-- Inclusion. -/
instance instHasSubsetCapSet : HasSubset CapSet :=
  ⟨fun s s' => ∀ n, s.has n = true → s'.has n = true⟩

theorem subset_iff : s.subset s' = true ↔ s ⊆ s' := by
  rw [subset, beq_iff_eq]
  constructor
  · intro h n hn
    have hnot := congrArg (has · n) h
    simp only [has_and, has_compl s' (has_lt hn), hn, Bool.true_and, has_zero] at hnot
    simpa using hnot
  · intro h
    refine ext fun n => ?_
    rw [has_and, has_zero]
    cases hn : s.has n with
    | false => rfl
    | true => rw [has_compl s' (has_lt hn), h n hn]; rfl

@[simp]
theorem subset_refl (s : CapSet) : s ⊆ s := fun _ => id

@[simp]
theorem zero_subset (s : CapSet) : (0 : CapSet) ⊆ s := fun n hn => by simp at hn

theorem and_subset_left (s s' : CapSet) : s &&& s' ⊆ s :=
  fun n hn => (Bool.and_eq_true_iff.mp ((has_and s s' n).symm.trans hn)).1

theorem and_subset_right (s s' : CapSet) : s &&& s' ⊆ s' :=
  fun n hn => (Bool.and_eq_true_iff.mp ((has_and s s' n).symm.trans hn)).2

theorem subset_or_right (s s' : CapSet) : s' ⊆ s ||| s' :=
  fun n hn => (has_or s s' n).trans (by rw [hn, Bool.or_true])

theorem or_subset {u : CapSet} (hs : s ⊆ u) (hs' : s' ⊆ u) : s ||| s' ⊆ u :=
  fun n hn => (Bool.or_eq_true_iff.mp ((has_or s s' n).symm.trans hn)).elim (hs n) (hs' n)

theorem and_upTo {last : Nat} (hlast : last < 64) (h : ∀ n, s.has n = true → n ≤ last) :
    s &&& upTo last = s := by
  refine ext fun n => ?_
  rw [has_and, has_upTo hlast]
  cases hn : s.has n with
  | false => rfl
  | true => simpa using h n hn

theorem single_subset (h : s.has n = true) : single n ⊆ s := by
  intro m hm
  rw [has_single (has_lt h)] at hm
  exact beq_iff_eq.mp hm ▸ h

end CapSet

/-! ## Processes -/

/-- Why a call fails. -/
inductive Error where
  | eperm
  | einval
  | enoent
  | other
  deriving DecidableEq, Repr

def capSetgid : Nat := 6
def capSetuid : Nat := 7
def capSetpcap : Nat := 8

/-- The bits of `PR_SET_SECUREBITS`. The lock of a bit is the next one. -/
def secureNoroot : Nat := 0
def secureNoSetuidFixup : Nat := 2
def secureKeepCaps : Nat := 4
def secureNoCapAmbientRaise : Nat := 6

/-- The credentials of a process. -/
structure Cred where
  uid : UInt32
  euid : UInt32
  suid : UInt32
  gid : UInt32
  egid : UInt32
  sgid : UInt32
  groups : List UInt32
  permitted : CapSet
  effective : CapSet
  inheritable : CapSet
  ambient : CapSet
  bounding : CapSet
  securebits : UInt8
  noNewPrivs : Bool
  deriving DecidableEq, Repr

/-- What a user namespace allows, and the last capability that the kernel knows. -/
structure Namespace where
  uidMapped : UInt32 → Bool
  gidMapped : UInt32 → Bool
  maySetgroups : Bool
  lastCap : Nat
  lastCap_lt : lastCap < 64

/-- The capabilities that a file carries. -/
structure FileCaps where
  permitted : CapSet
  inheritable : CapSet
  effective : Bool
  deriving DecidableEq, Repr

/-- A program: the owners that its set-user-ID and set-group-ID bits are for, and its
    capabilities, as far as its mount lets them count. -/
structure File where
  setuid : Option UInt32 := none
  setgid : Option UInt32 := none
  caps : Option FileCaps := none
  deriving DecidableEq, Repr

namespace Cred

variable (ns : Namespace) (c : Cred)

/-- The process has the capability in its user namespace. -/
def capable (n : Nat) : Bool := c.effective.has n

def secure (bit : Nat) : Bool := c.securebits.toNat.testBit bit

/-- `cap_emulate_setxuid`: what becomes of the sets of `c` where it gets the user IDs of
    `new`. -/
def emulateSetxuid (new : Cred) : Cred :=
  let new :=
    if (c.uid = 0 ∨ c.euid = 0 ∨ c.suid = 0) ∧ new.uid ≠ 0 ∧ new.euid ≠ 0 ∧ new.suid ≠ 0 then
      if c.secure secureKeepCaps then { new with ambient := 0 }
      else { new with permitted := 0, effective := 0, ambient := 0 }
    else new
  if c.euid = 0 ∧ new.euid ≠ 0 then { new with effective := 0 }
  else if c.euid ≠ 0 ∧ new.euid = 0 then { new with effective := new.permitted }
  else new

/-- `setresuid`. The other calls for user IDs do what it does for some arguments. -/
def setresuid (uid euid suid : UInt32) : Except Error Cred :=
  if !ns.uidMapped uid || !ns.uidMapped euid || !ns.uidMapped suid then .error .einval
  else if !c.capable capSetuid &&
      [uid, euid, suid].any fun id => id != c.uid && id != c.euid && id != c.suid then
    .error .eperm
  else
    let new := { c with uid, euid, suid }
    .ok (if c.secure secureNoSetuidFixup then new else c.emulateSetxuid new)

/-- `setresgid`. -/
def setresgid (gid egid sgid : UInt32) : Except Error Cred :=
  if !ns.gidMapped gid || !ns.gidMapped egid || !ns.gidMapped sgid then .error .einval
  else if !c.capable capSetgid &&
      [gid, egid, sgid].any fun id => id != c.gid && id != c.egid && id != c.sgid then
    .error .eperm
  else .ok { c with gid, egid, sgid }

/-- `setgroups`. -/
def setgroups (groups : List UInt32) : Except Error Cred :=
  if c.capable capSetgid && ns.maySetgroups then .ok { c with groups } else .error .eperm

/-- `capset`, for the process itself. Bits of no capability are ignored. -/
def capset (effective permitted inheritable : CapSet) : Except Error Cred :=
  let valid := CapSet.upTo ns.lastCap
  let (effective, permitted, inheritable) :=
    (effective &&& valid, permitted &&& valid, inheritable &&& valid)
  if !c.capable capSetpcap && !inheritable.subset (c.inheritable ||| c.permitted) then
    .error .eperm
  else if !inheritable.subset (c.inheritable ||| c.bounding) then .error .eperm
  else if !permitted.subset c.permitted then .error .eperm
  else if !effective.subset permitted then .error .eperm
  else .ok { c with
    effective, permitted, inheritable, ambient := c.ambient &&& (permitted &&& inheritable) }

/-- `PR_CAPBSET_DROP`. -/
def capbsetDrop (n : Nat) : Except Error Cred :=
  if !c.capable capSetpcap then .error .eperm
  else if ns.lastCap < n then .error .einval
  else .ok { c with bounding := c.bounding &&& ~~~CapSet.single n }

/-- `PR_SET_KEEPCAPS`. -/
def setKeepcaps (keep : Bool) : Except Error Cred :=
  if c.secure (secureKeepCaps + 1) then .error .eperm
  else
    let bit : UInt8 := 0x10
    .ok { c with securebits := if keep then c.securebits ||| bit else c.securebits &&& ~~~bit }

/-- `PR_SET_SECUREBITS`. A lock is not taken back, nor is a bit that is locked changed. -/
def setSecurebits (bits : UInt8) : Except Error Cred :=
  let locks := c.securebits &&& 0xaa
  if locks >>> 1 &&& (c.securebits ^^^ bits) != 0 || locks &&& ~~~bits != 0 ||
      !c.capable capSetpcap then .error .eperm
  else .ok { c with securebits := bits }

/-- `PR_CAP_AMBIENT_RAISE`. -/
def ambientRaise (n : Nat) : Except Error Cred :=
  if ns.lastCap < n then .error .einval
  else if !c.permitted.has n || !c.inheritable.has n || c.secure secureNoCapAmbientRaise then
    .error .eperm
  else .ok { c with ambient := c.ambient ||| CapSet.single n }

/-- The permitted set that the capabilities of a file give, and whether they become effective. A
    program that has to get all of them is not run without. -/
def fileCaps : Option FileCaps → Except Error (CapSet × Bool)
  | none => .ok (0, false)
  | some caps =>
    let permitted := c.bounding &&& caps.permitted ||| c.inheritable &&& caps.inheritable
    if caps.effective && !caps.permitted.subset permitted then .error .eperm
    else .ok (permitted, caps.effective)

/-- The IDs that the bits of a file give. -/
def fileIds (file : File) : Cred :=
  if c.noNewPrivs then c
  else { c with
    euid := (file.setuid.filter ns.uidMapped).getD c.euid
    egid := (file.setgid.filter ns.gidMapped).getD c.egid }

/-- What root gets as such. -/
def rootCaps (new : Cred) (file : File) (caps : CapSet × Bool) : CapSet × Bool :=
  if c.secure secureNoroot ∨ (file.caps.isSome ∧ new.uid ≠ 0 ∧ new.euid = 0) then caps
  else
    (if new.euid = 0 ∨ new.uid = 0 then c.bounding ||| c.inheritable else caps.1,
      caps.2 || new.euid == 0)

/-- `execve` of a program that can be executed, by a process that nobody traces. -/
def exec (file : File) : Except Error Cred := do
  let new := c.fileIds ns file
  let (permitted, effective) := c.rootCaps new file (← c.fileCaps file.caps)
  let setid := new.euid != c.uid || new.egid != c.gid
  let downgrade := c.noNewPrivs && (setid || !permitted.subset c.permitted)
  let euid := if downgrade then new.uid else new.euid
  let egid := if downgrade then new.gid else new.egid
  let ambient := if file.caps.isSome || setid then 0 else c.ambient
  let permitted := (if downgrade then permitted &&& c.permitted else permitted) ||| ambient
  return { c with
    euid, suid := euid, egid, sgid := egid, ambient, permitted
    effective := if effective then permitted else ambient
    securebits := c.securebits &&& ~~~0x10 }

/-- What a process has in a user namespace that it makes or joins. Its IDs are none of the
    namespace's, and show as the overflow ID. -/
def enterNamespace : Cred :=
  let full := CapSet.upTo ns.lastCap
  { c with
    uid := 65534, euid := 65534, suid := 65534, gid := 65534, egid := 65534, sgid := 65534
    groups := c.groups.map fun _ => 65534
    permitted := full, effective := full, bounding := full, inheritable := 0, ambient := 0
    securebits := 0 }

end Cred

/-- The calls that change the credentials of the process that makes them. -/
inductive Call where
  | setresuid (uid euid suid : UInt32)
  | setresgid (gid egid sgid : UInt32)
  | setgroups (groups : List UInt32)
  | capset (effective permitted inheritable : CapSet)
  | capbsetDrop (n : Nat)
  | setKeepcaps (keep : Bool)
  | setSecurebits (bits : UInt8)
  | ambientRaise (n : Nat)
  | ambientLower (n : Nat)
  | ambientClear
  | setNoNewPrivs
  | exec (file : File)
  deriving DecidableEq, Repr

namespace Cred

/-- What a call makes of the credentials. -/
def call (ns : Namespace) (c : Cred) : Call → Except Error Cred
  | .setresuid uid euid suid => c.setresuid ns uid euid suid
  | .setresgid gid egid sgid => c.setresgid ns gid egid sgid
  | .setgroups groups => c.setgroups ns groups
  | .capset effective permitted inheritable => c.capset ns effective permitted inheritable
  | .capbsetDrop n => c.capbsetDrop ns n
  | .setKeepcaps keep => c.setKeepcaps keep
  | .setSecurebits bits => c.setSecurebits bits
  | .ambientRaise n => c.ambientRaise ns n
  | .ambientLower n => .ok { c with ambient := c.ambient &&& ~~~CapSet.single n }
  | .ambientClear => .ok { c with ambient := 0 }
  | .setNoNewPrivs => .ok { c with noNewPrivs := true }
  | .exec file => c.exec ns file

/-- What the kernel guarantees about the sets. -/
structure Valid (c : Cred) : Prop where
  effective : c.effective ⊆ c.permitted
  ambient : c.ambient ⊆ c.permitted

/-! ## Calls that succeed -/

section

variable {ns : Namespace} {c c' : Cred}

theorem setgroups_ok {groups : List UInt32} (h : c.setgroups ns groups = .ok c') :
    c' = { c with groups } ∧ c.capable capSetgid = true := by
  unfold setgroups at h
  split_ifs at h with hcap
  exact ⟨(Except.ok.inj h).symm, (Bool.and_eq_true_iff.mp hcap).1⟩

theorem setresgid_ok {gid egid sgid : UInt32} (h : c.setresgid ns gid egid sgid = .ok c') :
    c' = { c with gid, egid, sgid } ∧ (c.capable capSetgid = false → c.egid = c.gid →
      c.sgid = c.gid → gid = c.gid ∧ egid = c.gid ∧ sgid = c.gid) := by
  unfold setresgid at h
  split_ifs at h with hmapped hids
  refine ⟨(Except.ok.inj h).symm, fun hcap he hs => ?_⟩
  simpa [hcap, he, hs] using hids

/-- The end of root's IDs takes capabilities away, and their return makes permitted ones
    effective. -/
theorem emulateSetxuid_eq (c new : Cred) :
    ∃ permitted effective ambient,
      c.emulateSetxuid new = { new with permitted, effective, ambient } ∧
      permitted ⊆ new.permitted ∧ (new.Valid → effective ⊆ permitted ∧ ambient ⊆ permitted) := by
  unfold emulateSetxuid
  dsimp only
  split_ifs
  all_goals exact ⟨_, _, _, rfl, by simp, fun hv => by simp [hv.effective, hv.ambient]⟩

theorem setresuid_ok {uid euid suid : UInt32} (h : c.setresuid ns uid euid suid = .ok c') :
    (∃ permitted effective ambient, c' = { c with uid, euid, suid, permitted, effective, ambient } ∧
      permitted ⊆ c.permitted ∧ (c.Valid → effective ⊆ permitted ∧ ambient ⊆ permitted)) ∧
    (c.capable capSetuid = false → c.euid = c.uid → c.suid = c.uid →
      uid = c.uid ∧ euid = c.uid ∧ suid = c.uid) := by
  unfold setresuid at h
  split at h
  · cases h
  · split at h
    · cases h
    · rename_i hids
      refine ⟨?_, fun hcap he hs => by simpa [hcap, he, hs] using hids⟩
      obtain rfl := Except.ok.inj h
      split
      · exact ⟨_, _, _, rfl, CapSet.subset_refl _, fun hv => ⟨hv.effective, hv.ambient⟩⟩
      · obtain ⟨permitted, effective, ambient, heq, hpermitted, hvalid⟩ :=
          c.emulateSetxuid_eq { c with uid, euid, suid }
        exact ⟨permitted, effective, ambient, heq, hpermitted,
          fun hv => hvalid ⟨hv.effective, hv.ambient⟩⟩

theorem capset_ok {effective permitted inheritable : CapSet}
    (h : c.capset ns effective permitted inheritable = .ok c') :
    let valid := CapSet.upTo ns.lastCap
    c' = { c with
      effective := effective &&& valid, permitted := permitted &&& valid
      inheritable := inheritable &&& valid
      ambient := c.ambient &&& (permitted &&& valid &&& (inheritable &&& valid)) } ∧
    permitted &&& valid ⊆ c.permitted ∧ effective &&& valid ⊆ permitted &&& valid := by
  unfold capset at h
  dsimp only at h
  split_ifs at h with h₁ h₂ hpermitted heffective
  simp only [Bool.not_eq_true, Bool.not_eq_false', CapSet.subset_iff] at hpermitted heffective
  exact ⟨(Except.ok.inj h).symm, hpermitted, heffective⟩

theorem capbsetDrop_ok {n : Nat} (h : c.capbsetDrop ns n = .ok c') :
    c' = { c with bounding := c.bounding &&& ~~~CapSet.single n } ∧ n ≤ ns.lastCap := by
  unfold capbsetDrop at h
  split_ifs at h with hcap hlast
  exact ⟨(Except.ok.inj h).symm, Nat.le_of_not_lt hlast⟩

theorem setKeepcaps_ok {keep : Bool} (h : c.setKeepcaps keep = .ok c') :
    ∃ securebits, c' = { c with securebits } := by
  unfold setKeepcaps at h
  split_ifs at h <;> exact ⟨_, (Except.ok.inj h).symm⟩

theorem setSecurebits_ok {bits : UInt8} (h : c.setSecurebits bits = .ok c') :
    c' = { c with securebits := bits } := by
  unfold setSecurebits at h
  dsimp only at h
  split_ifs at h
  exact (Except.ok.inj h).symm

theorem ambientRaise_ok {n : Nat} (h : c.ambientRaise ns n = .ok c') :
    c' = { c with ambient := c.ambient ||| CapSet.single n } ∧ n ≤ ns.lastCap ∧
      c.permitted.has n = true := by
  unfold ambientRaise at h
  split_ifs at h with hlast hraise
  simp only [Bool.or_eq_true, not_or, Bool.not_eq_true, Bool.not_eq_false'] at hraise
  exact ⟨(Except.ok.inj h).symm, Nat.le_of_not_lt hlast, hraise.1.1⟩

/-- A program gets no more than a process that has given up new privileges had, whatever its file
    gives. -/
theorem exec_ok (hn : c.noNewPrivs = true) {file : File} (h : c.exec ns file = .ok c') :
    ∃ (downgrade : Bool) (permitted effective ambient : CapSet) (securebits : UInt8),
      c' = { c with
        euid := if downgrade then c.uid else c.euid, suid := if downgrade then c.uid else c.euid
        egid := if downgrade then c.gid else c.egid, sgid := if downgrade then c.gid else c.egid
        permitted, effective, ambient, securebits } ∧
      (c.Valid → permitted ⊆ c.permitted ∧ effective ⊆ permitted ∧ ambient ⊆ permitted) := by
  simp only [exec, show c.fileIds ns file = c from if_pos hn, hn, Bool.true_and] at h
  cases hcaps : c.fileCaps file.caps with
  | error e =>
    rw [hcaps] at h
    cases h
  | ok caps =>
    rw [hcaps] at h
    cases h
    generalize c.rootCaps c file caps = root
    refine ⟨_, _, _, _, _, by rw [hn], fun hv => ?_⟩
    have hambient : (if (file.caps.isSome || (c.euid != c.uid || c.egid != c.gid)) = true then 0
        else c.ambient) ⊆ c.permitted := by
      split
      · exact CapSet.zero_subset _
      · exact hv.ambient
    have hpermitted : (if ((c.euid != c.uid || c.egid != c.gid) ||
        !root.1.subset c.permitted) = true then root.1 &&& c.permitted else root.1) ⊆
          c.permitted := by
      split
      · exact CapSet.and_subset_right _ _
      · rename_i hnot
        simp only [Bool.or_eq_true, not_or, Bool.not_eq_true, Bool.not_eq_false'] at hnot
        exact CapSet.subset_iff.mp hnot.2
    refine ⟨CapSet.or_subset hpermitted hambient, ?_, CapSet.subset_or_right _ _⟩
    split
    · exact CapSet.subset_refl _
    · exact CapSet.subset_or_right _ _

end

/-! ## No new privileges -/

/-- A process that has given up new privileges gets none: no capability, and no other IDs but by
    the capabilities that it has. -/
structure Keeps (c c' : Cred) : Prop where
  valid : c'.Valid
  noNewPrivs : c'.noNewPrivs = true
  permitted : c'.permitted ⊆ c.permitted
  bounding : c'.bounding ⊆ c.bounding
  uids : c.capable capSetuid = false → c.euid = c.uid → c.suid = c.uid →
    c'.uid = c.uid ∧ c'.euid = c.uid ∧ c'.suid = c.uid
  gids : c.capable capSetgid = false → c.egid = c.gid → c.sgid = c.gid →
    c'.gid = c.gid ∧ c'.egid = c.gid ∧ c'.sgid = c.gid ∧ c'.groups = c.groups

section

variable {ns : Namespace} {c c' : Cred}

/-- A call that changes no ID. -/
theorem Keeps.of_sets (hn : c.noNewPrivs = true)
    {permitted effective inheritable ambient bounding : CapSet} {securebits : UInt8}
    (hpermitted : permitted ⊆ c.permitted) (hbounding : bounding ⊆ c.bounding)
    (heffective : effective ⊆ permitted) (hambient : ambient ⊆ permitted) :
    c.Keeps { c with permitted, effective, inheritable, ambient, bounding, securebits } :=
  ⟨⟨heffective, hambient⟩, hn, hpermitted, hbounding, fun _ he hs => ⟨rfl, he, hs⟩,
    fun _ he hs => ⟨rfl, he, hs, rfl⟩⟩

/-- A program without capabilities gets the ambient ones, where root is nobody special. -/
theorem exec_plain (hn : c.noNewPrivs = true) (hroot : c.secure secureNoroot = true)
    (heuid : c.euid = c.uid) (hegid : c.egid = c.gid) {file : File} (hfile : file.caps = none) :
    c.exec ns file = .ok { c with
      suid := c.uid, sgid := c.gid, permitted := c.ambient, effective := c.ambient
      securebits := c.securebits &&& ~~~0x10 } := by
  have hids : c.fileIds ns file = c := if_pos hn
  have hcaps : c.rootCaps c file (0, false) = (0, false) := if_pos (.inl hroot)
  simp [exec, fileCaps, hfile, hids, hcaps, hn, heuid, hegid, CapSet.subset, bind,
    Except.bind, pure, Except.pure]

/-- With `no_new_privs` no call gains capabilities, nor IDs without the capability for them. -/
theorem call_keeps (hv : c.Valid) (hn : c.noNewPrivs = true) {call : Call}
    (h : c.call ns call = .ok c') : c.Keeps c' := by
  have hsame := CapSet.subset_refl
  cases call with
  | setresuid uid euid suid =>
    obtain ⟨⟨permitted, effective, ambient, rfl, hpermitted, hvalid⟩, huids⟩ := setresuid_ok h
    obtain ⟨heffective, hambient⟩ := hvalid hv
    exact ⟨⟨heffective, hambient⟩, hn, hpermitted, hsame _, huids, fun _ he hs =>
      ⟨rfl, he, hs, rfl⟩⟩
  | setresgid gid egid sgid =>
    obtain ⟨rfl, hgids⟩ := setresgid_ok h
    refine ⟨⟨hv.effective, hv.ambient⟩, hn, hsame _, hsame _, fun _ he hs => ⟨rfl, he, hs⟩, ?_⟩
    exact fun hcap he hs =>
      ⟨(hgids hcap he hs).1, (hgids hcap he hs).2.1, (hgids hcap he hs).2.2, rfl⟩
  | setgroups groups =>
    obtain ⟨rfl, hcap⟩ := setgroups_ok h
    refine ⟨⟨hv.effective, hv.ambient⟩, hn, hsame _, hsame _, fun _ he hs => ⟨rfl, he, hs⟩,
      fun hno => ?_⟩
    simp [hcap] at hno
  | capset effective permitted inheritable =>
    obtain ⟨rfl, hpermitted, heffective⟩ := capset_ok h
    exact .of_sets hn hpermitted (hsame _) heffective fun n hambient =>
      CapSet.and_subset_left _ _ n (CapSet.and_subset_right _ _ n hambient)
  | capbsetDrop n =>
    obtain ⟨rfl, -⟩ := capbsetDrop_ok h
    exact .of_sets hn (hsame _) (CapSet.and_subset_left _ _) hv.effective hv.ambient
  | setKeepcaps keep =>
    obtain ⟨securebits, rfl⟩ := setKeepcaps_ok h
    exact .of_sets hn (hsame _) (hsame _) hv.effective hv.ambient
  | setSecurebits bits =>
    obtain rfl := setSecurebits_ok h
    exact .of_sets hn (hsame _) (hsame _) hv.effective hv.ambient
  | ambientRaise n =>
    obtain ⟨rfl, -, hpermitted⟩ := ambientRaise_ok h
    exact .of_sets hn (hsame _) (hsame _) hv.effective
      (CapSet.or_subset hv.ambient (CapSet.single_subset hpermitted))
  | ambientLower n =>
    cases h
    exact .of_sets hn (hsame _) (hsame _) hv.effective fun m hm =>
      hv.ambient m (CapSet.and_subset_left _ _ m hm)
  | ambientClear =>
    cases h
    exact .of_sets hn (hsame _) (hsame _) hv.effective (CapSet.zero_subset _)
  | setNoNewPrivs =>
    cases h
    exact ⟨⟨hv.effective, hv.ambient⟩, rfl, hsame _, hsame _, fun _ he hs => ⟨rfl, he, hs⟩,
      fun _ he hs => ⟨rfl, he, hs, rfl⟩⟩
  | exec file =>
    obtain ⟨downgrade, permitted, effective, ambient, securebits, rfl, hsets⟩ := exec_ok hn h
    obtain ⟨hpermitted, heffective, hambient⟩ := hsets hv
    exact ⟨⟨heffective, hambient⟩, hn, hpermitted, hsame _, fun _ he _ => by simp [he],
      fun _ he _ => by simp [he]⟩

end

end Cred

end Linux
