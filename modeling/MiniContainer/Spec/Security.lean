import MiniContainer.Native.Security
import MiniContainer.Spec.Register
import MiniContainer.Spec.Seccomp

/-!
# What a workload can get

A workload gets the capabilities of its mask and nothing else, and whatever it does, it stays
with them: it has given up new privileges, and its filter keeps it in its user namespace.
-/

namespace MiniContainer.Security

open CString (Text)
open Linux (CapSet Cred Namespace capSetuid capSetgid)
open Relation (ReflTransGen)

variable {s : Surroundings} {config : RunConfig} {task task' : Task}

/-! ## Requests -/

/-- A request that gets through has a rule of its own name. -/
theorem policy_of_passes {denies : List Text} {filter : Seccomp.Filter}
    (h : Seccomp.installSeccomp s.lib denies = some filter) {name : Text}
    {arguments : Seccomp.Arguments} (ha : filter.allows (s.number name) arguments) :
    ∃ rule, Seccomp.Policy s.lib name rule := by
  -- the filter compares numbers, which the library gives to one name each
  obtain ⟨-, name', -, rule, hpolicy, happlies⟩ := (Seccomp.allows_iff h).mp ha
  have hnumber : rule.number = s.number name := eq_of_beq (Bool.and_eq_true_iff.mp happlies).1
  obtain rfl : name = name' := (s.number_eq_iff hpolicy.resolve_eq).mp hnumber.symm
  exact ⟨rule, hpolicy⟩

/-- The calls by which a process changes its user namespace have no rule. -/
theorem not_policy {name : String} (hname : name = "unshare" ∨ name = "setns")
    {lib : Seccomp.Library} {rule : Seccomp.Rule} : ¬ Seccomp.Policy lib name.toList rule := by
  have hall : (Seccomp.allowedNames.all fun name => name != "unshare" && name != "setns") =
      true := by
    decide +kernel
  intro h
  generalize htext : name.toList = text at h
  cases h with
  | table hmem _ =>
    obtain ⟨name', hmem, heq⟩ := List.mem_map.mp hmem
    have hnot := List.all_eq_true.mp hall name' hmem
    rw [String.toList_inj.mp (heq.trans htext.symm)] at hnot
    rcases hname with rfl | rfl <;> simp at hnot
  | clone3 | clone | socket => rcases hname with rfl | rfl <;> exact absurd htext (by decide)

/-- No request that gets through changes the user namespace. -/
theorem after_of_passes {denies : List Text} {filter : Seccomp.Filter}
    (h : Seccomp.installSeccomp s.lib denies = some filter) (hmem : filter ∈ task.filters)
    {request : Request} (hpasses : task.passes s request) :
    task.after s.ns request = task ∨
      ∃ call cred, task.cred.call s.ns call = .ok cred ∧
        task.after s.ns request = { task with cred } := by
  obtain ⟨name, hname, ha⟩ := hpasses
  replace ha := ha filter hmem
  cases request with
  | call call =>
    cases hcall : task.cred.call s.ns call with
    | error e => exact .inl (by simp only [Task.after, hcall])
    | ok cred => exact .inr ⟨call, cred, hcall, by simp only [Task.after, hcall]⟩
  | unshare flags =>
    obtain rfl := List.mem_singleton.mp hname
    obtain ⟨rule, hpolicy⟩ := policy_of_passes h ha
    exact absurd hpolicy (not_policy (.inl rfl))
  | setns =>
    obtain rfl := List.mem_singleton.mp hname
    obtain ⟨rule, hpolicy⟩ := policy_of_passes h ha
    exact absurd hpolicy (not_policy (.inr rfl))
  | clone flags =>
    obtain rfl := List.mem_singleton.mp hname
    rw [show s.number "clone".toList = s.lib.clone from
      (s.number_eq_iff s.lib.resolve_clone).mpr rfl] at ha
    -- the rule for `clone` allows no namespace flag
    have hflags : flags &&& cloneNewuser = 0 :=
      Seccomp.and_namespaceFlag (by decide) (Seccomp.clone_of_allows h ha)
    exact .inl (if_pos hflags)
  | clone3 =>
    obtain rfl := List.mem_singleton.mp hname
    rw [show s.number "clone3".toList = s.lib.clone3 from
      (s.number_eq_iff s.lib.resolve_clone3).mpr rfl] at ha
    exact absurd rfl ((Seccomp.allows_iff h).mp ha).1

/-! ## Confinement -/

/-- What a workload is held to. -/
structure Confined (s : Surroundings) (config : RunConfig) (task : Task) : Prop where
  filter : ∃ filter ∈ task.filters, Seccomp.installSeccomp s.lib config.seccompDenies = some filter
  noNewPrivs : task.cred.noNewPrivs = true
  valid : task.cred.Valid
  permitted : task.cred.permitted ⊆ config.capabilityMask
  uids : hasCapability config.capabilityMask capSetuid = false →
    task.cred.uid = config.user ∧ task.cred.euid = config.user ∧ task.cred.suid = config.user
  gids : hasCapability config.capabilityMask capSetgid = false →
    task.cred.gid = config.group ∧ task.cred.egid = config.group ∧ task.cred.sgid = config.group ∧
      task.cred.groups = []

theorem Confined.capable (h : Confined s config task) {n : Nat}
    (hn : hasCapability config.capabilityMask n = false) : task.cred.capable n = false := by
  rw [← Bool.not_eq_true]
  intro hcapable
  have hmask : hasCapability config.capabilityMask n = true :=
    h.permitted n (h.valid.effective n hcapable)
  simp [hmask] at hn

theorem Confined.call {call : Linux.Call} {cred : Cred} (h : Confined s config task)
    (hcall : task.cred.call s.ns call = .ok cred) : Confined s config { task with cred } := by
  have hkeeps := Cred.call_keeps h.valid h.noNewPrivs hcall
  refine ⟨h.filter, hkeeps.noNewPrivs, hkeeps.valid,
    fun n hn => h.permitted n (hkeeps.permitted n hn), fun hn => ?_, fun hn => ?_⟩
  · obtain ⟨huid, heuid, hsuid⟩ := h.uids hn
    have hsame := hkeeps.uids (h.capable hn) (heuid.trans huid.symm) (hsuid.trans huid.symm)
    rwa [huid] at hsame
  · obtain ⟨hgid, hegid, hsgid, hgroups⟩ := h.gids hn
    have hsame := hkeeps.gids (h.capable hn) (hegid.trans hgid.symm) (hsgid.trans hgid.symm)
    rwa [hgid, hgroups] at hsame

theorem Confined.step (h : Confined s config task) (hstep : task.step s task') :
    Confined s config task' := by
  obtain ⟨request, hpasses, rfl⟩ := hstep
  obtain ⟨filter, hmem, hinstall⟩ := h.filter
  rcases after_of_passes hinstall hmem hpasses with heq | ⟨call, cred, hcall, heq⟩
  · rwa [heq]
  · rw [heq]
    exact h.call hcall

theorem Confined.run (h : Confined s config task) (hrun : ReflTransGen (Task.step s) task task') :
    Confined s config task' := by
  induction hrun with
  | refl => exact h
  | tail _ hstep ih => exact ih.step hstep

/-! ## Securing a process -/

theorem bind_eq_ok {ε α β : Type} {x : Except ε α} {f : α → Except ε β} {b : β} :
    (x >>= f) = .ok b ↔ ∃ a, x = .ok a ∧ f a = .ok b := by
  cases x with
  | ok a => exact ⟨fun h => ⟨a, rfl, h⟩, fun h => h.elim fun _ h => Except.ok.inj h.1 ▸ h.2⟩
  | error e => exact ⟨fun h => (by cases h), fun h => h.elim fun _ h => (by cases h.1)⟩

section

variable {ns : Namespace} {mask : UInt64} {c c' : Cred}

theorem clearGroups_ok (h : clearGroups ns c = .ok c') : c' = { c with groups := [] } := by
  unfold clearGroups at h
  split at h
  · rename_i hcall
    rw [← Except.ok.inj h]
    exact (Cred.setgroups_ok hcall).1
  · split at h
    · cases h
    · rename_i hnone
      simp only [not_or, not_not, List.length_eq_zero_iff] at hnone
      rw [← Except.ok.inj h, ← hnone.2]

/-- The capabilities up to the last one that are not in the mask are taken out of the bounding
    set. -/
theorem dropBounding_ok {numbers : List Nat} (h : dropBounding ns mask numbers c = .ok c') :
    ∃ bounding, c' = { c with bounding } ∧ bounding ⊆ c.bounding ∧
      ∀ n ∈ numbers, n ≤ ns.lastCap → bounding.has n = true → hasCapability mask n = true := by
  induction numbers generalizing c with
  | nil => exact ⟨c.bounding, (Except.ok.inj h).symm, CapSet.subset_refl _, by simp⟩
  | cons n numbers ih =>
    unfold dropBounding at h
    split at h
    · rename_i hmask
      obtain ⟨bounding, heq, hsub, hdropped⟩ := ih h
      exact ⟨bounding, heq, hsub, List.forall_mem_cons.mpr ⟨fun _ _ => hmask, hdropped⟩⟩
    · split at h
      · rename_i hcall
        obtain ⟨rfl, hlast⟩ := Cred.capbsetDrop_ok hcall
        obtain ⟨bounding, rfl, hsub, hdropped⟩ := ih h
        refine ⟨bounding, rfl, fun m hm => CapSet.and_subset_left _ _ m (hsub m hm),
          List.forall_mem_cons.mpr ⟨fun _ hn => ?_, hdropped⟩⟩
        have hnot := CapSet.and_subset_right _ _ n (hsub n hn)
        rw [CapSet.has_compl _ (CapSet.has_lt hn), CapSet.has_single (CapSet.has_lt hn)] at hnot
        simp at hnot
      · rename_i e hcall
        split at h
        · cases h
        · rename_i heinval
          -- the kernel does not know the capability
          have hlast : ns.lastCap < n := by
            simp only [Cred.call, Cred.capbsetDrop] at hcall
            split_ifs at hcall with hcap hlast
            · cases hcall
              simp at heinval
            · exact hlast
          obtain ⟨bounding, heq, hsub, hdropped⟩ := ih h
          exact ⟨bounding, heq, hsub,
            List.forall_mem_cons.mpr ⟨fun hle => absurd hle (Nat.not_le.mpr hlast), hdropped⟩⟩

theorem prepare_ok (h : prepare ns mask c = .ok c') :
    ∃ bounding securebits, c' = { c with groups := [], bounding, securebits } ∧
      ∀ n ≤ 40, n ≤ ns.lastCap → bounding.has n = true → hasCapability mask n = true := by
  obtain ⟨c₁, h₁, h⟩ := bind_eq_ok.mp h
  obtain ⟨c₂, h₂, h₃⟩ := bind_eq_ok.mp h
  obtain rfl := clearGroups_ok h₁
  obtain ⟨bounding, rfl, -, hdropped⟩ := dropBounding_ok h₂
  obtain ⟨securebits, rfl⟩ := Cred.setKeepcaps_ok h₃
  exact ⟨bounding, securebits, rfl, fun n hn => hdropped n (List.mem_range.mpr (by omega))⟩

theorem raiseAmbient_ok {numbers : List Nat} (h : raiseAmbient ns mask numbers c = .ok c') :
    ∃ ambient, c' = { c with ambient } ∧
      (∀ m, ambient.has m = true ↔ c.ambient.has m = true ∨ m ∈ numbers ∧
        hasCapability mask m = true) ∧
      ∀ n ∈ numbers, hasCapability mask n = true → n ≤ ns.lastCap := by
  induction numbers generalizing c with
  | nil => exact ⟨c.ambient, (Except.ok.inj h).symm, by simp, by simp⟩
  | cons n numbers ih =>
    unfold raiseAmbient at h
    split at h
    · rename_i hmask
      obtain ⟨c₁, h₁, h⟩ := bind_eq_ok.mp h
      obtain ⟨rfl, hlast, -⟩ := Cred.ambientRaise_ok h₁
      obtain ⟨ambient, rfl, hraised, hlasts⟩ := ih h
      refine ⟨ambient, rfl, fun m => ?_, List.forall_mem_cons.mpr ⟨fun _ => hlast, hlasts⟩⟩
      rw [hraised, CapSet.has_or, CapSet.has_single (CapSet.has_lt hmask), Bool.or_eq_true,
        beq_iff_eq, List.mem_cons]
      grind
    · rename_i hmask
      obtain ⟨ambient, rfl, hraised, hlasts⟩ := ih h
      refine ⟨ambient, rfl, fun m => ?_,
        List.forall_mem_cons.mpr ⟨fun hn => absurd hn hmask, hlasts⟩⟩
      rw [hraised, List.mem_cons]
      grind

/-- The sets of a process behind `mc_security_apply` are the mask. -/
theorem applyCapabilities_ok (h : applyCapabilities ns mask c = .ok c') :
    c' = { c with
      permitted := mask, effective := mask, inheritable := mask, ambient := mask
      securebits := 15, noNewPrivs := true } := by
  obtain ⟨c₁, h₁, h⟩ := bind_eq_ok.mp h
  obtain ⟨c₂, h₂, h⟩ := bind_eq_ok.mp h
  obtain ⟨c₃, h₃, h⟩ := bind_eq_ok.mp h
  obtain ⟨c₄, h₄, h⟩ := bind_eq_ok.mp h
  obtain ⟨c₅, h₅, h₆⟩ := bind_eq_ok.mp h
  obtain ⟨rfl, -⟩ := Cred.capset_ok h₁
  obtain rfl := Cred.setSecurebits_ok h₂
  obtain ⟨rfl, -⟩ := Cred.capset_ok h₃
  cases h₄
  obtain ⟨ambient, rfl, hraised, hlasts⟩ := raiseAmbient_ok h₅
  cases h₆
  have hvalid : mask &&& CapSet.upTo ns.lastCap = mask := CapSet.and_upTo ns.lastCap_lt fun n hn =>
    hlasts n (List.mem_range.mpr (CapSet.has_lt hn)) hn
  have hambient : ambient = mask := by
    refine CapSet.ext fun n => Bool.eq_iff_iff.mpr ((hraised n).trans ?_)
    simp only [CapSet.has_zero, Bool.false_eq_true, false_or, List.mem_range]
    exact ⟨fun h => h.2, fun h => ⟨CapSet.has_lt h, h⟩⟩
  simp only [CapSet.ofWords_halves, hvalid, hambient]
  rfl

end

/-- The credentials of a process that is about to become a workload. -/
def securedCred (config : RunConfig) (bounding : CapSet) : Cred where
  uid := config.user
  euid := config.user
  suid := config.user
  gid := config.group
  egid := config.group
  sgid := config.group
  groups := []
  permitted := config.capabilityMask
  effective := config.capabilityMask
  inheritable := config.capabilityMask
  ambient := config.capabilityMask
  bounding := bounding
  securebits := 15
  noNewPrivs := true

theorem of_orExit {α : Type} {label : String} {x : Except Linux.Error α} {a : α}
    (h : orExit label x = .ok a) : x = .ok a := by
  cases x with
  | ok b => exact congrArg _ (Except.ok.inj h)
  | error e => cases h

/-- What both children are where `execvp` is called. -/
theorem secure_ok {group user : String} {unseparated : Failure} {environ : Variables}
    (h : secure s config group user unseparated task = .ok (task', environ)) :
    (∃ filter, Seccomp.installSeccomp s.lib config.seccompDenies = some filter ∧
      task'.filters = filter :: task.filters) ∧
    ∃ bounding, task'.cred = securedCred config bounding ∧
      ∀ n ≤ 40, n ≤ s.ns.lastCap → bounding.has n = true →
        hasCapability config.capabilityMask n = true := by
  obtain ⟨c₁, h₁, h⟩ := bind_eq_ok.mp h
  obtain ⟨c₂, h₂, h⟩ := bind_eq_ok.mp h
  obtain ⟨c₃, h₃, h⟩ := bind_eq_ok.mp h
  obtain ⟨environ', -, h⟩ := bind_eq_ok.mp h
  obtain ⟨task'', h₄, h⟩ := bind_eq_ok.mp h
  cases h
  -- what each call leaves, in the order of the source
  obtain ⟨bounding, securebits, rfl, hdropped⟩ := prepare_ok (of_orExit h₁)
  obtain ⟨rfl, -⟩ := Cred.setresgid_ok (of_orExit h₂)
  obtain ⟨⟨permitted, effective, ambient, rfl, -⟩, -⟩ := Cred.setresuid_ok (of_orExit h₃)
  obtain ⟨cred, h₅, h⟩ := bind_eq_ok.mp (of_orExit h₄)
  obtain rfl := applyCapabilities_ok h₅
  split at h
  · rename_i filter hinstall
    cases h
    exact ⟨⟨filter, hinstall, rfl⟩, bounding, rfl, hdropped⟩
  · cases h

/-! ## Workloads -/

/-- The process runs the command as a workload of the container: as the child of `supervise`, or
    as that of `exec_worker`. -/
def Started (s : Surroundings) (config : RunConfig) (command : List Text) (task task' : Task)
    (environ : Variables) : Prop :=
  (command = config.command ∧ superviseWorkload s config task = .ok (task', environ)) ∨
    execWorkload s config command task = .ok (task', environ)

theorem execvp_ok {command : List Text} {report : Bool}
    (h : execvp s command report task = .ok task') :
    ∃ file cred, s.program (command.headD []) = .ok file ∧ task.cred.exec s.ns file = .ok cred ∧
      task' = { task with cred } := by
  unfold execvp at h
  dsimp only at h
  split at h
  · rename_i cred hcred
    obtain ⟨file, hfile, hexec⟩ := bind_eq_ok.mp hcred
    cases h
    exact ⟨file, cred, hfile, hexec, rfl⟩
  · cases h

section

variable {command : List Text} {environ : Variables}

/-- Whoever runs a workload was secured and has executed the program. -/
theorem Started.secured (h : Started s config command task task' environ) :
    ∃ file bounding cred filter, s.program (command.headD []) = .ok file ∧
      (securedCred config bounding).exec s.ns file = .ok cred ∧
      Seccomp.installSeccomp s.lib config.seccompDenies = some filter ∧
      task' = ⟨cred, filter :: task.filters⟩ ∧
      ∀ n ≤ 40, n ≤ s.ns.lastCap → bounding.has n = true →
        hasCapability config.capabilityMask n = true := by
  obtain ⟨group, user, unseparated, report, h⟩ : ∃ group user unseparated report,
      secureAndExec s config group user unseparated command report task =
        .ok (task', environ) := by
    rcases h with ⟨rfl, h⟩ | h
    all_goals
      obtain ⟨_, -, h⟩ := bind_eq_ok.mp h
      obtain ⟨_, -, h⟩ := bind_eq_ok.mp h
      exact ⟨_, _, _, _, h⟩
  obtain ⟨⟨task₁, environ₁⟩, h₁, h⟩ := bind_eq_ok.mp h
  obtain ⟨task₂, h₂, h⟩ := bind_eq_ok.mp h
  cases h
  obtain ⟨⟨filter, hinstall, hfilters⟩, bounding, hcred, hdropped⟩ := secure_ok h₁
  obtain ⟨file, cred, hfile, hexec, rfl⟩ := execvp_ok h₂
  rw [hcred] at hexec
  exact ⟨file, bounding, cred, filter, hfile, hexec, hinstall, by rw [hfilters], hdropped⟩

theorem valid_securedCred (config : RunConfig) (bounding : CapSet) :
    (securedCred config bounding).Valid :=
  ⟨CapSet.subset_refl _, CapSet.subset_refl _⟩

theorem noroot_securedCred {bounding : CapSet} :
    (securedCred config bounding).secure Linux.secureNoroot = true :=
  show (15 : Nat).testBit 0 = true by decide

end

/-! ## A workload of an unprivileged user -/

/-- A container for the IDs below 65536, on a kernel with 41 capabilities. -/
def plainSurroundings : Surroundings where
  ns :=
    { uidMapped := (· < 65536), gidMapped := (· < 65536), maySetgroups := false, lastCap := 40
      lastCap_lt := by decide }
  lib := Seccomp.fourCalls
  number name := (Seccomp.fourCalls.resolve name).getD (-1)
  number_eq_iff := by
    intro name name' n h
    refine ⟨fun hn => ?_, fun hname => by rw [hname, h]; rfl⟩
    cases hname : Seccomp.fourCalls.resolve name with
    | some m =>
      rw [hname] at hn
      exact Seccomp.fourCalls.resolve_inj (hname.trans (congrArg some hn)) h
    | none =>
      obtain rfl : (-1 : Int) = n := by rwa [hname] at hn
      simp only [Seccomp.fourCalls] at h
      split_ifs at h <;> exact absurd (Option.some.inj h) (by decide)
  program _ := .ok {}

/-- It may bind low ports. -/
def workloadConfig : RunConfig :=
  { webConfig with user := 1000, group := 1000, capabilityMask := 0x400 }

/-- Such a workload has started. -/
theorem exists_started : ∃ task task' environ filter,
    Started plainSurroundings workloadConfig ["sh".toList] task task' environ ∧
      Seccomp.installSeccomp Seccomp.fourCalls [] = some filter ∧ task'.filters = [filter] := by
  obtain ⟨filter, hfilter⟩ := Seccomp.fourCalls_installs []
  let s := plainSurroundings
  let cred : Cred := (securedCred workloadConfig 0).enterNamespace s.ns
  have hcred : (do
      let cred ← prepare s.ns 0x400 cred
      let cred ← cred.call s.ns (.setresgid 1000 1000 1000)
      let cred ← cred.call s.ns (.setresuid 1000 1000 1000)
      applyCapabilities s.ns 0x400 cred) =
        .ok (securedCred workloadConfig 0x400) := by decide +kernel
  obtain ⟨c₁, h₁, hcred⟩ := bind_eq_ok.mp hcred
  obtain ⟨c₂, h₂, hcred⟩ := bind_eq_ok.mp hcred
  obtain ⟨c₃, h₃, h₄⟩ := bind_eq_ok.mp hcred
  have hpolicy : apply s.ns 0x400 s.lib [] ⟨c₃, []⟩ =
      .ok ⟨securedCred workloadConfig 0x400, [filter]⟩ :=
    bind_eq_ok.mpr ⟨_, h₄, by rw [show s.lib = Seccomp.fourCalls from rfl, hfilter]; rfl⟩
  have hsecure : secure s workloadConfig "group" "user"
      (.exits 125 (some "environment".toList) .einval) ⟨cred, []⟩ = .ok (_, _) :=
    bind_eq_ok.mpr ⟨_, congrArg (orExit _) h₁, bind_eq_ok.mpr ⟨_, congrArg (orExit _) h₂,
      bind_eq_ok.mpr ⟨_, congrArg (orExit _) h₃, bind_eq_ok.mpr ⟨_, rfl,
        bind_eq_ok.mpr ⟨_, congrArg (orExit _) hpolicy, rfl⟩⟩⟩⟩⟩
  have hstarted : execWorkload s workloadConfig ["sh".toList] ⟨cred, []⟩ = .ok (_, _) :=
    bind_eq_ok.mpr ⟨(), rfl, bind_eq_ok.mpr ⟨(), rfl,
      bind_eq_ok.mpr ⟨_, hsecure, bind_eq_ok.mpr ⟨_, rfl, rfl⟩⟩⟩⟩
  exact ⟨_, _, _, filter, .inr hstarted, hfilter, rfl⟩

/-! ## Main results -/

section

variable {command : List Text} {environ : Variables}

/-- A workload has the IDs of the configuration and no groups. Its bounding set has no capability
    that is known and not in the mask; and a program without capabilities of its own has those of
    the mask, whoever runs it and whatever its set-user-ID bit says. -/
theorem workload_secured (h : Started s config command task task' environ) :
    (task'.cred.uid = config.user ∧ task'.cred.euid = config.user ∧ task'.cred.suid = config.user) ∧
    (task'.cred.gid = config.group ∧ task'.cred.egid = config.group ∧
      task'.cred.sgid = config.group ∧ task'.cred.groups = []) ∧
    (∀ n ≤ 40, n ≤ s.ns.lastCap → task'.cred.bounding.has n = true →
      hasCapability config.capabilityMask n = true) ∧
    ∀ file, s.program (command.headD []) = .ok file → file.caps = none →
      task'.cred.permitted = config.capabilityMask ∧ task'.cred.effective = config.capabilityMask ∧
      task'.cred.inheritable = config.capabilityMask ∧
        task'.cred.ambient = config.capabilityMask := by
  obtain ⟨file, bounding, cred, filter, hfile, hexec, -, rfl, hdropped⟩ := h.secured
  obtain ⟨downgrade, permitted, effective, ambient, securebits, hcred, -⟩ := Cred.exec_ok rfl hexec
  refine ⟨by simp [hcred, securedCred], by simp [hcred, securedCred], ?_,
    fun file' hfile' hcaps => ?_⟩
  · rw [hcred]
    exact hdropped
  · obtain rfl := Except.ok.inj (hfile.symm.trans hfile')
    rw [Cred.exec_plain rfl noroot_securedCred rfl rfl hcaps] at hexec
    rw [← Except.ok.inj hexec]
    exact ⟨rfl, rfl, rfl, rfl⟩

theorem workload_secured_plain : ∃ task task' environ,
    Started plainSurroundings workloadConfig ["sh".toList] task task' environ ∧
      task'.cred.uid = 1000 ∧ task'.cred.permitted = 0x400 := by
  obtain ⟨task, task', environ, -, h, -⟩ := exists_started
  obtain ⟨hids, -, -, hsets⟩ := workload_secured h
  exact ⟨task, task', environ, h, hids.1, (hsets {} rfl rfl).1⟩

/-- Whatever a workload does, it gets no capability that is not in its mask. Without those for it
    in the mask, it keeps its IDs. -/
theorem workload_confined {task'' : Task} (h : Started s config command task task' environ)
    (hrun : ReflTransGen (Task.step s) task' task'') :
    task''.cred.permitted ⊆ config.capabilityMask ∧ task''.cred.effective ⊆ config.capabilityMask ∧
    (hasCapability config.capabilityMask capSetuid = false →
      task''.cred.uid = config.user ∧ task''.cred.euid = config.user ∧
        task''.cred.suid = config.user) ∧
    (hasCapability config.capabilityMask capSetgid = false →
      task''.cred.gid = config.group ∧ task''.cred.egid = config.group ∧
        task''.cred.sgid = config.group ∧ task''.cred.groups = []) := by
  obtain ⟨file, bounding, cred, filter, -, hexec, hinstall, rfl, -⟩ := h.secured
  have hsecured : Confined s config ⟨securedCred config bounding, filter :: task.filters⟩ :=
    ⟨⟨filter, .head _, hinstall⟩, rfl, valid_securedCred config bounding,
      CapSet.subset_refl _, fun _ => ⟨rfl, rfl, rfl⟩, fun _ => ⟨rfl, rfl, rfl, rfl⟩⟩
  have hcall : (securedCred config bounding).call s.ns (.exec file) = .ok cred := hexec
  have hconfined := (hsecured.call hcall).run hrun
  exact ⟨hconfined.permitted, fun n hn => hconfined.permitted n (hconfined.valid.effective n hn),
    hconfined.uids, hconfined.gids⟩

/-- It makes a child. -/
theorem workload_confined_clone : ∃ task task' environ task'',
    Started plainSurroundings workloadConfig ["sh".toList] task task' environ ∧
      ReflTransGen (Task.step plainSurroundings) task' task'' ∧ task''.cred.uid = 1000 := by
  obtain ⟨task, task', environ, filter, h, hinstall, hfilters⟩ := exists_started
  have hpasses : task'.passes plainSurroundings (.clone 0) := by
    refine ⟨_, .head _, fun filter' hmem => ?_⟩
    obtain rfl : filter' = filter := by rwa [hfilters, List.mem_singleton] at hmem
    exact (Seccomp.allows_iff hinstall).mpr
      ⟨by decide, "clone".toList, List.not_mem_nil, _, .clone, by decide⟩
  have hrun : ReflTransGen (Task.step plainSurroundings) task' _ := .single ⟨.clone 0, hpasses, rfl⟩
  exact ⟨task, task', environ, _, h, hrun, ((workload_confined h hrun).2.2.1 (by decide)).1⟩

end

end MiniContainer.Security
