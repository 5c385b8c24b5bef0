import MiniContainer.Native.Setup
import MiniContainer.Spec.NftRemove

/-!
# What a failed launch leaves

Which resources are left when `mc_container_run` returns, by the first of its calls that
fails. A call between the creation of the payload cgroup and the end of
`mc_cgroup_create` leaves that cgroup, and a call between the creation of the `work`
directory and the second pipe leaves that directory; every other failure, and every run
without a failure, leaves nothing but, at worst, the rules for published ports that
`mc_nft_remove_container` cannot remove.
-/

namespace MiniContainer.Setup

open CString (Text)

/-! ## Sequences of calls -/

section RunCalls

variable {fault : Step → Bool} {calls : List Call} {r : Resources}

theorem runCalls_append (cs : List Call) :
    runCalls fault (calls ++ cs) r =
      match runCalls fault calls r with
      | (.error e, r') => (.error e, r')
      | (.ok (), r') => runCalls fault cs r' := by
  induction calls generalizing r with
  | nil => rfl
  | cons c calls ih =>
    simp only [List.cons_append, runCalls]
    split
    · rfl
    · exact ih

/-- What every call keeps is kept, whether one of them fails or not. -/
theorem runCalls_keeps {P : Resources → Prop} (h : ∀ c ∈ calls, ∀ r, P r → P (c.effect r))
    (hr : P r) : P (runCalls fault calls r).2 := by
  induction calls generalizing r with
  | nil => exact hr
  | cons c calls ih =>
    simp only [runCalls]
    split
    · exact hr
    · exact ih (fun d hd => h d (List.mem_cons_of_mem _ hd)) (h c List.mem_cons_self r hr)

/-- The first of the calls that fails. -/
def firstFault (fault : Step → Bool) (calls : List Call) : Option Step :=
  (calls.map Call.step).find? fault

/-- They fail if and only if one of them does. -/
theorem runCalls_result (fault : Step → Bool) (calls : List Call) (r : Resources) :
    (firstFault fault calls = none ∧ (runCalls fault calls r).1 = .ok ()) ∨
      ∃ s e, firstFault fault calls = some s ∧ s ∈ calls.map Call.step ∧
        (runCalls fault calls r).1 = .error e := by
  induction calls generalizing r with
  | nil => exact .inl ⟨rfl, rfl⟩
  | cons c calls ih =>
    simp only [firstFault, List.map_cons, runCalls]
    cases hf : fault c.step with
    | true =>
      exact .inr ⟨c.step, c.error, List.find?_cons_of_pos hf, List.mem_cons_self, rfl⟩
    | false =>
      rw [List.find?_cons_of_neg (by rw [hf]; exact nofun)]
      rcases ih (c.effect r) with hok | ⟨s, e, hs, hmem, he⟩
      · exact .inl hok
      · exact .inr ⟨s, e, hs, List.mem_cons_of_mem _ hmem, he⟩

end RunCalls

/-! ## Resources -/

/-- None of the resources of the container is there. -/
structure Resources.Released (r : Resources) (id : ContainerId) : Prop where
  payload : r.payload = false
  link : r.link = false
  rules : ∀ c, ∀ x ∈ r.chains c, x.ownedBy id.text = false
  work : r.work = false
  merged : r.merged = false
  control : r.control = false
  runtime : r.runtime = false
  owner : r.owner = .root

/-! ## The order of the calls -/

namespace Launch

variable (run : Launch)

/-- The calls of `mc_container_run`, in order. -/
def calls : List Call :=
  checkCalls run ++ if ',' ∈ run.config.rootfs then [] else
    subidCalls ++
    (if run.skipCgroup then [] else scopeCalls run ++ payloadCall run :: limitCalls run) ++
    (upperCalls run ++ workCall run :: pathCalls run) ++ cloneCalls run ++ mapCalls run ++
    (if run.config.networkBridge then
      linkCalls run ++ (if run.config.publishes = [] then [] else [nftCall run]) else []) ++
    releaseCalls run ++ readyCalls run

/-- The first call that fails. -/
def failing : Option Step := firstFault run.fault run.calls

end Launch

/-- The calls that clean-up forgets: those behind the creation of the payload cgroup in
    `mc_cgroup_create`, and those between the creation of `work` and `clone3`. -/
def Step.leaks : Step → Bool
  | .moveShim | .delegate | .writeLimit _ | .verifyLimit _ | .openPayload => true
  | .mergedDir | .chmodContainers | .chownBase | .chownUpper | .chownWork | .chownMerged
  | .barrierPipe | .readyPipe => true
  | _ => false

/-- The calls behind the network. -/
def Step.afterNetwork : Step → Bool
  | .releaseChild | .childReady | .controlPath | .runtimeDir | .socket | .bindControl
  | .chmodControl | .listen | .runningState | .notify => true
  | _ => false

/-- The rules for the published ports were added. -/
def Launch.published (run : Launch) : Bool :=
  run.config.networkBridge && !decide (',' ∈ run.config.rootfs) &&
    run.failing.all Step.afterNetwork

/-! ## Stages -/

section Stages

variable {run : Launch} {chains : Chains} {first : Option Step} {r : Resources} {s : Step}

/-- What is to be shown of the resources that are left, when `first` is the first of the calls
    that fails and the chains were these in the beginning. -/
def Settles (run : Launch) (chains : Chains) (first : Option Step) (r : Resources) : Prop :=
  r.Released run.id ↔ (∀ s, first = some s → s.leaks = false) ∧
    (run.config.networkBridge = true ∧ first.all Step.afterNetwork = true →
      Removable run.view run.id (run.addRules chains))

theorem settles_of_released (hleaks : s.leaks = false) (hafter : s.afterNetwork = false)
    (h : r.Released run.id) : Settles run chains (some s) r := by
  refine iff_of_true h ⟨?_, fun hnet => ?_⟩
  · rintro _ ⟨⟩
    exact hleaks
  · rw [Option.all_some, hafter] at hnet
    exact nomatch hnet.2

theorem settles_of_leak (hleaks : s.leaks = true) (h : ¬r.Released run.id) :
    Settles run chains (some s) r :=
  iff_of_false h fun hnot => nomatch hleaks.symm.trans (hnot.1 s rfl)

theorem firstFault_append_of_some {fault : Step → Bool} {A B : List Call}
    (h : firstFault fault A = some s) : firstFault fault (A ++ B) = some s := by
  rw [firstFault, List.map_append, List.find?_append]
  exact congrArg (Option.or · _) h

theorem firstFault_append_of_none {fault : Step → Bool} {A B : List Call}
    (h : firstFault fault A = none) : firstFault fault (A ++ B) = firstFault fault B := by
  rw [firstFault, List.map_append, List.find?_append]
  exact congrArg (Option.or · _) h

/-- One stage and the ones behind it. -/
theorem settles_stage {A B : List Call} {f : Except McError Unit × Resources → Resources}
    (hfail : ∀ s e, s ∈ A.map Call.step → (runCalls run.fault A r).1 = .error e →
      Settles run chains (some s) (f (.error e, (runCalls run.fault A r).2)))
    (hok : (runCalls run.fault A r).1 = .ok () →
      Settles run chains (firstFault run.fault B) (f (.ok (), (runCalls run.fault A r).2))) :
    Settles run chains (firstFault run.fault (A ++ B)) (f (runCalls run.fault A r)) := by
  rcases runCalls_result run.fault A r with ⟨hnone, hres⟩ | ⟨s, e, hs, hmem, hres⟩
  · rw [firstFault_append_of_none hnone, show runCalls run.fault A r = (.ok (), _) from
      Prod.ext hres rfl]
    exact hok hres
  · rw [firstFault_append_of_some hs, show runCalls run.fault A r = (.error e, _) from
      Prod.ext hres rfl]
    exact hfail s e hmem hres

/-- What is cleaned up at the end of a run whose network was set up. -/
def cleaned (run : Launch) (active network : Bool) (r : Resources) : Resources :=
  restoreOwner (cleanupEphemeral (networkDestroy run network (cgroupDestroy active r)))

/-- The other order. -/
theorem cleaned_eq (run : Launch) (active network : Bool) (r : Resources) :
    cgroupDestroy active (restoreOwner (networkDestroy run network (cleanupEphemeral r))) =
      cleaned run active network r := by
  cases active <;> cases network <;> rfl

/-- The resources behind the creation of the cgroup, when everything that is there can be
    cleaned up. -/
structure Tracked (run : Launch) (chains : Chains) (active network : Bool) (r : Resources) :
    Prop where
  payload : r.payload = true → active = true
  link : r.link = true → network = true
  chains : r.chains = if network then run.addRules chains else chains
  control : r.control = false
  runtime : r.runtime = false

theorem released_cleaned_iff {active network : Bool}
    (hold : ∀ c, ∀ x ∈ chains c, x.ownedBy run.id.text = false)
    (hn : DistinctHandles (run.addRules chains)) (h : Tracked run chains active network r) :
    (cleaned run active network r).Released run.id ↔
      (network = true → Removable run.view run.id (run.addRules chains)) := by
  have hpayload : (cleaned run active network r).payload = false := by
    have hr := h.payload
    cases active with
    | true => cases network <;> rfl
    | false =>
      have hnone : r.payload = false := by simpa using hr
      cases network <;> exact hnone
  have hlink : (cleaned run active network r).link = false := by
    have hr := h.link
    cases network with
    | true => rfl
    | false =>
      have hnone : r.link = false := by simpa using hr
      cases active <;> exact hnone
  have hcontrol : (cleaned run active network r).control = false := by
    cases active <;> cases network <;> exact h.control
  have hruntime : (cleaned run active network r).runtime = false := by
    cases active <;> cases network <;> exact h.runtime
  have hchains := h.chains
  cases network with
  | false =>
    have hrules : (cleaned run active false r).chains = chains := by
      cases active <;> exact hchains
    refine iff_of_true ⟨hpayload, hlink, ?_, rfl, rfl, hcontrol, hruntime, rfl⟩ nofun
    rw [hrules]
    exact hold
  | true =>
    have hrules : (cleaned run active true r).chains =
        nftRemoveContainer run.view run.id.text (run.addRules chains) := by
      rw [if_pos rfl] at hchains
      rw [← hchains]
      cases active <;> rfl
    rw [← nftRemoveContainer_clears_iff run.view hn, ← hrules]
    exact ⟨fun hreleased _ => hreleased.rules, fun hclear =>
      ⟨hpayload, hlink, hclear rfl, rfl, rfl, hcontrol, hruntime, rfl⟩⟩

/-- From the first call behind the network on, everything is cleaned up. -/
theorem settles_cleaned {active : Bool} (hfirst : ∀ s, first = some s → s.afterNetwork = true)
    (hold : ∀ c, ∀ x ∈ chains c, x.ownedBy run.id.text = false)
    (hn : DistinctHandles (run.addRules chains))
    (h : Tracked run chains active run.config.networkBridge r) :
    Settles run chains first (cleaned run active run.config.networkBridge r) := by
  rw [Settles, released_cleaned_iff hold hn h]
  have hall : first.all Step.afterNetwork = true := by
    cases first with
    | none => rfl
    | some s => exact hfirst s rfl
  have hleaks : ∀ s, first = some s → s.leaks = false := by
    intro s hs
    have hafter := hfirst s hs
    cases s <;> first | rfl | exact nomatch hafter
  rw [hall]
  exact ⟨fun hremove => ⟨hleaks, fun hnet => hremove hnet.1⟩, fun hboth hnet => hboth.2 ⟨hnet, rfl⟩⟩

theorem afterNetwork_readyCalls : ∀ s ∈ (readyCalls run).map Call.step, s.afterNetwork = true := by
  unfold readyCalls
  split <;> simp [Step.afterNetwork]

/-- Calls that have one of two effects. -/
theorem runCalls_keeps_of_effect {fault : Step → Bool} {calls : List Call} {P : Resources → Prop}
    {f g : Resources → Resources}
    (heffect : ∀ c ∈ calls, c.effect = id ∨ c.effect = f ∨ c.effect = g)
    (hf : ∀ r, P r → P (f r)) (hg : ∀ r, P r → P (g r)) (hr : P r) :
    P (runCalls fault calls r).2 := by
  refine runCalls_keeps (fun c hc r hr => ?_) hr
  rcases heffect c hc with h | h | h
  · rw [h]
    exact hr
  · rw [h]
    exact hf r hr
  · rw [h]
    exact hg r hr

theorem effect_readyCalls : ∀ c ∈ readyCalls run, c.effect = id ∨
    c.effect = (fun r => { r with runtime := true }) ∨
    c.effect = (fun r => { r with control := true }) := by
  unfold readyCalls
  split <;> simp

theorem settles_supervise {active : Bool}
    (hold : ∀ c, ∀ x ∈ chains c, x.ownedBy run.id.text = false)
    (hn : DistinctHandles (run.addRules chains))
    (h : Tracked run chains active run.config.networkBridge r) :
    Settles run chains (firstFault run.fault (readyCalls run))
      (supervise run active run.config.networkBridge r).2 := by
  -- what is opened here is closed here
  have htracked : Tracked run chains active run.config.networkBridge
      { (runCalls run.fault (readyCalls run) r).2 with control := false, runtime := false } :=
    runCalls_keeps_of_effect
      (P := fun r => Tracked run chains active run.config.networkBridge
        { r with control := false, runtime := false })
      effect_readyCalls (fun _ hr => ⟨hr.payload, hr.link, hr.chains, rfl, rfl⟩)
      (fun _ hr => ⟨hr.payload, hr.link, hr.chains, rfl, rfl⟩)
      ⟨h.payload, h.link, h.chains, rfl, rfl⟩
  have hsupervise : (supervise run active run.config.networkBridge r).2 =
      cleaned run active run.config.networkBridge
        { (runCalls run.fault (readyCalls run) r).2 with control := false, runtime := false } := by
    unfold supervise cleaned
    split <;> rfl
  rw [hsupervise]
  exact settles_cleaned (fun s hs => afterNetwork_readyCalls s (List.mem_of_find?_eq_some hs))
    hold hn htracked

theorem settles_releaseChild {active : Bool}
    (hold : ∀ c, ∀ x ∈ chains c, x.ownedBy run.id.text = false)
    (hn : DistinctHandles (run.addRules chains))
    (h : Tracked run chains active run.config.networkBridge r) :
    Settles run chains (firstFault run.fault (releaseCalls run ++ readyCalls run))
      (releaseChild run active r).2 := by
  have hsame : (runCalls run.fault (releaseCalls run) r).2 = r := by
    simp only [releaseCalls, runCalls]
    split <;> rfl
  refine settles_stage (f := fun x => (match x with
    | (.error e, r) => abandon run active run.config.networkBridge e r
    | (.ok (), r) => supervise run active run.config.networkBridge r).2)
    (fun s e hs _ => ?_) fun _ => ?_
  · rw [hsame]
    show Settles run chains (some s) (cgroupDestroy active _)
    rw [cleaned_eq]
    refine settles_cleaned (fun s' hs' => ?_) hold hn h
    cases hs'
    obtain rfl : s = .releaseChild := by simpa [releaseCalls] using hs
    rfl
  · rw [hsame]
    exact settles_supervise hold hn h

/-- A failure in front of the network. -/
theorem settles_abandon {active : Bool} {e : McError} (hleaks : s.leaks = false)
    (hafter : s.afterNetwork = false)
    (hold : ∀ c, ∀ x ∈ chains c, x.ownedBy run.id.text = false)
    (hn : DistinctHandles (run.addRules chains)) (h : Tracked run chains active false r) :
    Settles run chains (some s) (abandon run active false e r).2 := by
  refine settles_of_released hleaks hafter ?_
  show (cgroupDestroy active _).Released run.id
  rw [cleaned_eq, released_cleaned_iff hold hn h]
  exact nofun

/-- The calls of `mc_network_setup`. -/
def networkCalls (run : Launch) : List Call :=
  linkCalls run ++ if run.config.publishes = [] then [] else [nftCall run]

theorem effect_linkCalls : ∀ c ∈ linkCalls run, c.effect = id ∨
    c.effect = (fun r => { r with link := true }) ∨
    c.effect = (fun r => { r with link := true }) := by
  simp [linkCalls]

/-- Without published ports there are no rules to add. -/
theorem addRules_of_nil (h : run.config.publishes = []) : run.addRules chains = chains := by
  funext c
  rw [Launch.addRules, h, nftAddContainer]
  exact List.append_nil _

/-- The rules are added by the last of the calls. -/
theorem runCalls_networkCalls {active : Bool} (h : Tracked run chains active false r) :
    ((runCalls run.fault (networkCalls run) r).1 = .ok () →
      Tracked run chains active true (runCalls run.fault (networkCalls run) r).2) ∧
    (∀ e, (runCalls run.fault (networkCalls run) r).1 = .error e →
      Tracked run chains active false
          (deleteLink (runCalls run.fault (networkCalls run) r).2)) := by
  have hlink : Tracked run chains active false
      (deleteLink (runCalls run.fault (linkCalls run) r).2) :=
    runCalls_keeps_of_effect (P := fun r => Tracked run chains active false (deleteLink r))
      effect_linkCalls (fun _ hr => hr) (fun _ hr => hr) ⟨h.payload, nofun, h.chains, h.control,
        h.runtime⟩
  rw [networkCalls, runCalls_append]
  cases hcalls : runCalls run.fault (linkCalls run) r with
  | mk result r₁ =>
    rw [hcalls] at hlink
    have hchains : r₁.chains = chains := hlink.chains
    cases result with
    | error e => exact ⟨nofun, fun _ _ => hlink⟩
    | ok u =>
      dsimp only
      split
      · -- no ports are published
        rename_i hnil
        refine ⟨fun _ => ⟨hlink.payload, fun _ => rfl, ?_, hlink.control, hlink.runtime⟩, nofun⟩
        rw [if_pos rfl, addRules_of_nil hnil]
        exact hchains
      · simp only [runCalls]
        split
        · exact ⟨nofun, fun _ _ => hlink⟩
        · refine ⟨fun _ => ⟨hlink.payload, fun _ => rfl, ?_, hlink.control, hlink.runtime⟩, nofun⟩
          rw [if_pos rfl, ← hchains]
          rfl

theorem leaks_of_mem_networkCalls :
    ∀ s ∈ (networkCalls run).map Call.step, s.leaks = false ∧ s.afterNetwork = false := by
  unfold networkCalls
  split <;> simp [linkCalls, nftCall, Step.leaks, Step.afterNetwork]

theorem connectChild_of_bridge {active : Bool} (hbridge : run.config.networkBridge = true) :
    connectChild run active r = match runCalls run.fault (networkCalls run) r with
      | (.error e, r) => abandon run active false e (deleteLink (removeRules run r))
      | (.ok (), r) => releaseChild run active r := by
  unfold connectChild networkSetup networkCalls
  rw [if_pos hbridge]
  generalize runCalls run.fault
    (linkCalls run ++ if run.config.publishes = [] then [] else [nftCall run]) r = result
  obtain ⟨_ | _, r'⟩ := result
  · rfl
  · rfl

theorem settles_connectChild {active : Bool}
    (hold : ∀ c, ∀ x ∈ chains c, x.ownedBy run.id.text = false)
    (hn : DistinctHandles (run.addRules chains)) (h : Tracked run chains active false r) :
    Settles run chains (firstFault run.fault
        ((if run.config.networkBridge then networkCalls run else []) ++
          (releaseCalls run ++ readyCalls run))) (connectChild run active r).2 := by
  by_cases hbridge : run.config.networkBridge = true
  · rw [if_pos hbridge, connectChild_of_bridge hbridge]
    obtain ⟨hok, herror⟩ := runCalls_networkCalls h
    refine settles_stage (f := fun x => (match x with
      | (.error e, r) => abandon run active false e (deleteLink (removeRules run r))
      | (.ok (), r) => releaseChild run active r).2) (fun s e hs he => ?_) fun hres => ?_
    · obtain ⟨hleaks, hafter⟩ := leaks_of_mem_networkCalls s hs
      refine settles_abandon hleaks hafter hold hn ?_
      have htracked := herror e he
      refine ⟨htracked.payload, htracked.link, ?_, htracked.control, htracked.runtime⟩
      -- the container has no rules yet
      have hchains : (runCalls run.fault (networkCalls run) r).2.chains = chains :=
        htracked.chains
      show nftRemoveContainer _ _ (runCalls run.fault (networkCalls run) r).2.chains = chains
      rw [hchains, nftRemoveContainer_of_nil _ (allOwned_eq_nil hold)]
    · exact settles_releaseChild hold hn (hbridge ▸ hok hres)
  · unfold connectChild
    rw [if_neg hbridge, if_neg hbridge, List.nil_append]
    have hbridge : run.config.networkBridge = false := eq_false_of_ne_true hbridge
    exact settles_releaseChild hold hn (hbridge ▸ h)

/-- Calls without an effect. -/
theorem runCalls_of_idle {fault : Step → Bool} {calls : List Call}
    (h : ∀ c ∈ calls, c.effect = id) : (runCalls fault calls r).2 = r :=
  runCalls_keeps_of_effect (P := (· = r)) (f := id) (g := id) (fun c hc => .inl (h c hc))
    (fun _ hr => hr) (fun _ hr => hr) rfl

theorem settles_runChild {active : Bool}
    (hold : ∀ c, ∀ x ∈ chains c, x.ownedBy run.id.text = false)
    (hn : DistinctHandles (run.addRules chains)) (h : Tracked run chains active false r) :
    Settles run chains (firstFault run.fault (mapCalls run ++
        ((if run.config.networkBridge then networkCalls run else []) ++
          (releaseCalls run ++ readyCalls run)))) (runChild run active r).2 := by
  have hsame : (runCalls run.fault (mapCalls run) r).2 = r :=
    runCalls_of_idle (by simp [mapCalls])
  refine settles_stage (f := fun x => (match x with
    | (.error e, r) => abandon run active false e r
    | (.ok (), r) => connectChild run active r).2) (fun s e hs _ => ?_) fun _ => ?_
  · rw [hsame]
    have hplain : s.leaks = false ∧ s.afterNetwork = false := by
      simp only [mapCalls, List.map_cons, List.map_nil, List.mem_cons, List.not_mem_nil,
        or_false] at hs
      rcases hs with rfl | rfl | rfl <;> exact ⟨rfl, rfl⟩
    exact settles_abandon hplain.1 hplain.2 hold hn h
  · rw [hsame]
    exact settles_connectChild hold hn h

theorem settles_cloneChild {active : Bool}
    (hold : ∀ c, ∀ x ∈ chains c, x.ownedBy run.id.text = false)
    (hn : DistinctHandles (run.addRules chains)) (h : Tracked run chains active false r) :
    Settles run chains (firstFault run.fault (cloneCalls run ++ (mapCalls run ++
        ((if run.config.networkBridge then networkCalls run else []) ++
          (releaseCalls run ++ readyCalls run))))) (cloneChild run active r).2 := by
  have hsame : (runCalls run.fault (cloneCalls run) r).2 = r :=
    runCalls_of_idle (by simp [cloneCalls])
  refine settles_stage (f := fun x => Prod.snd (α := Except McError Nat) (match x with
    | (.error e, r) => (.error e, cgroupDestroy active (restoreOwner (cleanupEphemeral r)))
    | (.ok (), r) => runChild run active r)) (fun s e hs _ => ?_) fun _ => ?_
  · rw [hsame]
    obtain rfl : s = .clone := by simpa [cloneCalls] using hs
    -- there is no network to destroy
    exact settles_abandon (e := e) rfl rfl hold hn h
  · rw [hsame]
    exact settles_runChild hold hn h

/-- A stage with a call that creates something which the calls behind it leave. -/
theorem settles_split {A B C : List Call} {f : Except McError Unit × Resources → Resources}
    (hfirst : ∀ s e, s ∈ A.map Call.step → (runCalls run.fault A r).1 = .error e →
      Settles run chains (some s) (f (.error e, (runCalls run.fault A r).2)))
    (hsecond : (runCalls run.fault A r).1 = .ok () → ∀ s e, s ∈ B.map Call.step →
      Settles run chains (some s)
        (f (.error e, (runCalls run.fault B (runCalls run.fault A r).2).2)))
    (hok : (runCalls run.fault A r).1 = .ok () → Settles run chains (firstFault run.fault C)
      (f (.ok (), (runCalls run.fault B (runCalls run.fault A r).2).2))) :
    Settles run chains (firstFault run.fault (A ++ (B ++ C)))
        (f (runCalls run.fault (A ++ B) r)) := by
  rw [runCalls_append]
  refine settles_stage (f := fun x => f (match x with
    | (.error e, r') => (.error e, r')
    | (.ok (), r') => runCalls run.fault B r')) hfirst fun hres => ?_
  exact settles_stage (fun s e hs _ => hsecond hres s e hs) fun _ => hok hres

section Cgroup

variable {active : Bool}

/-- The resources behind the creation of the cgroup. -/
theorem Tracked.of_released (h : (cgroupDestroy active r).Released run.id) :
    Tracked run r.chains active false r := by
  cases active with
  | true => exact ⟨fun _ => rfl, fun hlink => h.link.symm.trans hlink, rfl, h.control, h.runtime⟩
  | false =>
    exact ⟨fun hpayload => h.payload.symm.trans hpayload, fun hlink => h.link.symm.trans hlink, rfl,
      h.control, h.runtime⟩

theorem leaks_of_mem_pathCalls : ∀ s ∈ (pathCalls run).map Call.step, s.leaks = true := by
  simp [pathCalls, Step.leaks]

theorem effect_pathCalls : ∀ c ∈ pathCalls run, c.effect = id ∨
    c.effect = (fun r => { r with merged := true }) ∨
    c.effect = (fun r => { r with owner := .subordinate }) := by
  simp [pathCalls]

/-- The first two directories of `prepare_paths`. -/
theorem runCalls_work (h : (runCalls run.fault (upperCalls run ++ [workCall run]) r).1 = .ok ()) :
    (runCalls run.fault (upperCalls run ++ [workCall run]) r).2 =
      { r with upper := true, work := true } := by
  revert h
  simp only [upperCalls, workCall, List.cons_append, List.nil_append, runCalls]
  split
  · exact nofun
  · split
    · exact nofun
    · exact fun _ => rfl

theorem settles_runInCgroup (active : Bool) (h : (cgroupDestroy active r).Released run.id)
    (hn : DistinctHandles (run.addRules r.chains)) :
    Settles run r.chains (firstFault run.fault
        ((upperCalls run ++ [workCall run]) ++ (pathCalls run ++ (cloneCalls run ++ (mapCalls run ++
        ((if run.config.networkBridge then networkCalls run else []) ++
          (releaseCalls run ++ readyCalls run))))))) (runInCgroup run active r).2 := by
  have hrules : ∀ c, ∀ x ∈ r.chains c, x.ownedBy run.id.text = false := by
    have hdestroyed := h.rules
    cases active <;> exact hdestroyed
  unfold runInCgroup
  rw [List.append_cons (upperCalls run) (workCall run) (pathCalls run)]
  refine settles_split (f := fun x => Prod.snd (α := Except McError Nat) (match x with
    | (.error e, r) => (.error e, cgroupDestroy active r)
    | (.ok (), r) => cloneChild run active r)) (fun s e hs he => ?_) (fun hres s e hs => ?_)
    fun hres => ?_
  · -- `work` has not been created
    have hplain : s.leaks = false ∧ s.afterNetwork = false := by
      simp only [upperCalls, workCall, List.map_cons, List.map_nil,
        List.cons_append, List.nil_append, List.mem_cons, List.not_mem_nil, or_false] at hs
      rcases hs with rfl | rfl <;> exact ⟨rfl, rfl⟩
    refine settles_of_released hplain.1 hplain.2 ?_
    revert he
    simp only [upperCalls, workCall, List.cons_append, List.nil_append, runCalls]
    split
    · exact fun _ => h
    · split
      · intro _
        cases active <;>
          exact ⟨h.payload, h.link, h.rules, h.work, h.merged, h.control, h.runtime, h.owner⟩
      · exact nofun
  · refine settles_of_leak (leaks_of_mem_pathCalls s hs) fun hreleased => ?_
    have hkept : (runCalls run.fault (pathCalls run)
        { r with upper := true, work := true }).2.work = true :=
      runCalls_keeps_of_effect (P := fun r => r.work = true) effect_pathCalls
        (fun _ hr => hr) (fun _ hr => hr) rfl
    rw [runCalls_work hres] at hreleased
    have hwork := hreleased.work
    cases active <;> exact nomatch hkept.symm.trans hwork
  · refine settles_cloneChild hrules hn ?_
    have htracked := Tracked.of_released h
    rw [runCalls_work hres]
    exact runCalls_keeps_of_effect (P := Tracked run r.chains active false) effect_pathCalls
      (fun _ hr => ⟨hr.payload, hr.link, hr.chains, hr.control, hr.runtime⟩)
      (fun _ hr => ⟨hr.payload, hr.link, hr.chains, hr.control, hr.runtime⟩)
      ⟨htracked.payload, htracked.link, htracked.chains, htracked.control, htracked.runtime⟩

theorem leaks_of_mem_limitCalls : ∀ s ∈ (limitCalls run).map Call.step, s.leaks = true := by
  simp [limitCalls, limits, Step.leaks]

theorem idle_limitCalls : ∀ c ∈ limitCalls run, c.effect = id := by
  simp [limitCalls, limits]

/-- The calls of `mc_cgroup_create` up to the creation of the payload cgroup. -/
theorem runCalls_payload
    (h : (runCalls run.fault (scopeCalls run ++ [payloadCall run]) r).1 = .ok ()) :
    (runCalls run.fault (scopeCalls run ++ [payloadCall run]) r).2 =
      { r with supervisor := true, payload := true } := by
  revert h
  simp only [scopeCalls, payloadCall, List.cons_append, List.nil_append, runCalls]
  split
  · exact nofun
  · split
    · exact nofun
    · split
      · exact nofun
      · split
        · exact nofun
        · exact fun _ => rfl

end Cgroup

/-- The calls behind `mc_cgroup_create`. -/
def laterCalls (run : Launch) : List Call :=
  (upperCalls run ++ [workCall run]) ++ (pathCalls run ++ (cloneCalls run ++ (mapCalls run ++
    ((if run.config.networkBridge then networkCalls run else []) ++
      (releaseCalls run ++ readyCalls run)))))

/-- `mc_cgroup_create` and the calls behind it. -/
theorem settles_cgroup (h : r.Released run.id) (hn : DistinctHandles (run.addRules r.chains)) :
    Settles run r.chains (firstFault run.fault
        ((if run.skipCgroup then [] else scopeCalls run ++ payloadCall run :: limitCalls run) ++
          laterCalls run))
      (Prod.snd (α := Except McError Nat) (match cgroupCreate run r with
        | (.error e, r) => (.error e, r)
        | (.ok active, r) => runInCgroup run active r)) := by
  unfold cgroupCreate
  by_cases hskip : run.skipCgroup = true
  · rw [if_pos hskip, if_pos hskip, List.nil_append]
    exact settles_runInCgroup false h hn
  · rw [if_neg hskip, if_neg hskip,
      List.append_cons (scopeCalls run) (payloadCall run) (limitCalls run), List.append_assoc]
    refine settles_split (f := fun x => Prod.snd (α := Except McError Nat) (match
        (match x with
          | (.error e, r) => (.error e, r)
          | (.ok (), r) => (.ok true, r) : Except McError Bool × Resources) with
        | (.error e, r) => (.error e, r)
        | (.ok active, r) => runInCgroup run active r)) (fun s e hs he => ?_)
      (fun hres s e hs => ?_) fun hres => ?_
    · -- the payload cgroup has not been created
      have hplain : s.leaks = false ∧ s.afterNetwork = false := by
        simp only [scopeCalls, payloadCall, List.map_cons, List.map_nil, List.cons_append,
          List.nil_append, List.mem_cons, List.not_mem_nil, or_false] at hs
        rcases hs with rfl | rfl | rfl | rfl <;> exact ⟨rfl, rfl⟩
      refine settles_of_released hplain.1 hplain.2 ?_
      revert he
      simp only [scopeCalls, payloadCall, List.cons_append, List.nil_append, runCalls]
      have hsupervisor : ({ r with supervisor := true }).Released run.id :=
        ⟨h.payload, h.link, h.rules, h.work, h.merged, h.control, h.runtime, h.owner⟩
      split
      · exact fun _ => h
      · split
        · exact fun _ => h
        · split
          · exact fun _ => h
          · split
            · exact fun _ => hsupervisor
            · exact nofun
    · refine settles_of_leak (leaks_of_mem_limitCalls s hs) fun hreleased => ?_
      rw [runCalls_payload hres, runCalls_of_idle idle_limitCalls] at hreleased
      exact nomatch hreleased.payload
    · rw [runCalls_payload hres, runCalls_of_idle idle_limitCalls]
      exact settles_runInCgroup true ⟨rfl, h.link, h.rules, h.work, h.merged, h.control,
        h.runtime, h.owner⟩ hn

end Stages

/-! ## `mc_container_run` -/

section Run

variable (run : Launch) {r : Resources}

theorem calls_eq (h : ',' ∉ run.config.rootfs) :
    run.calls = checkCalls run ++ (subidCalls ++
      ((if run.skipCgroup then [] else scopeCalls run ++ payloadCall run :: limitCalls run) ++
        laterCalls run)) := by
  rw [Launch.calls, if_neg h, laterCalls, networkCalls]
  simp only [List.append_assoc, List.cons_append, List.nil_append]

/-- The checks in front of `mc_cgroup_create` create nothing. -/
theorem settles_check {s : Step} (hs : s ∈ (checkCalls run ++ subidCalls).map Call.step)
    (h : r.Released run.id) : Settles run r.chains (some s) r := by
  simp only [checkCalls, subidCalls, List.map_cons, List.map_nil, List.cons_append,
    List.nil_append, List.mem_cons, List.not_mem_nil, or_false] at hs
  rcases hs with rfl | rfl | rfl <;> exact settles_of_released rfl rfl h

/-- `mc_container_run` leaves none of its resources if and only if the first call that fails, if
    any, is none of those that clean-up forgets, and the rules for published ports, if they were
    added, can be removed. -/
theorem containerRun_releases_iff (h : r.Released run.id)
    (hn : DistinctHandles (run.addRules r.chains)) :
    (containerRun run r).2.Released run.id ↔
      (∀ s, run.failing = some s → s.leaks = false) ∧
      (run.published = true → Removable run.view run.id (run.addRules r.chains)) := by
  -- the first calls create nothing
  have hcheck : (runCalls run.fault (checkCalls run) r).2 = r :=
    runCalls_of_idle (by simp [checkCalls])
  have hsubid : (runCalls run.fault subidCalls r).2 = r :=
    runCalls_of_idle (by simp [subidCalls])
  by_cases hcomma : ',' ∈ run.config.rootfs
  · -- nothing is created, and none of the calls that clean-up forgets is made
    have hpublished : run.published = false := by
      simp [Launch.published, hcomma]
    have hleft : (containerRun run r).2 = r := by
      unfold containerRun
      simp only [if_pos hcomma]
      split
      · rename_i heq
        rw [heq] at hcheck
        exact hcheck
      · rename_i heq
        rw [heq] at hcheck
        exact hcheck
    rw [hleft, hpublished]
    refine iff_of_true h ⟨fun s hs => ?_, nofun⟩
    have hmem := List.mem_of_find?_eq_some hs
    rw [Launch.calls, if_pos hcomma, List.append_nil] at hmem
    simp only [checkCalls, List.map_cons, List.map_nil, List.mem_cons, List.not_mem_nil,
      or_false] at hmem
    rcases hmem with rfl | rfl <;> rfl
  · have hpublished : run.published = true ↔
        run.config.networkBridge = true ∧ run.failing.all Step.afterNetwork = true := by
      simp [Launch.published, hcomma]
    have hsettles : Settles run r.chains run.failing (containerRun run r).2 := by
      rw [Launch.failing, calls_eq run hcomma]
      unfold containerRun
      simp only [if_neg hcomma]
      refine settles_stage (f := fun x => Prod.snd (α := Except McError Nat) (match x with
        | (.error e, r) => (.error e, r)
        | (.ok (), r) =>
          match runCalls run.fault subidCalls r with
          | (.error e, r) => (.error e, r)
          | (.ok (), r) =>
            match cgroupCreate run r with
            | (.error e, r) => (.error e, r)
            | (.ok active, r) => runInCgroup run active r)) (fun s e hs _ => ?_) fun _ => ?_
      · rw [hcheck]
        exact settles_check run (List.map_append ▸ List.mem_append_left _ hs) h
      · rw [hcheck]
        refine settles_stage (f := fun x => Prod.snd (α := Except McError Nat) (match x with
          | (.error e, r) => (.error e, r)
          | (.ok (), r) =>
            match cgroupCreate run r with
            | (.error e, r) => (.error e, r)
            | (.ok active, r) => runInCgroup run active r)) (fun s e hs _ => ?_) fun _ => ?_
        · rw [hsubid]
          exact settles_check run (List.map_append ▸ List.mem_append_right _ hs) h
        · rw [hsubid]
          exact settles_cgroup h hn
    rw [hpublished]
    exact hsettles

end Run

/-- Nothing has been created. -/
def noResources : Resources where
  supervisor := false
  payload := false
  upper := false
  work := false
  merged := false
  owner := .root
  link := false
  chains _ := []
  runtime := false
  control := false

theorem released_noResources (id : ContainerId) : noResources.Released id :=
  ⟨rfl, rfl, fun _ _ hx => (nomatch hx), rfl, rfl, rfl, rfl, rfl⟩

/-- The launch of a container with two published ports in which this call fails. -/
def portsLaunch (failing : Step) : Launch where
  config :=
    { id := manyPortsId.text, name := none, rootfs := "/srv".toList, hostname := "web".toList,
      workdir := "/".toList, user := 0, group := 0, environment := [], detach := true,
      readyFd := 3, memoryMax := 1048576, swapMax := 0, cpuQuota := 100000, pidsMax := 64,
      capabilityMask := 0, readonlyRoot := false, mounts := [], seccompDenies := [],
      networkBridge := true, ipv4Host := 0x0a2c0002, publishes := manyPorts.take 2,
      command := ["/bin/sh".toList] }
  id := manyPortsId
  id_eq := rfl
  skipCgroup := false
  scope := "/sys/fs/cgroup/system.slice/web.scope".toList
  fault := (· = failing)
  view := plainView
  handles := manyHandles
  status := some 137

/-- The launcher cannot be notified: everything is released, the rules for the ports with it. -/
theorem containerRun_releases_notify :
    DistinctHandles ((portsLaunch .notify).addRules noResources.chains) ∧
    (portsLaunch .notify).failing = some .notify ∧
    (containerRun (portsLaunch .notify) noResources).2.Released manyPortsId := by
  have hdistinct : DistinctHandles ((portsLaunch .notify).addRules noResources.chains) := by
    intro c
    cases c <;> decide
  have hfailing : (portsLaunch .notify).failing = some .notify := by decide +kernel
  refine ⟨hdistinct, hfailing,
    (containerRun_releases_iff _ (released_noResources _) hdistinct).mpr ⟨?_, fun _ => ?_⟩⟩
  · rw [hfailing]
    rintro _ ⟨⟩
    rfl
  · refine (nftRemoveContainer_clears_iff plainView hdistinct).mp ?_
    intro c x hx
    have hempty : nftRemoveContainer plainView manyPortsId.text
        ((portsLaunch .notify).addRules noResources.chains) c = [] := by
      rw [← List.isEmpty_iff]
      cases c <;> decide +kernel
    exact nomatch hempty ▸ hx

/-- A limit that cannot be read back leaves the payload cgroup, and a `merged` directory that
    cannot be created leaves the `work` directory. -/
theorem containerRun_leaves_payload :
    (containerRun (portsLaunch (.verifyLimit .memory)) noResources).2.payload = true ∧
    (containerRun (portsLaunch .mergedDir) noResources).2.work = true := by
  decide +kernel

end MiniContainer.Setup
