import MiniContainer.Native.Exec
import MiniContainer.Spec.Accepted
import MiniContainer.Spec.Alone
import MiniContainer.Spec.Quiet

/-!
# Whose namespaces are entered

`mc_exec_container` checks the identity of the container's init process once and then
opens eight files by its process ID. They all belong to that process as long as the
process ID is not given away between the check and the last of them; nothing in the
code looks at the identity again, so that otherwise a foreign process is entered.
-/

namespace MiniContainer.Exec

open Contract
open CString (Text)

/-- Every opened file belongs to the init process of the record. -/
structure Entry.Recorded (entry : Entry) : Prop where
  status : entry.document.status = .running
  targets : entry.set.map Descriptor.target = targets
  initPid : ∀ d ∈ entry.set, entry.document.initPid = some d.pid
  initStart : ∀ d ∈ entry.set, entry.document.initStart = some d.process.start

/-- A worker is started for the process of the record. -/
def Op.JoinsRecorded : Op → Prop
  | .worker entry => entry.Recorded
  | _ => True

/-! ## Interference -/

/-- The process ID is unused, or still that of the process that had it before. -/
def keepsProcess (base base' : MiniContainer.World) (pid : Nat) : Bool :=
  (base'.procs pid).isNone || (base'.procs pid).map Proc.start == (base.procs pid).map Proc.start

/-- The process IDs that a process has checked are not given away, and a process that starts a
    worker has opened what belongs to the recorded process. -/
def contract : Contract Op Res World where
  inv _ := True
  rely t _ w w' := ∀ pid, (t, pid) ∈ w.checked →
    (t, pid) ∈ w'.checked ∧ keepsProcess w.base w'.base pid = true
  guar t o w w' := (∀ t' pid, t' ≠ t → (t', pid) ∈ w.checked → (t', pid) ∈ w'.checked) ∧
    o.JoinsRecorded
  admits _ _ _ _ := True

/-- The process ID was checked, and is still that of the process that started then, if any. -/
structure Held (t : Tid) (pid start : Nat) (w : World) : Prop where
  checked : (t, pid) ∈ w.checked
  startTime : ∀ p, w.base.procs pid = some p → p.start = start

section Triples

variable {host : Host} {build : Build} {t : Tid} {pid start : Nat}

theorem stable_held (o : Op) : contract.Stable t o (Held t pid start) := by
  intro w w' _ _ hrely h
  obtain ⟨hchecked, hkeeps⟩ := hrely pid h.checked
  refine ⟨hchecked, fun p hp => ?_⟩
  simp only [keepsProcess, hp, Option.isNone_some, Option.map_some, Bool.false_or,
    beq_iff_eq] at hkeeps
  obtain ⟨p₀, hp₀, hstart⟩ := Option.map_eq_some_iff.mp hkeeps.symm
  rw [← hstart]
  exact h.startTime p₀ hp₀

/-- What an operation of the registry does. -/
theorem step_registry_inv {ch : Choice} {w w' : World} {o : MiniContainer.Op}
    {r : MiniContainer.Res o} (h : step ch w t (.registry o) = some (r, w')) :
    ∃ base, MiniContainer.step ch w.base t o = some (r, base) ∧ w' = { w with base } := by
  simp only [step, Option.map_eq_some_iff, Prod.mk.injEq, Prod.exists] at h
  obtain ⟨r', base, hstep, rfl, rfl⟩ := h
  exact ⟨base, hstep, rfl⟩

/-- The programs of the registry check nothing. -/
theorem triple_registry {α : Type} (p : MiniContainer.Action α) :
    contract.Triple (machine host build) t (fun _ => True) (registry p) (fun _ _ => True) := by
  have huses : (registry p).Uses fun o => ∃ o', o = .registry o' :=
    p.uses_true.translate fun o _ => ⟨o, rfl⟩
  refine Triple.of_uses huses (fun _ _ _ _ _ _ _ h => h) ?_
  rintro o ⟨o, rfl⟩ ch w r w' - - hstep -
  obtain ⟨base, -, rfl⟩ := step_registry_inv hstep
  exact ⟨trivial, ⟨fun _ _ _ h => h, trivial⟩, trivial⟩

/-- Those that only read leave a checked process as it is. -/
theorem triple_reads {α : Type} {p : MiniContainer.Action α} (hp : Reads p) :
    contract.Triple (machine host build) t (Held t pid start) (registry p)
      (fun _ => Held t pid start) := by
  have huses : (registry p).Uses fun o => ∃ o', o = .registry o' ∧ o'.reads = true :=
    hp.translate fun o ho => ⟨o, rfl, ho⟩
  refine Triple.of_uses huses (fun o _ => stable_held o) ?_
  rintro o ⟨o, rfl, ho⟩ ch w r w' - hw hstep -
  obtain ⟨base, hbase, rfl⟩ := step_registry_inv hstep
  obtain rfl := eq_of_step_reads ho hbase
  exact ⟨trivial, ⟨fun _ _ _ h => h, trivial⟩, hw⟩

/-- The check of the identity. -/
theorem triple_checkStart :
    contract.Triple (machine host build) t (fun _ => True) (perform (.checkStart pid start))
      (fun same w => if same then Held t pid start w else True) := by
  refine Triple.perform (fun _ _ _ _ _ h => h) fun ch w r w' _ _ hstep _ => ?_
  simp only [machine, step] at hstep
  split at hstep
  · rename_i heq
    cases hstep
    refine ⟨trivial, ⟨fun _ _ _ h => List.mem_cons_of_mem _ h, trivial⟩, List.mem_cons_self,
      fun p hp => ?_⟩
    change w.base.procs pid = some p at hp
    simpa only [World.startTime, hp] using heq
  · cases hstep
    exact ⟨trivial, ⟨fun _ _ _ h => h, trivial⟩, trivial⟩

/-- What `mc_state_runtime` has found. -/
def Runtime.Checked (runtime : Runtime) (t : Tid) (w : World) : Prop :=
  runtime.document.status = .running ∧ runtime.document.initPid = some runtime.initPid ∧
    ∃ start, runtime.document.initStart = some start ∧ Held t runtime.initPid start w

theorem triple_stateRuntime (reference : Text) :
    contract.Triple (machine host build) t (fun _ => True) (stateRuntime reference).run
      (Ends (fun runtime => runtime.Checked t) fun _ => True) := by
  unfold stateRuntime
  refine Triple.exceptLift (triple_registry _) fun resolved => ?_
  cases resolved with
  | error e => exact Triple.exceptThrow fun _ _ _ => trivial
  | ok id =>
    refine Triple.exceptLift (triple_registry (MiniContainer.perform (.readState id)))
      fun read => ?_
    cases read with
    | none => exact Triple.exceptThrow fun _ _ _ => trivial
    | some document =>
      dsimp only
      split
      · rename_i initPid initStart cgroup hstatus hpid hstart hcgroup
        split
        · exact Triple.exceptThrow fun _ _ _ => trivial
        · refine Triple.exceptLift triple_checkStart fun same => ?_
          cases same with
          | true =>
            exact Triple.exceptPure fun w _ h => ⟨hstatus, hpid, initStart, hstart, h⟩
          | false => exact Triple.exceptThrow fun _ _ _ => trivial
      · exact Triple.exceptThrow fun _ _ _ => trivial

/-- The descriptor was opened for the process. -/
structure Descriptor.Of (d : Descriptor) (pid start : Nat) (target : Target) : Prop where
  kind : d.target = target
  processId : d.pid = pid
  startTime : d.process.start = start

theorem triple_openTarget (target : Target) :
    contract.Triple (machine host build) t (Held t pid start) (perform (.openTarget target pid))
      (fun d w => (∀ d', d = some d' → d'.Of pid start target) ∧ Held t pid start w) := by
  refine Triple.perform (stable_held _) fun ch w r w' _ hw hstep _ => ?_
  simp only [machine, step] at hstep
  have hguar : contract.guar t (.openTarget target pid) w w := ⟨fun _ _ _ h => h, trivial⟩
  split at hstep
  · cases hstep
    exact ⟨trivial, hguar, nofun, hw⟩
  · rename_i process hprocess
    cases hstep
    refine ⟨trivial, hguar, fun d' hd' => ?_, hw⟩
    split at hd'
    · cases hd'
      exact ⟨rfl, rfl, hw.startTime process hprocess⟩
    · exact nomatch hd'

theorem triple_openTargets (ts : List Target) :
    contract.Triple (machine host build) t (Held t pid start) (openTargets pid ts)
      (fun ds w => List.Forall₂ (fun target d => ∀ d', d = some d' → d'.Of pid start target) ts ds ∧
        Held t pid start w) := by
  induction ts with
  | nil => exact Triple.ret fun _ _ h => ⟨.nil, h⟩
  | cons target ts ih =>
    refine Triple.bind (triple_openTarget target) fun d => ?_
    intro w hi h
    refine (Triple.bind ih fun ds => ?_) w hi h.2
    exact Triple.ret fun _ _ hds => ⟨.cons h.1 hds.1, hds.2⟩

/-- All of them are there. -/
theorem of_mapM {ts : List Target} {ds : List (Option Descriptor)} {set : List Descriptor}
    (h : List.Forall₂ (fun target d => ∀ d', d = some d' → d'.Of pid start target) ts ds)
    (hset : ds.mapM id = some set) :
    set.map Descriptor.target = ts ∧ ∀ d ∈ set, d.pid = pid ∧ d.process.start = start := by
  induction h generalizing set with
  | nil =>
    cases hset
    exact ⟨rfl, nofun⟩
  | @cons target d ts ds hd _ ih =>
    simp only [List.mapM_cons, id_eq, Option.bind_eq_bind, Option.bind_eq_some_iff,
      Option.pure_def, Option.some.injEq] at hset
    obtain ⟨d', rfl, set', hset', rfl⟩ := hset
    have hof := hd d' rfl
    obtain ⟨htargets, hall⟩ := ih hset'
    refine ⟨by rw [List.map_cons, hof.kind, htargets], fun e he => ?_⟩
    rcases List.mem_cons.mp he with rfl | he
    · exact ⟨hof.processId, hof.startTime⟩
    · exact hall e he

/-- A process unchecks its own process ID. -/
theorem mem_uncheck {w : World} {t' : Tid} (hne : t' ≠ t) (h : (t', pid) ∈ w.checked) :
    (t', pid) ∈ (w.uncheck t).checked :=
  List.mem_filter.mpr ⟨h, by simpa using hne⟩

theorem triple_worker {entry : Entry} (h : entry.Recorded) :
    contract.Triple (machine host build) t (fun _ => True) (perform (.worker entry))
      (fun _ _ => True) := by
  refine Triple.perform (fun _ _ _ _ _ h => h) fun ch w r w' _ _ hstep _ => ?_
  cases hstep
  exact ⟨trivial, ⟨fun _ _ hne hmem => mem_uncheck hne hmem, h⟩, trivial⟩

theorem triple_closeNamespaces :
    contract.Triple (machine host build) t (fun _ => True) (perform .closeNamespaces)
      (fun _ _ => True) := by
  refine Triple.perform (fun _ _ _ _ _ h => h) fun ch w r w' _ _ hstep _ => ?_
  cases hstep
  exact ⟨trivial, ⟨fun _ _ hne hmem => mem_uncheck hne hmem, trivial⟩, trivial⟩

theorem triple_enterNamespaces {runtime : Runtime} {config : RunConfig} {command : List Text}
    {ds : List (Option Descriptor)} (hstatus : runtime.document.status = .running)
    (hpid : runtime.document.initPid = some pid) (hstart : runtime.document.initStart = some start)
    (h : List.Forall₂ (fun target d => ∀ d', d = some d' → d'.Of pid start target) targets ds) :
    contract.Triple (machine host build) t (fun _ => True)
      (enterNamespaces runtime config command ds).run (Ends (fun _ _ => True) fun _ => True) := by
  unfold enterNamespaces
  split
  · exact Triple.exceptLift triple_closeNamespaces fun _ =>
      Triple.exceptThrow fun _ _ _ => trivial
  · rename_i set hset
    obtain ⟨htargets, hall⟩ := of_mapM h hset
    have hrecorded : Entry.Recorded ⟨runtime.document, set, runtime.cgroup, config, command⟩ :=
      ⟨hstatus, htargets, fun d hd => by rw [hpid, (hall d hd).1],
        fun d hd => by rw [hstart, (hall d hd).2]⟩
    refine Triple.exceptLift (triple_worker hrecorded) fun ended => ?_
    cases ended with
    | none => exact Triple.exceptThrow fun _ _ _ => trivial
    | some status => exact Triple.exceptPure fun _ _ _ => trivial

theorem triple_execContainer (root : Bool) (reference : Text) (command : List Text) :
    contract.Triple (machine host build) t (fun _ => True)
      (execContainer root reference command).run (Ends (fun _ _ => True) fun _ => True) := by
  unfold execContainer
  split
  · exact Triple.exceptThrow fun _ _ _ => trivial
  refine Triple.exceptBind (triple_stateRuntime reference) fun runtime => ?_
  rintro w hi ⟨hstatus, hpid, start, hstart, hheld⟩
  refine Triple.exceptLift (triple_reads (reads_loadConfig _)) (fun loaded => ?_)
    w hi hheld
  cases loaded with
  | error e => exact Triple.exceptThrow fun _ _ _ => trivial
  | ok loaded =>
    refine Triple.exceptLift (triple_openTargets targets) fun ds => ?_
    exact fun w hi hds => triple_enterNamespaces hstatus hpid hstart hds.1 w hi trivial

/-- Every program that runs on the machine. -/
theorem triple_prog (c : Cmd) :
    contract.Triple (machine host build) t (fun _ => True) ((machine host build).prog c)
      (fun _ _ => True) := by
  cases c with
  | registry c => exact triple_registry _
  | exec root args =>
    have hexit : ∀ outcome : Outcome, contract.Triple (machine host build) t (fun _ => True)
        (perform (.registry (.exit outcome.code))) (fun _ _ => True) := fun outcome =>
      triple_registry (MiniContainer.perform (.exit outcome.code))
    have hcommand : contract.Triple (machine host build) t (fun _ => True)
        (execCommand root args) (fun _ _ => True) := by
      unfold execCommand
      split
      · split
        · exact Triple.bind (triple_execContainer _ _ _) fun _ =>
            Triple.ret fun _ _ _ => trivial
        · exact Triple.ret fun _ _ _ => trivial
      · exact Triple.ret fun _ _ _ => trivial
    exact Triple.bind hcommand fun outcome => Triple.bind (hexit outcome)
      fun _ => Triple.ret fun _ _ _ => trivial

end Triples

/-! ## Runs -/

/-- No process ID that was checked by a process which is still opening files is given to another
    process. -/
def keepsChecked (host : Host) (build : Build) (S : Sys Op Res Outcome World)
    (e : Event Choice Cmd) : Bool :=
  ((machine host build).worldAfter S e).all fun w => S.world.checked.all fun (t, pid) =>
    (S.pending t).isNone || keepsProcess S.world.base w.base pid

section Runs

variable {host : Host} {build : Build} {S : Sys Op Res Outcome World} {e : Event Choice Cmd}

theorem keepsProcess_of_keepsChecked {w : World} (h : keepsChecked host build S e = true)
    (hw : (machine host build).worldAfter S e = some w) {t : Tid} {o : Op}
    {k : Res o → Action Outcome} (hpool : S.pool t = some (.act o k)) {pid : Nat}
    (hmem : (t, pid) ∈ S.world.checked) : keepsProcess S.world.base w.base pid = true := by
  simp only [keepsChecked, hw, Option.all_some, List.all_eq_true, Bool.or_eq_true] at h
  have hpending : (S.pending t).isNone = false := by
    simp [Sys.pending, hpool, Prog.head]
  rcases h _ hmem with hnone | hkeeps
  · exact nomatch hpending.symm.trans hnone
  · exact hkeeps

/-- A new process checks nothing. -/
theorem checked_enter {ch : Choice} {w w' : World} {t : Tid} {c : Cmd}
    (h : (machine host build).enter ch w t c = some w') : w'.checked = w.checked := by
  cases c with
  | registry c =>
    simp only [machine, Option.map_eq_some_iff] at h
    obtain ⟨base, -, rfl⟩ := h
    rfl
  | exec root args =>
    simp only [machine] at h
    split at h
    · cases h
      rfl
    · exact nomatch h

theorem sound (host : Host) (build : Build) :
    contract.Sound (machine host build) (fun S e => keepsChecked host build S e = true) where
  admits _ _ _ _ _ _ _ _ _ _ := trivial
  compat S t ch o k r w hok hpool hstep _ _ hguar t' o' k' hne hpool' pid hmem :=
    ⟨hguar.1 t' pid hne hmem, keepsProcess_of_keepsChecked hok
      (Machine.worldAfter_act _ hpool hstep) hpool' hmem⟩
  spawn ch w t o r w' t' c _ _ _ _ _ := triple_prog c w' trivial trivial
  enter S t c ch w hok _ henter := by
    refine ⟨trivial, triple_prog c w trivial trivial, fun t' o' k' _ hpool' pid hmem => ?_⟩
    exact ⟨checked_enter henter ▸ hmem, keepsProcess_of_keepsChecked hok henter hpool' hmem⟩
  kill S t hok _ := ⟨trivial, fun t' o' k' _ hpool' pid hmem =>
    ⟨hmem, keepsProcess_of_keepsChecked hok rfl hpool' hmem⟩⟩
  env S ch w hok _ henv := by
    refine ⟨trivial, fun t' o' k' hpool' pid hmem => ?_⟩
    have hkeeps := keepsProcess_of_keepsChecked hok henv hpool' hmem
    simp only [machine, Option.map_eq_some_iff] at henv
    obtain ⟨base, -, rfl⟩ := henv
    exact ⟨hmem, hkeeps⟩

/-- In a run in which no process ID is given away between the check of its identity and the last
    of the files that are opened by it, every worker joins the namespaces and the root of the
    init process of the record. -/
theorem exec_joins_recorded (h : (machine host build).Reach
      (fun S e => keepsChecked host build S e = true) initialSystem S) {t : Tid} {entry : Entry}
    {k : Res (.worker entry) → Action Outcome}
    (hpool : S.pool t = some (.act (.worker entry) k)) : entry.Recorded := by
  have hinitial : contract.SafeSys (machine host build) initialSystem := ⟨trivial, nofun⟩
  have hsafe := ((sound host build).reach hinitial h).2 t _ hpool
  exact (hsafe S.world .refl trivial {} _ _ rfl trivial).2.1.2

end Runs

/-- A process is about to start a worker, for an entry that passes a test. -/
def joining (t : Tid) (test : Entry → Bool) (S : Sys Op Res Outcome World) : Bool :=
  match S.pool t with
  | some (.act (.worker entry) _) => test entry
  | _ => false

theorem exists_of_joining {t : Tid} {test : Entry → Bool} {S : Sys Op Res Outcome World}
    (h : joining t test S = true) :
    ∃ entry k, S.pool t = some (.act (.worker entry) k) ∧ test entry = true := by
  unfold joining at h
  split at h
  · rename_i entry k hpool
    exact ⟨entry, k, hpool, h⟩
  · exact nomatch h

/-- `run` in the foreground up to the wait for the container, with the shim 2 and the init process
    103, and `exec` up to the check of the identity. -/
def execChecked : List (Event Choice Cmd) :=
  .enter 1 (.registry (.cli true (["run", "--image", "alpine", "--", "sh"].map String.toList)))
      { pid := 101, start := 1 } ::
    List.replicate 14 (.act 1 { tid := 2, pid := 102, start := 2 }) ++
    List.replicate 20 (.act 2 { pid := 103, start := 3 }) ++
  .enter 3 (.exec true (["00", "--", "id"].map String.toList)) { pid := 104, start := 4 } ::
    List.replicate 3 (.act 3 {})

/-- The container is entered. -/
theorem exec_joins_recorded_alpine :
    ∃ S entry k, (machine plainHost plainBuild).Reach
        (fun S e => keepsChecked plainHost plainBuild S e = true) initialSystem S ∧
      S.pool 3 = some (.act (.worker entry) k) ∧ entry.document.initPid = some 103 ∧
      entry.Recorded := by
  have hrun : ((machine plainHost plainBuild).runWhile (keepsChecked plainHost plainBuild)
      (execChecked ++ List.replicate 10 (.act 3 {})) initialSystem).any
      (joining 3 fun entry => entry.document.initPid == some 103) = true := by
    decide +kernel
  obtain ⟨S, hS, hjoining⟩ := Machine.exists_reach_of_runWhile _ hrun
  obtain ⟨entry, k, hpool, hpid⟩ := exists_of_joining hjoining
  exact ⟨S, entry, k, hS, hpool, beq_iff_eq.mp hpid, exec_joins_recorded hS hpool⟩

/-- The init process exits behind the check and its process ID goes to another process: all that
    is opened belongs to that one. -/
theorem exec_joins_foreign :
    ∃ S entry k, (machine plainHost plainBuild).Reach (fun _ _ => True) initialSystem S ∧
      S.pool 3 = some (.act (.worker entry) k) ∧ entry.document.initStart = some 3 ∧
      entry.set.map Descriptor.target = targets ∧ ∀ d ∈ entry.set, d.process.start = 9 := by
  have hrun : ((machine plainHost plainBuild).run (execChecked ++
        .env { pid := 103, answer := false } :: .env { pid := 103, start := 9 } ::
        List.replicate 10 (.act 3 {})) initialSystem).any
      (joining 3 fun entry => entry.document.initStart == some 3 &&
        entry.set.map Descriptor.target == targets &&
        entry.set.all (·.process.start == 9)) = true := by
    decide +kernel
  obtain ⟨S, hS, hjoining⟩ := Machine.exists_reach_of_run _ hrun
  obtain ⟨entry, k, hpool, htest⟩ := exists_of_joining hjoining
  simp only [Bool.and_eq_true, beq_iff_eq, List.all_eq_true] at htest
  exact ⟨S, entry, k, hS, hpool, htest.1.1, htest.1.2, htest.2⟩

end MiniContainer.Exec
