import MiniContainer.Native.Main
import MiniContainer.Spec.Rules

/-!
# The operations of the programs

Which programs only read, which repair, and which keep the registry lock and the
configurations. Only the critical section of `run` and `create` stores a configuration;
every other operation leaves each configuration as it is or removes it. A program is
quiet when, moreover, it does not give the registry lock back; everything between the
two lock operations of a command is quiet, and so is all that a shim does.
-/

namespace MiniContainer

open CString (Text)
open JsonC (Value)

/-- The operation stores a configuration. -/
def Op.stores : Op → Bool
  | .commit _ (.config _) => true
  | _ => false

/-- The operation gives the registry lock back. -/
def Op.releases : Op → Bool
  | .unlockRegistry | .exit _ => true
  | _ => false

/-- No operation of the program stores a configuration. -/
abbrev Settled {α : Type} (p : Action α) : Prop := p.Uses fun o => o.stores = false

/-- No operation of the program stores a configuration or gives the registry lock back. -/
abbrev Quiet {α : Type} (p : Action α) : Prop :=
  p.Uses fun o => (o.stores || o.releases) = false

theorem Quiet.settled {α : Type} {p : Action α} (h : Quiet p) : Settled p :=
  h.mono fun _ ho => (Bool.or_eq_false_iff.mp ho).1

theorem Quiet.perform {o : Op} (h : (o.stores || o.releases) = false) : Quiet (perform o) :=
  uses_perform.mpr h

/-! ## Programs that only read -/

/-- The operation reads and leaves the world as it is. -/
def Op.reads : Op → Bool
  | .opendir | .readConfig _ | .readState _ | .startTime _ _ _ | .clock | .bindProbe _
  | .control _ _ => true
  | _ => false

/-- An operation that reads leaves the world as it is. -/
theorem eq_of_step_reads {ch : Choice} {w w' : World} {t : Tid} {o : Op} {r : Res o}
    (ho : o.reads = true) (h : step ch w t o = some (r, w')) : w' = w := by
  cases o with
  | opendir | control => simp only [step] at h; grind
  | readConfig | readState | startTime | clock | bindProbe =>
    cases h
    rfl
  | _ => cases ho

/-- No operation of the program changes the world. -/
abbrev Reads {α : Type} (p : Action α) : Prop := p.Uses fun o => o.reads = true

theorem reads_anyConfigIn (found : Option Value → Bool) (own : Name) (names : List Name) :
    Reads (anyConfigIn found own names) := by
  induction names with
  | nil => trivial
  | cons d ds ih =>
    rw [anyConfigIn]
    split
    · exact ih
    · refine .perform_bind rfl fun document => ?_
      split
      · trivial
      · exact ih

theorem reads_anyConfig (found : Option Value → Bool) (own : Name) :
    Reads (anyConfig found own) := by
  refine .perform_bind rfl fun listing => ?_
  cases listing with
  | absent | failed => trivial
  | entries names => exact reads_anyConfigIn found own names

theorem reads_nameIsTaken (name : Option Text) (own : Name) :
    Reads (nameIsTaken name own) := by
  cases name with
  | none => trivial
  | some name => exact reads_anyConfig _ own

theorem reads_publishedPortIsTaken (config : RunConfig) :
    Reads (publishedPortIsTaken config) := by
  rw [publishedPortIsTaken]
  split
  · trivial
  · exact reads_anyConfig _ config.id

theorem reads_hostPortsAreAvailable (publishes : List Publish) :
    Reads (hostPortsAreAvailable publishes) := by
  induction publishes with
  | nil => trivial
  | cons p ps ih =>
    refine .perform_bind rfl fun available => ?_
    split
    · exact ih
    · trivial

theorem reads_resolveIn (reference : Text) (names : List Name) (id : Name) (found : Nat) :
    Reads (resolveIn reference names id found) := by
  induction names generalizing id found with
  | nil => trivial
  | cons d ds ih =>
    rw [resolveIn]
    split
    · exact ih id found
    · split
      · exact ih d (found + 1)
      · refine .perform_bind rfl fun document => ?_
        split
        · exact ih d (found + 1)
        · exact ih id found

theorem reads_resolve (reference : Text) :
    Reads (resolve reference) := by
  rw [resolve]
  split
  · trivial
  · refine .perform_andThen rfl fun listing => ?_
    cases listing with
    | absent | failed => trivial
    | entries names =>
      refine .lift_andThen (reads_resolveIn reference names [] 0) fun (id, found) => ?_
      dsimp only
      split
      · trivial
      · split <;> trivial

theorem reads_identityHolds (site : Site) (c : Name) (pid start : Nat) :
    Reads (identityHolds site c pid start) := by
  rw [identityHolds]
  split
  · trivial
  · exact .perform_bind rfl fun _ => trivial

theorem reads_signal (reference : Text) (number : Nat) :
    Reads (signal reference number) := by
  refine .andThen (uses_reportAs (reads_resolve reference)) fun id =>
    .perform_andThen rfl fun document => ?_
  split
  · trivial
  · split
    · split
      · trivial
      · refine .lift_andThen (reads_identityHolds _ _ _ _) fun holds => ?_
        split
        · refine .perform_andThen rfl fun answer => ?_
          split <;> trivial
        · trivial
    · trivial

theorem reads_getStatus (c : Name) : Reads (getStatus c) := by
  refine .perform_andThen rfl fun document => ?_
  cases document <;> trivial

theorem reads_loadConfig (reference : Text) : Reads (loadConfig reference) := by
  refine .andThen (reads_resolve reference) fun id => .perform_andThen rfl fun document => ?_
  split <;> trivial

theorem reads_usedAddresses (names : List Name) : Reads (usedAddresses names) := by
  induction names with
  | nil => trivial
  | cons d ds ih =>
    rw [usedAddresses]
    split
    · exact ih
    · exact .perform_bind rfl fun _ => ih.bind fun _ => trivial

/-- Nothing is stored or given back by reading. -/
theorem Reads.quiet {α : Type} {p : Action α} (h : Reads p) : Quiet p := by
  refine h.mono fun o ho => ?_
  cases o <;> first | rfl | exact nomatch ho

/-! ## The store -/

theorem quiet_containerLock (c : Name) : Quiet (containerLock c) :=
  .andThen (uses_check (Quiet.perform rfl)) fun _ => uses_check (Quiet.perform rfl)

/-- The operations of a reconcile pass. -/
def Op.repairs : Op → Bool
  | .opendir | .readState _ | .startTime .reconcile _ _ | .killCgroup _ _
  | .createTemporary _ (.state .reconcile _) | .commit _ (.state .reconcile _)
  | .remove .reconcile _ _ => true
  | _ => false

/-- A program made of such operations. -/
abbrev Repairs {α : Type} (p : Action α) : Prop := p.Uses fun o => o.repairs = true

theorem repairs_killStaleCgroup (c : Name) (document : StateDoc) :
    Repairs (killStaleCgroup c document) := by
  rw [killStaleCgroup]
  split
  · trivial
  · split
    · exact uses_perform.mpr rfl
    · trivial

theorem repairs_cleanUp (c : Name) : Repairs (cleanUp c) := by
  simp [cleanUp, Prog.bind_eq, perform, Prog.perform, Op.repairs]

theorem repairs_repair (c : Name) (document : StateDoc) : Repairs (repair c document) := by
  refine .lift_andThen (repairs_killStaleCgroup c document) fun _ => .andThen ?_ fun _ =>
    (repairs_cleanUp c).bind fun _ => trivial
  refine .andThen (uses_check (uses_perform.mpr rfl)) fun _ => .perform_andThen rfl fun fault => ?_
  cases fault <;> trivial

theorem repairs_reconcileEntry (c : Name) : Repairs (reconcileEntry c) := by
  refine .perform_andThen rfl fun document => ?_
  split
  · trivial
  · split
    · refine .lift_andThen ?_ fun holds => ?_
      · rw [identityHolds]
        split
        · trivial
        · exact .perform_bind rfl fun _ => trivial
      · split
        · trivial
        · exact .andThen (repairs_repair c _) fun _ => trivial
    · trivial

theorem repairs_reconcileIn (names : List Name) (repaired : Nat) :
    Repairs (reconcileIn names repaired) := by
  induction names generalizing repaired with
  | nil => trivial
  | cons d ds ih =>
    rw [reconcileIn]
    split
    · exact ih repaired
    · refine .andThen (repairs_reconcileEntry d) fun stale => ?_
      split
      · exact ih (repaired + 1)
      · exact ih repaired

theorem repairs_reconcile : Repairs reconcile := by
  refine .perform_andThen rfl fun listing => ?_
  cases listing with
  | absent | failed => trivial
  | entries names => exact repairs_reconcileIn names 0

theorem Op.repairs_quiet {o : Op} (h : o.repairs = true) : (o.stores || o.releases) = false := by
  unfold Op.repairs at h
  split at h
  · rfl
  · rfl
  · rfl
  · rfl
  · rfl
  · rfl
  · rfl
  · exact nomatch h

theorem quiet_reconcile : Quiet reconcile := repairs_reconcile.mono fun _ => Op.repairs_quiet

/-- The calls of `mc_state_remove`. -/
def Op.removes : Op → Bool
  | .walk _ | .unlink _ _ | .rmdir _ | .removeLog _ => true
  | _ => false

theorem removes_unlinkAll (c : Name) (leaves : List Leaf) :
    (unlinkAll c leaves).Uses fun o => o.removes = true := by
  induction leaves with
  | nil => trivial
  | cons leaf leaves ih =>
    refine .perform_bind rfl fun removed => ?_
    split
    · exact ih
    · trivial

theorem removes_remove (c : Name) : Prog.Uses (fun o => o.removes = true) (remove c) := by
  refine .andThen (uses_check (.perform_bind rfl fun leaves => ?_)) fun _ =>
    uses_check (uses_perform.mpr rfl)
  split
  · trivial
  · refine (removes_unlinkAll c _).bind fun removed => ?_
    split
    · exact uses_perform.mpr rfl
    · trivial

theorem quiet_remove (c : Name) : Quiet (remove c) := by
  refine (removes_remove c).mono fun o ho => ?_
  cases o <;> first | rfl | exact nomatch ho

/-! ## Shims -/

/-- The operations of a shim. -/
def Op.supervises : Op → Bool
  | .createTemporary _ (.state _ _) | .commit _ (.state _ _) | .startTime _ _ _ | .remove _ _ _
  | .pipe | .checkHost | .createCgroup _ | .destroyCgroup _ | .makeDir _ _ | .chown _ | .cloneInit
  | .mapIds | .createVeth _ | .addRules _ | .releaseChild | .childReady | .openControl _ | .self
  | .notify | .closeReady | .waitChild => true
  | _ => false

/-- A program made of such operations. -/
abbrev Supervises {α : Type} (p : Action α) : Prop := p.Uses fun o => o.supervises = true

/-- A shim stores no configuration and holds no lock of the registry. -/
theorem Supervises.quiet {α : Type} {p : Action α} (h : Supervises p) : Quiet p := by
  refine h.mono fun o ho => ?_
  unfold Op.supervises at ho
  split at ho <;> first | rfl | exact nomatch ho

theorem supervises_writeAtomic_state (c : Name) (writer : Writer) (document : StateDoc) :
    Supervises (writeAtomic c (.state writer document)) := by
  refine .andThen (uses_check (uses_perform.mpr rfl)) fun _ => .perform_andThen rfl fun fault => ?_
  cases fault <;> trivial

theorem supervises_writeState (config : RunConfig) (writer : Writer) (status : Status)
    (cgroup : Text) (init code : Nat) :
    Supervises (writeState config writer status cgroup init code) :=
  .perform_andThen rfl fun _ => .perform_andThen rfl fun _ => .perform_andThen rfl fun _ =>
    supervises_writeAtomic_state _ _ _

theorem supervises_cleanupEphemeral (c : Name) : Supervises (cleanupEphemeral c) :=
  .perform_bind rfl fun _ => uses_perform.mpr rfl

theorem supervises_networkDestroy (active : Bool) (c : Name) :
    Supervises (networkDestroy active c) := by
  rw [networkDestroy]
  split
  · exact .perform_bind rfl fun _ => uses_perform.mpr rfl
  · trivial

theorem supervises_cgroupDestroy (path : Text) : Supervises (cgroupDestroy path) := by
  rw [cgroupDestroy]
  split
  · trivial
  · exact uses_perform.mpr rfl

theorem supervises_preparePaths (c : Name) : Supervises (preparePaths c) := by
  refine .andThen (uses_check (uses_perform.mpr rfl)) fun _ =>
    .andThen (uses_check (uses_perform.mpr rfl)) fun _ =>
    .andThen (uses_check (uses_perform.mpr rfl)) fun _ =>
    .andThen (uses_check (uses_perform.mpr rfl)) fun _ => .perform_andThen rfl fun fd => ?_
  cases fd <;> trivial

theorem supervises_networkFailure (c : Name) (e : McError) : Supervises (networkFailure c e) :=
  .perform_andThen rfl fun _ => .perform_andThen rfl fun _ => trivial

theorem supervises_setupChild (config : RunConfig) : Supervises (setupChild config) := by
  refine .andThen (uses_check (uses_perform.mpr rfl)) fun _ => ?_
  split
  · refine .perform_andThen rfl fun created => ?_
    split
    · split
      · trivial
      · refine .perform_andThen rfl fun added => ?_
        split
        · trivial
        · exact supervises_networkFailure _ _
    · exact supervises_networkFailure _ _
  · trivial

theorem supervises_abandon (config : RunConfig) (cgroup : Text) (active : Bool) (e : McError) :
    Supervises (abandon config cgroup active e) :=
  .perform_bind rfl fun _ => (supervises_cleanupEphemeral _).bind fun _ =>
    (supervises_networkDestroy _ _).bind fun _ => .perform_bind rfl fun _ =>
    (supervises_cgroupDestroy cgroup).bind fun _ => trivial

theorem supervises_recordRunning (config : RunConfig) (cgroup : Text) (init : Nat) :
    Supervises (recordRunning config cgroup init) := by
  refine .perform_bind rfl fun ready => ?_
  split
  · refine .perform_bind rfl fun opened => ?_
    split
    · refine (supervises_writeState _ _ _ _ _ _).bind fun written => ?_
      split <;> trivial
    · trivial
  · trivial

theorem supervises_announce (config : RunConfig) (ready : Bool) :
    Supervises (announce config ready) := by
  rw [announce]
  split
  · split
    · exact .perform_bind rfl fun _ => .perform_bind rfl fun _ => trivial
    · exact .perform_bind rfl fun _ => trivial
  · trivial

theorem supervises_finish (config : RunConfig) (cgroup : Text) (init : Nat) (ready : Bool)
    (status : Option Nat) : Supervises (finish config cgroup init ready status) := by
  refine .perform_bind rfl fun _ => .perform_bind rfl fun _ =>
    (supervises_cgroupDestroy cgroup).bind fun _ => (supervises_networkDestroy _ _).bind fun _ =>
    (supervises_cleanupEphemeral _).bind fun _ => .perform_bind rfl fun _ =>
    (supervises_writeState _ _ _ _ _ _).bind fun _ => ?_
  cases status <;> trivial

theorem supervises_supervise (config : RunConfig) (cgroup : Text) (init : Nat) :
    Supervises (supervise config cgroup init) := by
  exact (supervises_recordRunning _ _ _).bind fun _ => (supervises_announce _ _).bind fun _ =>
    .perform_bind rfl fun _ => supervises_finish _ _ _ _ _

theorem supervises_runInCgroup (config : RunConfig) (cgroup : Text) :
    Supervises (runInCgroup config cgroup) := by
  refine (supervises_preparePaths config.id).bind fun
    | .error _ => (supervises_cgroupDestroy cgroup).bind fun _ => trivial
    | .ok () => .perform_bind rfl fun
      | none => (supervises_cleanupEphemeral _).bind fun _ => .perform_bind rfl fun _ =>
          (supervises_cgroupDestroy cgroup).bind fun _ => trivial
      | some init => (supervises_setupChild config).bind fun
        | .error e => supervises_abandon _ _ _ _
        | .ok () => .perform_bind rfl fun released => ?_
  split
  · exact supervises_supervise _ _ _
  · exact supervises_abandon _ _ _ _

theorem supervises_containerRun (config : RunConfig) : Supervises (containerRun config) := by
  have hchecks : Supervises (runChecks config) := by
    refine .andThen (uses_check (uses_perform.mpr rfl)) fun _ =>
      .andThen (uses_check (uses_perform.mpr rfl)) fun _ => ?_
    split
    · trivial
    · exact uses_check (uses_perform.mpr rfl)
  exact hchecks.bind fun
    | .error _ => trivial
    | .ok () => .perform_bind rfl fun
      | none => trivial
      | some cgroup => supervises_runInCgroup config cgroup

theorem supervises_shimRun (config : RunConfig) : Supervises (shimRun config) := by
  rw [shimRun]
  split
  · exact .perform_bind rfl fun
      | none => trivial
      | some _ => supervises_containerRun config
  · exact supervises_containerRun config

theorem quiet_writeAtomic_state (c : Name) (writer : Writer) (document : StateDoc) :
    Quiet (writeAtomic c (.state writer document)) :=
  (supervises_writeAtomic_state c writer document).quiet

/-! ## Commands -/

theorem quiet_underContainer {α : Type} (c : Name) {p : Attempt α} (hp : Quiet p) :
    Quiet (underContainer c p) :=
  .andThen (quiet_containerLock c) fun _ => hp.bind fun _ => .perform_bind rfl fun _ => trivial

theorem quiet_readyDescriptor (config : RunConfig) : Quiet (readyDescriptor config) := by
  rw [readyDescriptor]
  split
  · refine .perform_andThen rfl fun fd => ?_
    split
    · trivial
    · exact .andThen (uses_check (Quiet.perform rfl)) fun _ => trivial
  · trivial

theorem quiet_awaitShim (config : RunConfig) (child : Tid) : Quiet (awaitShim config child) := by
  rw [awaitShim]
  split
  · refine .perform_andThen rfl fun ready => ?_
    split
    · trivial
    · exact .perform_andThen rfl fun _ => trivial
  · exact (Quiet.perform rfl).bind fun _ => trivial

theorem quiet_launchShim (config : RunConfig) : Quiet (launchShim config) := by
  refine .andThen (quiet_readyDescriptor config) fun fd => .perform_andThen rfl fun child => ?_
  split
  · trivial
  · exact quiet_awaitShim config _

theorem reads_listRows (includeStopped : Bool) (names : List Name) :
    Reads (listRows includeStopped names) := by
  induction names with
  | nil => trivial
  | cons d ds ih =>
    rw [listRows]
    split
    · exact ih
    · refine .bind (.perform_bind rfl fun state => .perform_bind rfl fun config => ?_) fun row =>
        ih.bind fun _ => trivial
      split
      · trivial
      · split <;> trivial

theorem reads_printList (includeStopped : Bool) : Reads (printList includeStopped) :=
  .perform_andThen rfl fun
    | .absent => trivial
    | .failed => trivial
    | .entries names => (reads_listRows includeStopped names).bind fun _ => trivial

theorem quiet_ps (root includeStopped : Bool) : Quiet (ps root includeStopped) := by
  rw [ps]
  split
  · exact .andThen quiet_reconcile fun _ => .andThen (reads_printList _).quiet fun _ => trivial
  · exact .andThen (reads_printList _).quiet fun _ => trivial

theorem reads_awaitExit (c : Name) (attempts : Nat) : Reads (awaitExit c attempts) := by
  induction attempts with
  | zero => trivial
  | succ attempts ih =>
    refine (reads_getStatus c).bind fun
      | .ok status => ?_
      | .error _ => ih
    dsimp only
    split
    · trivial
    · exact ih

theorem reads_awaitForced (c : Name) (attempts : Nat) (status : Status) :
    Reads (awaitForced c attempts status) := by
  induction attempts generalizing status with
  | zero => trivial
  | succ attempts ih =>
    refine (reads_getStatus c).bind fun
      | .ok now => ?_
      | .error _ => ih status
    dsimp only
    split
    · trivial
    · exact ih now

theorem reads_ensureStopped (force : Bool) (c : Name) : Reads (ensureStopped force c) := by
  refine .andThen (reads_getStatus c) fun status => ?_
  split
  · split
    · trivial
    · refine .andThen (reads_signal c sigkill) fun _ =>
        .lift_andThen (reads_awaitForced c 100 status) fun status => ?_
      split <;> trivial
  · trivial

theorem quiet_startStored (stored : RunConfig) : Quiet (startStored stored) := by
  refine .andThen (reads_getStatus _).quiet fun status => ?_
  split
  · exact quiet_launchShim _
  · trivial

/-! ## Whole commands -/

theorem settled_underRegistry {α : Type} {p : Attempt α} (hp : Quiet p) :
    Settled (underRegistry p) :=
  .andThen (uses_check (uses_perform.mpr rfl)) fun _ =>
    .bind (Quiet.settled hp) fun _ => .perform_bind rfl fun _ => trivial

theorem settled_gc : Settled gc :=
  settled_underRegistry (.andThen quiet_reconcile fun _ => trivial)

theorem settled_kill (reference : Text) (number : Nat) : Settled (kill reference number) :=
  settled_underRegistry (.andThen (reads_resolve reference).quiet fun id =>
    .andThen (quiet_underContainer id (reads_signal id number).quiet) fun _ => trivial)

theorem settled_stop (reference : Text) (timeout : Nat) : Settled (stop reference timeout) := by
  refine .andThen (settled_underRegistry (.andThen (reads_resolve reference).quiet fun id =>
    .andThen (quiet_underContainer id (reads_signal id sigterm).quiet) fun _ => trivial)) fun id =>
    .lift_andThen (reads_awaitExit id _).quiet.settled fun stopped => ?_
  split
  · trivial
  · exact .andThen (settled_underRegistry (quiet_underContainer id (reads_signal id sigkill).quiet))
      fun _ => trivial

theorem settled_rm (force : Bool) (reference : Text) : Settled (rm force reference) :=
  settled_underRegistry (.andThen quiet_reconcile fun _ =>
    .andThen (reads_resolve reference).quiet fun id =>
    .andThen (quiet_underContainer id (reads_ensureStopped force id).quiet) fun _ =>
    .andThen (quiet_remove id) fun _ => trivial)

theorem settled_start (reference : Text) : Settled (start reference) :=
  settled_underRegistry (.andThen quiet_reconcile fun _ =>
    .andThen (reads_loadConfig reference).quiet fun (stored, _) =>
    quiet_underContainer stored.id (quiet_startStored stored))

/-- The outcome of a subcommand that stores nothing. -/
theorem settled_report {p : Attempt Nat} (hp : Settled p) : Settled (report p) :=
  .bind hp fun _ => trivial

theorem settled_psCommand (root : Bool) (args : List Text) : Settled (psCommand root args) := by
  unfold psCommand
  split
  · exact settled_report (quiet_ps root _).settled
  · trivial

theorem settled_gcCommand (root : Bool) (args : List Text) : Settled (gcCommand root args) := by
  unfold gcCommand
  split
  · split
    · exact settled_report settled_gc
    · trivial
  · trivial

theorem settled_killCommand (args : List Text) : Settled (killCommand args) := by
  unfold killCommand
  split
  · exact settled_report (settled_kill _ _)
  · split
    · exact settled_report (settled_kill _ _)
    · trivial
  · trivial

theorem settled_stopCommand (args : List Text) : Settled (stopCommand args) := by
  unfold stopCommand
  split
  · exact settled_report (settled_stop _ _)
  · split
    · exact settled_report (settled_stop _ _)
    · trivial
  · trivial

theorem settled_rmCommand (args : List Text) : Settled (rmCommand args) := by
  unfold rmCommand
  split
  · exact settled_report (settled_rm _ _)
  · split
    · exact settled_report (settled_rm _ _)
    · trivial
  · trivial

theorem settled_startCommand (root : Bool) (args : List Text) :
    Settled (startCommand root args) := by
  unfold startCommand
  split
  · split
    · exact settled_report (settled_start _)
    · trivial
  · trivial

theorem settled_shimMain (host : Host) (args : List Text) : Settled (shimMain host args) := by
  rw [shimMain]
  split
  · exact .perform_bind rfl fun _ => trivial
  · exact .bind (.bind (supervises_shimRun _).quiet.settled fun _ => trivial) fun _ =>
      .perform_bind rfl fun _ => trivial

end MiniContainer
