import MiniContainer.Spec.Reconcile

/-!
# A reconcile pass after a reboot

A reboot ends every process and starts the clock ticks again; the registry stays. A record
says `running` until a pass finds that its process is gone, and what identifies the process
is its ID and its start time since boot. So a pass repairs the records of the earlier boot,
but for those whose pair has come up again (`reboot_stops_iff`).

Any call of the pass may fail, as long as the pass succeeds; only a document that is stored
can be read (`step`).
-/

namespace MiniContainer

open CString (Text)

/-- The machine after a reboot with another process table: what is stored below
    `/var/lib/minicontainer` and `/var/log/minicontainer` is there, the runtime directory is
    a fresh one, and nothing of the kernel's state is left. -/
def World.rebooted (w : World) (procs : Nat → Option Proc) : World :=
  { w with
    registry := none
    containerLocks := fun _ => none
    runtimes := fun _ => false
    sockets := fun _ => none
    links := fun _ => false
    rules := fun _ => false
    cgroups := fun _ => false
    procs
    shims := fun _ => none }

/-! ## What a pass does to the records -/

variable {t : Tid} {w w₁ : World}

/-- `w₁` is `w` with the stale records of some containers repaired. -/
structure RepairedOn (w : World) (done : List Name) (w₁ : World) : Prop where
  state : ∀ c, w₁.state c =
    if c ∈ done ∧ w.stale c = true then (w.state c).map StateDoc.repaired else w.state c
  startTime : w₁.startTime = w.startTime

theorem RepairedOn.start (w : World) : RepairedOn w [] w :=
  ⟨fun c => by simp, rfl⟩

/-- A step that changes no record and no process. -/
theorem RepairedOn.same {w₂ : World} {done : List Name} (h : RepairedOn w done w₁)
    (hstate : w₂.state = w₁.state) (hstart : w₂.startTime = w₁.startTime) :
    RepairedOn w done w₂ :=
  ⟨fun c => (congrFun hstate c).trans (h.state c), hstart.trans h.startTime⟩

/-- A container that is not stale, or no longer, needs no repair. -/
theorem RepairedOn.skip {done : List Name} {c : Name} (h : RepairedOn w done w₁)
    (hfresh : w₁.stale c = false) : RepairedOn w (c :: done) w₁ where
  state d := by
    rw [h.state]
    simp only [List.mem_cons]
    by_cases hd : d = c
    · -- if the record was stale, it is repaired already
      subst hd
      by_cases hstale : w.stale d = true
      · by_cases hdone : d ∈ done
        · simp [hdone]
        · have hsame : w₁.state d = w.state d := by rw [h.state, if_neg fun h => hdone h.1]
          rw [World.stale, hsame, h.startTime, ← World.stale, hstale] at hfresh
          cases hfresh
      · simp [hstale]
    · simp [hd]
  startTime := h.startTime

/-- The replaced record of a stale container. -/
theorem RepairedOn.repair {w₂ : World} {done : List Name} {c : Name} {document : StateDoc}
    (h : RepairedOn w done w₁) (hstale : w₁.stale c = true) (hdoc : w₁.state c = some document)
    (hstate : ∀ d, w₂.state d = if d = c then some document.repaired else w₁.state d)
    (hstart : w₂.startTime = w₁.startTime) : RepairedOn w (c :: done) w₂ where
  state d := by
    rw [hstate]
    split
    · rename_i hd
      subst hd
      -- the record is the one that the pass started with
      by_cases hold : d ∈ done ∧ w.stale d = true
      · rw [World.stale, h.state, if_pos hold] at hstale
        cases hs : w.state d with
        | none => simp [hs] at hstale
        | some old => simp [hs, StateDoc.not_isStale_repaired] at hstale
      · have hsame : w₁.state d = w.state d := by rw [h.state, if_neg hold]
        have hstale' : w.stale d = true := by
          rwa [World.stale, hsame, h.startTime] at hstale
        rw [if_pos ⟨List.mem_cons_self, hstale'⟩, ← hsame, hdoc, Option.map_some]
    · rename_i hd
      rw [h.state]
      simp [hd]
  startTime := hstart.trans h.startTime

/-! ## The operations of a pass -/

theorem startTime_congr {w' : World} (h : w'.procs = w.procs) : w'.startTime = w.startTime := by
  funext pid
  simp only [World.startTime, h]

/-- The other operations of a pass change neither a record nor a process. -/
theorem step_repairs {ch : Choice} {o : Op} {r : Res o} {w' : World} (ho : o.repairs = true)
    (hcommit : ∀ c x, o ≠ .commit c x) (h : step ch w t o = some (r, w')) :
    w'.state = w.state ∧ w'.startTime = w.startTime := by
  cases o with
  | opendir | readState c | startTime site c pid =>
    rw [eq_of_step_reads rfl h]
    exact ⟨rfl, rfl⟩
  | killCgroup c path =>
    cases h
    exact ⟨rfl, rfl⟩
  | createTemporary c x =>
    simp only [step] at h
    split at h
    · cases h
      exact ⟨rfl, rfl⟩
    · rename_i d hd
      split at h <;> cases h
      · exact ⟨rfl, rfl⟩
      · refine ⟨?_, rfl⟩
        funext e
        rw [World.state, World.dir_setDir]
        split
        · rename_i he
          rw [he, World.state, hd]
          rfl
        · rfl
  | remove remover c res =>
    simp only [step] at h
    split at h <;> cases h
    · exact ⟨rfl, rfl⟩
    · refine ⟨?_, startTime_congr (by rw [World.frame_clear])⟩
      funext e
      rw [World.state, World.dir_clear, World.state]
      split
      · cases w.dir e with
        | none => rfl
        | some d => cases res <;> rfl
      · rfl
  | commit c x => exact absurd rfl (hcommit c x)
  | _ => cases ho

theorem step_opendir_absent {ch : Choice} {w' : World}
    (h : step ch w t .opendir = some (.absent, w')) : w.dirs.keys = [] := by
  simp only [step] at h
  split at h
  · cases h
  · split at h
    · rename_i habsent
      exact List.isEmpty_iff.mp (Bool.and_eq_true_iff.mp habsent).2
    · split at h <;> cases h

theorem step_opendir_entries {ch : Choice} {w' : World} {names : List Name}
    (h : step ch w t .opendir = some (.entries names, w')) : names.Perm w.dirs.keys := by
  simp only [step] at h
  split at h
  · cases h
  · split at h
    · cases h
    · split at h
      · rename_i hperm
        cases h
        exact List.isPerm_iff.mp hperm
      · cases h

/-- The replacement of a record that succeeds. -/
theorem step_commit_state {ch : Choice} {c : Name} {writer : Writer} {document : StateDoc}
    {w' : World} (h : step ch w t (.commit c (.state writer document)) = some (.none, w')) :
    (∀ d, w'.state d = if d = c then some document else w.state d) ∧
      w'.startTime = w.startTime := by
  simp only [step] at h
  split at h
  · cases h
  · rename_i dir hdir
    split at h
    · cases h
    · obtain ⟨hfault, hworld⟩ : ch.fault = .none ∧
          ((w.setDir c ((dir.unlink (.temporary .state (w.pidOf t))).install
            (.state writer document))).recordWrite t c (.state writer document)) = w' := by
        split at h
        · rename_i hfault
          exact ⟨hfault, (Prod.mk.inj (Option.some.inj h)).2⟩
        · cases h
        · rename_i hfault _
          exact absurd (Prod.mk.inj (Option.some.inj h)).1 hfault
      subst hworld
      refine ⟨fun d => ?_, startTime_congr (World.procs_recordWrite _ _ _ _)⟩
      rw [World.state, World.dir_recordWrite, World.dir_setDir]
      split <;> rfl

/-! ## The pass -/

/-- Whatever is chosen, if process `t` gets to the end of the attempt with success, `R` holds
    there. -/
abbrev Succeeds {α : Type} (t : Tid) (R : α → World → Prop) (p : Attempt α) (w : World) : Prop :=
  Prog.Wlp (fun ch w o => step ch w t o) (Ends R fun _ => True) p w

namespace Succeeds

variable {α β : Type} {R : β → World → Prop}

theorem andThen {p : Attempt α} {f : α → Attempt β}
    (h : Succeeds t (fun a w => Succeeds t R (f a) w) p w) :
    Succeeds t R (p >>= f : Attempt β) w :=
  Prog.Wlp.bind (h.mono fun
    | .ok _, _, h => h
    | .error _, _, _ => trivial)

theorem lift_andThen {p : Action α} {f : α → Attempt β}
    (h : Prog.Wlp (fun ch w o => step ch w t o) (fun a w => Succeeds t R (f a) w) p w) :
    Succeeds t R ((liftM p : Attempt α) >>= f : Attempt β) w :=
  andThen (Prog.Wlp.bind h)

theorem perform_andThen {o : Op} {f : Res o → Attempt β}
    (h : ∀ ch r w', step ch w t o = some (r, w') → Succeeds t R (f r) w') :
    Succeeds t R ((liftM (perform o) : Attempt (Res o)) >>= f : Attempt β) w := h

theorem check_andThen {p : Action Bool} {e : McError} {f : Unit → Attempt β}
    (h : Prog.Wlp (fun ch w o => step ch w t o) (fun ok w => ok = true → Succeeds t R (f ()) w)
      p w) :
    Succeeds t R (Attempt.check p e >>= f : Attempt β) w :=
  andThen (Prog.Wlp.bind (h.mono fun
    | true, _, h => h rfl
    | false, _, _ => trivial))

end Succeeds

/-- The identity of a record's process, as the pass decides it. -/
theorem wlp_identityHolds {c : Name} {pid start : Nat} {Q : Bool → World → Prop}
    (h : Q (pid != 0 && start != 0 && w.startTime pid == start) w) :
    Prog.Wlp (fun ch w o => step ch w t o) Q (identityHolds .reconcile c pid start) w := by
  unfold identityHolds
  split
  · rename_i hzero
    have hfalse : (pid != 0 && start != 0 && w.startTime pid == start) = false := by
      rcases hzero with rfl | rfl <;> simp
    rwa [hfalse] at h
  · rename_i hpos
    obtain ⟨hpid, hstart⟩ := not_or.mp hpos
    intro ch r w' hs
    cases hs
    have htrue : (pid != 0 && start != 0 && w.startTime pid == start) =
        (w.startTime pid == start) := by simp [hpid, hstart]
    rwa [htrue] at h

/-- The operations of a pass other than the replacement of a record. -/
def Op.tidies (o : Op) : Prop := o.repairs = true ∧ ∀ c x, o ≠ .commit c x

theorem wlp_tidies {α : Type} {p : Action α} (hp : p.Uses Op.tidies) :
    Prog.Wlp (fun ch w o => step ch w t o)
      (fun _ w' => w'.state = w.state ∧ w'.startTime = w.startTime) p w :=
  Prog.Wlp.of_uses hp (fun _ ho _ _ _ _ hw hs =>
    ⟨(step_repairs ho.1 ho.2 hs).1.trans hw.1, (step_repairs ho.1 ho.2 hs).2.trans hw.2⟩) ⟨rfl, rfl⟩

theorem tidies_killStaleCgroup (c : Name) (document : StateDoc) :
    (killStaleCgroup c document).Uses Op.tidies := by
  unfold killStaleCgroup
  split
  · trivial
  · split
    · exact uses_perform.mpr ⟨rfl, fun _ _ h => nomatch h⟩
    · trivial

theorem tidies_cleanUp (c : Name) : (cleanUp c).Uses Op.tidies := by
  simp [cleanUp, Prog.bind_eq, perform, Prog.perform, Op.tidies, Op.repairs]

/-- The repair of a stale container. -/
theorem succeeds_repair {done : List Name} {c : Name} {document : StateDoc}
    (h : RepairedOn w done w₁) (hstale : w₁.stale c = true) (hdoc : w₁.state c = some document) :
    Succeeds t (fun _ w₂ => RepairedOn w (c :: done) w₂) (repair c document) w₁ := by
  refine Succeeds.lift_andThen ((wlp_tidies (tidies_killStaleCgroup c document)).mono ?_)
  rintro - w₂ ⟨hstate₂, hstart₂⟩
  refine Succeeds.andThen (Succeeds.check_andThen ?_)
  intro ch created w₃ htemporary _
  obtain ⟨hstate₃, hstart₃⟩ := step_repairs rfl (fun _ _ heq => Op.noConfusion heq) htemporary
  refine Succeeds.perform_andThen fun ch' fault w₄ hcommit => ?_
  cases fault with
  | none =>
    obtain ⟨hstate₄, hstart₄⟩ := step_commit_state hcommit
    have hdone : RepairedOn w (c :: done) w₄ := by
      refine h.repair hstale hdoc (fun d => ?_) (hstart₄.trans (hstart₃.trans hstart₂))
      rw [hstate₄, hstate₃, hstate₂]
    refine Prog.Wlp.bind ((wlp_tidies (tidies_cleanUp c)).mono ?_)
    rintro - w₅ ⟨hstate₅, hstart₅⟩
    exact hdone.same hstate₅ hstart₅
  | _ => trivial

theorem succeeds_reconcileEntry {done : List Name} {c : Name} (h : RepairedOn w done w₁)
    (hc : containerEntry c = true) :
    Succeeds t (fun _ w₂ => RepairedOn w (c :: done) w₂) (reconcileEntry c) w₁ := by
  refine Succeeds.perform_andThen fun ch found w₂ hread => ?_
  cases hread
  have hstale : w₁.stale c = (w₁.state c).any (·.isStale w₁.startTime) := by
    rw [World.stale, hc, Bool.true_and]
  split
  · rename_i hnone
    exact h.skip (by rw [hstale, hnone]; rfl)
  · rename_i document hdoc
    rw [hdoc, Option.any_some] at hstale
    split
    · rename_i pid start hstatus hpid hstart
      have hidentity : document.isStale w₁.startTime =
          !(pid != 0 && start != 0 && w₁.startTime pid == start) := by
        simp [StateDoc.isStale, hstatus, hpid, hstart]
      refine Succeeds.lift_andThen (wlp_identityHolds ?_)
      cases hholds : (pid != 0 && start != 0 && w₁.startTime pid == start) with
      | true =>
        rw [hidentity, hholds] at hstale
        exact h.skip hstale
      | false =>
        rw [hidentity, hholds] at hstale
        refine Succeeds.andThen ((succeeds_repair h hstale hdoc).mono ?_)
        intro result w₂ hw
        cases result with
        | ok => exact hw
        | error => trivial
    · rename_i hother
      -- a record without these members is never stale
      have hfresh : document.isStale w₁.startTime = false := by
        unfold StateDoc.isStale
        split
        · rename_i hstatus hpid hstart
          exact absurd hstart (hother _ _ hstatus hpid)
        · rfl
      exact h.skip (hstale.trans hfresh)

theorem succeeds_reconcileIn (names : List Name) (count : Nat) {done : List Name}
    (h : RepairedOn w done w₁) :
    Succeeds t (fun _ w₂ => RepairedOn w (names.reverse ++ done) w₂) (reconcileIn names count)
      w₁ := by
  induction names generalizing count done w₁ with
  | nil => exact h
  | cons c names ih =>
    rw [List.reverse_cons, List.append_assoc, List.singleton_append, reconcileIn]
    split
    · rename_i hother
      exact ih count (h.skip (by simp [World.stale, Bool.not_eq_eq_eq_not.mp hother]))
    · rename_i hentry
      refine Succeeds.andThen ((succeeds_reconcileEntry h (by simpa using hentry)).mono ?_)
      rintro (e | repaired) w₂ hw₂
      · trivial
      · cases repaired with
        | true => exact ih (count + 1) hw₂
        | false => exact ih count hw₂

/-- A pass that succeeds repairs every stale record and touches no other one. -/
theorem succeeds_reconcile : Succeeds t (fun _ w' => ∀ c, w'.state c =
    if w.stale c = true then (w.state c).map StateDoc.repaired else w.state c) reconcile w := by
  refine Succeeds.perform_andThen fun ch listing w₁ hlist => ?_
  obtain rfl := eq_of_step_reads rfl hlist
  cases listing with
  | failed => trivial
  | absent =>
    -- there is no directory that could hold a record
    intro c
    have hnone : w₁.dir c = none := by
      by_contra hne
      exact absurd (World.mem_keys.mpr hne) (by simp [step_opendir_absent hlist])
    simp [World.state, hnone]
  | entries names =>
    have hnames := step_opendir_entries hlist
    refine (succeeds_reconcileIn names 0 (RepairedOn.start w₁)).mono ?_
    rintro (e | count) w₂ hw₂
    · trivial
    · intro c
      rw [RepairedOn.state hw₂]
      by_cases hstale : w₁.stale c = true
      · have hmem : c ∈ names.reverse ++ [] := by
          rw [List.append_nil, List.mem_reverse, hnames.mem_iff]
          exact World.mem_keys.mpr (World.dir_of_stale hstale)
        rw [if_pos ⟨hmem, hstale⟩, if_pos hstale]
      · rw [if_neg fun h => hstale h.2, if_neg hstale]

/-! ## After a reboot -/

/-- Behind a pass that succeeds after a reboot, a record that said `running` before says
    `stopped` exactly when it stands in the directory of a container and names a process that
    is none of the present boot: the pair of process ID and start time is not there. -/
theorem reboot_stops_iff (w : World) (procs : Nat → Option Proc) (t : Tid) {χ : Nat → Choice}
    {count : Nat} {w' : World} (hpass : passAlone t χ (w.rebooted procs) = some (.ok count, w'))
    {c : Name} {document : StateDoc} (hdoc : w.state c = some document)
    (hrunning : document.status = .running) :
    (∃ document', w'.state c = some document' ∧ document'.status = .stopped) ↔
      containerEntry c = true ∧ ∃ pid start, document.shimPid = some pid ∧
        document.shimStart = some start ∧
        ¬(pid ≠ 0 ∧ start ≠ 0 ∧ (w.rebooted procs).startTime pid = start) := by
  have hstate : w'.state c = if (w.rebooted procs).stale c = true then
      some document.repaired else some document := by
    rw [succeeds_reconcile.eval hpass c, show (w.rebooted procs).state c = w.state c from rfl, hdoc]
    rfl
  have hstale : (w.rebooted procs).stale c = true ↔ containerEntry c = true ∧
      ∃ pid start, document.shimPid = some pid ∧ document.shimStart = some start ∧
        ¬(pid ≠ 0 ∧ start ≠ 0 ∧ (w.rebooted procs).startTime pid = start) := by
    rw [World.stale, show (w.rebooted procs).state c = w.state c from rfl, hdoc, Option.any_some,
      Bool.and_eq_true]
    refine and_congr_right fun _ => ?_
    unfold StateDoc.isStale
    rw [hrunning]
    cases document.shimPid with
    | none => simp
    | some pid =>
      cases document.shimStart with
      | none => simp
      | some start => simp [or_iff_not_imp_left]
  rw [← hstale, hstate]
  split
  · rename_i h
    exact iff_of_true ⟨_, rfl, rfl⟩ h
  · rename_i h
    refine iff_of_false ?_ h
    rintro ⟨document', heq, hstopped⟩
    rw [← Option.some.inj heq, hrunning] at hstopped
    cases hstopped

/-- The pass succeeded, and the record of this container has the status. -/
def leavesStatus (status : Status) : Except McError Nat × World → Bool
  | (.ok _, w) => (w.state (plainId 0).text).any (·.status = status)
  | (.error _, _) => false

private theorem exists_of_leavesStatus {status : Status}
    {pass : Option (Except McError Nat × World)} (h : pass.any (leavesStatus status) = true) :
    ∃ count w, pass = some (.ok count, w) ∧
      ∃ document, w.state (plainId 0).text = some document ∧ document.status = status := by
  match pass, h with
  | some (.ok count, w), h =>
    cases hdoc : w.state (plainId 0).text with
    | none => simp [leavesStatus, hdoc] at h
    | some document => exact ⟨count, w, rfl, document, hdoc, by simpa [leavesStatus, hdoc] using h⟩

private theorem state_staleWorld : ∃ document, staleWorld.state (plainId 0).text = some document ∧
    document.status = .running ∧ document.shimPid = some 7 ∧ document.shimStart = some 5 := by
  have hdir : staleWorld.dir (plainId 0).text = some staleDir := AList.lookup_insert _
  rw [World.state, hdir]
  exact ⟨_, rfl, rfl, rfl, rfl⟩

/-- No process of the later boot: the record is repaired. -/
theorem reboot_stops_staleWorld : ∃ count w',
    passAlone 1 (fun _ => {}) (staleWorld.rebooted fun _ => none) = some (.ok count, w') ∧
      ∃ document, w'.state (plainId 0).text = some document ∧ document.status = .stopped := by
  have hpass : (passAlone 1 (fun _ => {}) (staleWorld.rebooted fun _ => none)).any
      (leavesStatus .stopped) = true := by decide +kernel
  obtain ⟨count, w', hpass, -⟩ := exists_of_leavesStatus hpass
  refine ⟨count, w', hpass, ?_⟩
  obtain ⟨document, hdoc, hrunning, hpid, hstart⟩ := state_staleWorld
  exact (reboot_stops_iff staleWorld (fun _ => none) 1 hpass hdoc hrunning).mpr
    ⟨by decide, 7, 5, hpid, hstart, by decide⟩

/-- A process of the later boot has the ID and the start time of the record: the container
    is taken for running for as long as that process lives. -/
theorem reboot_keeps_phantom : ∃ (w : World) (procs : Nat → Option Proc) (count : Nat)
    (w' : World), (∃ document, w.state (plainId 0).text = some document ∧
        document.status = .running) ∧
      passAlone 1 (fun _ => {}) (w.rebooted procs) = some (.ok count, w') ∧
      ∃ document, w'.state (plainId 0).text = some document ∧ document.status = .running := by
  let procs : Nat → Option Proc := fun pid => if pid = 7 then some ⟨5, none⟩ else none
  have hpass : (passAlone 1 (fun _ => {}) (staleWorld.rebooted procs)).any
      (leavesStatus .running) = true := by decide +kernel
  obtain ⟨count, w', hpass, hrunning⟩ := exists_of_leavesStatus hpass
  obtain ⟨document, hdoc, hbefore, -⟩ := state_staleWorld
  exact ⟨staleWorld, procs, count, w', ⟨document, hdoc, hbefore⟩, hpass, hrunning⟩

end MiniContainer
