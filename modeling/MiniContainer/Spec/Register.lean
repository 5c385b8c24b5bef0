import MiniContainer.Spec.Reclaim

/-!
# Failed creations

The critical section of `run` and `create` when its calls may fail. Each of its steps,
those of the reconcile pass included, leaves the directories and the configurations of
all other containers as they are, and what it puts into the new container's directory
the cleanup can remove. So a critical section that fails leaves no trace, as long as
the removals of the cleanup succeed.
-/

namespace MiniContainer

open CString (Text)
open Function (update)

/-! ## What may fail -/

/-- The choices for the critical section that creates container `c` in world `w`. Every call
    may fail but for the removals of the cleanup, directories are read completely, and a lock
    that another process holds is not obtained. -/
structure Op.MayFail (w : World) (c : Name) (o : Op) (ch : Choice) : Prop where
  order : ∀ names, (ch.order names).Perm names
  walkOrder : ∀ leaves, (ch.walkOrder leaves).Perm leaves
  removes : o.removes = true → ch.fault = .none
  registry : o = .lockRegistry → w.registry ≠ none → ch.fault ≠ .none
  containerLock : o = .lockContainer c → w.containerLocks c ≠ none → ch.fault ≠ .none

/-! ## What the section leaves alone -/

/-- Nothing is gained or lost but the directory of container `c`, where the cleanup finds
    each temporary file once. -/
structure World.Kept (c : Name) (w w' : World) : Prop where
  dirs : ∀ d, d ≠ c → (w'.dir d = none ↔ w.dir d = none)
  config : ∀ d, d ≠ c → w'.config d = w.config d
  temporaries : ∀ x, w'.dir c = some x → x.temporaries.Nodup

theorem World.Kept.refl {c : Name} {w : World} (h : w.dir c = none) : World.Kept c w w where
  dirs _ _ := Iff.rfl
  config _ _ := rfl
  temporaries x hx := by
    rw [h] at hx
    exact nomatch hx

/-- The operations of the section behind the registry lock: reads, repairs, and writes into
    the directory of `c`. -/
def Op.registers (c : Name) (o : Op) : Prop :=
  o.reads = true ∨ o.repairs = true ∨ o = .mkdir c ∨ o = .lockContainer c ∨
    (∃ x, o = .createTemporary c x) ∨ ∃ x, o = .commit c x

section Steps

variable {ch : Choice} {w w₁ w₂ : World} {t : Tid} {c : Name} {o : Op} {r : Res o}

/-- Outside of `c`, such an operation can only write a repaired state or clean up. -/
theorem Op.registers.elsewhere (ho : o.registers c) {d : Name} (hd : d ≠ c) {x x' : Option Dir}
    (h : DirStep w t d o x x') :
    (x' = none ↔ x = none) ∧ x'.bind Dir.config = x.bind Dir.config := by
  cases h with
  | mkdir | lock => simp [Op.registers, Op.reads, Op.repairs, hd] at ho
  | createTemporary => simp
  | install =>
    rename_i content _
    cases content with
    | config document => simp [Op.registers, Op.reads, Op.repairs, hd] at ho
    | state writer document => simp [Dir.install, Dir.unlink]
  | discard => simp [Dir.unlink]
  | unlink | rmdir => simp [Op.registers, Op.reads, Op.repairs] at ho
  | remove =>
    rename_i resource
    cases resource <;> simp [Dir.without]
  | makeDir => simp [Op.registers, Op.reads, Op.repairs] at ho

theorem World.Kept.step (hk : World.Kept c w w₁) (ho : o.registers c)
    (hs : step ch w₁ t o = some (r, w₂)) : World.Kept c w w₂ where
  dirs d hd := by
    rcases step_dir hs d with hdir | hdir
    · rw [hdir]
      exact hk.dirs d hd
    · exact (ho.elsewhere hd hdir).1.trans (hk.dirs d hd)
  config d hd := by
    rw [← hk.config d hd]
    rcases step_dir hs d with hdir | hdir
    · rw [World.config, hdir, World.config]
    · exact (ho.elsewhere hd hdir).2
  temporaries := step_temporaries hs hk.temporaries

/-- Apart from a lock, such an operation never waits. -/
theorem Op.registers.exists_step (ho : o.registers c) (hlock : o ≠ .lockContainer c)
    (horder : ∀ names, (ch.order names).Perm names) :
    ∃ r w₂, MiniContainer.step ch w₁ t o = some (r, w₂) := by
  cases o with
  | opendir =>
    simp only [MiniContainer.step, List.isPerm_iff.mpr (horder w₁.dirs.keys), if_true]
    split
    · exact ⟨_, _, rfl⟩
    · split <;> exact ⟨_, _, rfl⟩
  | readConfig | readState | startTime | killCgroup | clock | bindProbe | remove =>
    exact ⟨_, _, rfl⟩
  | mkdir =>
    simp only [MiniContainer.step]
    split <;> exact ⟨_, _, rfl⟩
  | control =>
    simp only [MiniContainer.step]
    split
    · split <;> exact ⟨_, _, rfl⟩
    · exact ⟨_, _, rfl⟩
  | createTemporary =>
    simp only [MiniContainer.step]
    split
    · exact ⟨_, _, rfl⟩
    · split <;> exact ⟨_, _, rfl⟩
  | commit =>
    simp only [MiniContainer.step]
    split
    · exact ⟨_, _, rfl⟩
    · split
      · exact ⟨_, _, rfl⟩
      · split <;> exact ⟨_, _, rfl⟩
  | _ => simp_all [Op.registers, Op.reads, Op.repairs]

end Steps

/-! ## The parts of the section -/

section Parts

variable {α : Type} {w w₁ : World} {t : Tid} {c : Name}

/-- A program of such operations, whatever fails. -/
theorem runs_of_registers {p : Action α}
    (hp : p.Uses fun o => o.registers c ∧ o ≠ .lockContainer c) (hk : World.Kept c w w₁) :
    Runs t (Op.MayFail w c) (fun _ => True) (fun _ w' => World.Kept c w w') p w₁ := by
  refine Prog.Total.of_uses hp (fun o ho ch w' hok hw' => ?_) hk
  obtain ⟨r, w₂, hs⟩ : ∃ r w₂, step ch w' t o = some (r, w₂) :=
    ho.1.exists_step ho.2 hok.order
  exact ⟨r, w₂, hs, hw'.step ho.1 hs⟩

theorem registers_writeAtomic (content : Content) :
    Prog.Uses (fun o => o.registers c ∧ o ≠ .lockContainer c) (writeAtomic c content) := by
  refine .andThen (uses_check (uses_perform.mpr ⟨?_, nofun⟩)) fun _ =>
    .perform_andThen ⟨?_, nofun⟩ fun fault => ?_
  · exact .inr (.inr (.inr (.inr (.inl ⟨content, rfl⟩))))
  · exact .inr (.inr (.inr (.inr (.inr ⟨content, rfl⟩))))
  · cases fault <;> trivial

theorem Reads.registers {p : Action α} (hp : Reads p) :
    p.Uses fun o => o.registers c ∧ o ≠ .lockContainer c :=
  hp.mono fun o ho => ⟨.inl ho, by rintro rfl; exact nomatch ho⟩

theorem registers_reconcile : reconcile.Uses fun o => o.registers c ∧ o ≠ .lockContainer c :=
  repairs_reconcile.mono fun o ho => ⟨.inr (.inl ho), by rintro rfl; exact nomatch ho⟩

theorem registers_saveConfig (build : Build) (config : RunConfig) (image : Text) :
    Prog.Uses (fun o => o.registers config.id ∧ o ≠ .lockContainer config.id)
      (saveConfig build config image) := by
  refine .lift_andThen (reads_nameIsTaken _ _).registers fun taken => ?_
  split
  · trivial
  · refine .lift_andThen (reads_publishedPortIsTaken _).registers fun taken => ?_
    split
    · trivial
    · refine .lift_andThen (reads_hostPortsAreAvailable _).registers fun available => ?_
      split
      · trivial
      · refine .perform_andThen ⟨.inl rfl, nofun⟩ fun now => ?_
        refine .andThen (uses_check (uses_perform.mpr ⟨?_, nofun⟩)) fun _ =>
          registers_writeAtomic _
        exact .inr (.inr (.inl rfl))

end Parts

theorem reads_leaseAddress (config : RunConfig) : Reads (leaseAddress config) := by
  have hchoose : ∀ used, Reads (chooseAddress used) := by
    intro used
    rw [chooseAddress]
    split <;> trivial
  rw [leaseAddress]
  split
  · refine .perform_andThen rfl fun listing => ?_
    cases listing with
    | absent => exact hchoose []
    | failed => trivial
    | entries names => exact .lift_andThen (reads_usedAddresses names) hchoose
  · trivial

/-! ## The section -/

section Section

variable {build : Build} {createOnly : Bool} {config : RunConfig} {image : Text} {t : Tid}
  {w w₁ : World}

/-- The steps behind the two locks. -/
theorem runs_register_locked (hk : World.Kept config.id w w₁) :
    Runs t (Op.MayFail w config.id) (fun _ => True) (fun _ w' => World.Kept config.id w w')
      (do
        let ipv4Host ← leaseAddress config
        let config := { config with ipv4Host }
        saveConfig build config image
        if createOnly then
          markCreated config.id
          return config
        else return config : Attempt RunConfig) w₁ := by
  refine runs_of_registers (.andThen (reads_leaseAddress config).registers fun ipv4Host =>
    .andThen (registers_saveConfig build { config with ipv4Host } image) fun _ => ?_) hk
  split
  · exact .andThen (registers_writeAtomic _) fun _ => trivial
  · trivial

/-- The lock of the new container, which nobody else waits for. -/
theorem runs_containerLock {c : Name} {Q : Except McError Unit → World → Prop}
    (hk : World.Kept c w w₁) (hlocks : w₁.containerLocks c = w.containerLocks c)
    (hQ : ∀ result w', World.Kept c w w' → Q result w') :
    Runs t (Op.MayFail w c) (fun _ => True) Q (containerLock c) w₁ := by
  refine Alone.check_andThen (Alone.perform (o := .mkdir c) fun ch _ => ?_)
  have hmkdir : ∀ w', World.Kept c w w' → World.Kept c w (w'.mkdir c) := by
    intro w' hw'
    have hs : step {} w' t (.mkdir c) = some (true, w'.mkdir c) := rfl
    exact hw'.step (.inr (.inr (.inl rfl))) hs
  have hlock : ∀ w₂, World.Kept c w w₂ → w₂.containerLocks c = w.containerLocks c →
      Runs t (Op.MayFail w c) (fun _ => True) Q (Attempt.check (perform (.lockContainer c))
        (errorSet .runtime .system "state-lock" (makePath c "container.lock".toList)
          "cannot acquire exclusive lifecycle lock")) w₂ := by
    intro w₂ hk₂ hlocks₂
    refine Prog.Total.bind (Alone.perform (o := .lockContainer c) fun ch hch => ?_)
    obtain ⟨r, w₃, hs⟩ : ∃ r w₃, step ch w₂ t (.lockContainer c) = some (r, w₃) := by
      simp only [step]
      split
      · exact ⟨_, _, rfl⟩
      · split
        · exact ⟨_, _, rfl⟩
        · split
          · exact ⟨_, _, rfl⟩
          · rename_i hfault hheld
            rw [hlocks₂] at hheld
            exact absurd (hch.containerLock rfl hheld) hfault
    exact ⟨r, w₃, hs, trivial, hQ _ _ (hk₂.step (.inr (.inr (.inr (.inl rfl)))) hs)⟩
  simp only [step]
  split
  · exact ⟨_, _, rfl, trivial, hQ _ _ hk⟩
  · have hsame : (w₁.mkdir c).containerLocks = w₁.containerLocks := by
      rw [World.mkdir]
      split <;> rfl
    exact ⟨_, _, rfl, trivial, hlock _ (hmkdir _ hk) (by rw [hsame, hlocks])⟩

/-- Whatever fails, the other containers keep their directories and configurations. -/
theorem runs_registerSteps (hfresh : w.dir config.id = none) :
    Runs t (Op.MayFail w config.id) (fun _ => True) (fun _ w' => World.Kept config.id w w')
      (registerSteps build createOnly config image) w := by
  have hrefl := World.Kept.refl hfresh
  refine Alone.check_andThen (Alone.perform (o := .lockRegistry) fun ch hch => ?_)
  simp only [step]
  split
  · exact ⟨_, _, rfl, trivial, hrefl⟩
  · rename_i hfault
    rw [if_pos (by_contra fun hheld => hfault (hch.registry rfl hheld))]
    refine ⟨_, _, rfl, trivial, ?_⟩
    rw [if_pos rfl]
    have hkept : World.Kept config.id w { w with registry := some t } :=
      ⟨hrefl.dirs, hrefl.config, hrefl.temporaries⟩
    -- the reconcile pass leaves the locks alone
    have hpass := (runs_of_registers (t := t) registers_reconcile hkept).keep
      (J := fun w' => w'.containerLocks = w.containerLocks) repairs_reconcile
      (fun o ho ch w₂ r w₃ hw₂ hs => (locks_of_repairs ho hs).2.trans hw₂) rfl
    refine Alone.andThen (hpass.mono ?_)
    rintro result w₂ ⟨hk, hlocks⟩
    cases result with
    | error e => exact hk
    | ok count =>
      refine Alone.andThen (runs_containerLock hk (by rw [hlocks]) fun result w' hk' => ?_)
      cases result with
      | error e => exact hk'
      | ok _ => exact runs_register_locked hk'

/-- The cleanup, when the removals succeed. -/
theorem runs_cleanup {c : Name} {w₁ : World} (hk : World.Kept c w w₁) :
    Runs t (Op.MayFail w c) (fun _ => True) (fun _ w' => World.Kept c w w' ∧ w'.dir c = none)
      (remove c) w₁ := by
  cases hd : w₁.dir c with
  | none =>
    -- the walk finds nothing to remove
    refine Alone.check_andThen (Alone.perform_bind fun ch _ => ?_)
    have hwalk : step ch w₁ t (.walk c) = some (none, w₁) := by simp only [step, hd]
    exact ⟨_, _, hwalk, trivial, hk, hd⟩
  | some d =>
    refine ((alone_remove hd (hk.temporaries d hd)).restrict (removes_remove c) fun o ho ch hch =>
      ⟨hch.removes ho, hch.order, hch.walkOrder⟩).mono ?_
    rintro result w' ⟨-, hgone, hsame⟩
    have hkept : World.Kept c w w' := {
      dirs := fun e he => by rw [hsame e he]; exact hk.dirs e he
      config := fun e he => by rw [World.config, hsame e he]; exact hk.config e he
      temporaries := fun x hx => by rw [hgone] at hx; cases hx }
    exact ⟨hkept, hgone⟩

/-- A creation that fails, at whichever step of its critical section, leaves the containers
    that there were, their configurations, and no directory for the new ID. -/
theorem register_failed_leaves_nothing (build : Build) (createOnly : Bool) (config : RunConfig)
    (image : Text) (t : Tid) (w : World) (hfresh : w.dir config.id = none) :
    Runs t (Op.MayFail w config.id) (fun _ => True) (fun result w' => ∀ e, result = .error e →
      (∀ d, w'.dir d = none ↔ w.dir d = none) ∧ (∀ d, w'.config d = w.config d) ∧
        w'.dir config.id = none)
      (register build createOnly config image) w := by
  refine Prog.Total.bind ((runs_registerSteps hfresh).mono fun result w₁ hk => ?_)
  cases result with
  | ok registered =>
    exact Alone.perform_bind fun _ _ => ⟨_, _, rfl, trivial, Alone.perform_bind fun _ _ =>
      ⟨_, _, rfl, trivial, nofun⟩⟩
  | error e =>
    refine Alone.perform_bind fun _ _ => ⟨_, _, rfl, trivial, ?_⟩
    have hk' : World.Kept config.id w (w₁.unlocked t config.id) :=
      ⟨hk.dirs, hk.config, hk.temporaries⟩
    refine Prog.Total.bind ((runs_cleanup hk').mono ?_)
    rintro - w₂ ⟨hk₂, hgone⟩
    refine Alone.perform_bind fun _ _ =>
      ⟨_, _, rfl, trivial, fun _ _ => ⟨fun d => ?_, fun d => ?_, hgone⟩⟩
    · by_cases hd : d = config.id
      · subst hd
        exact iff_of_true hgone hfresh
      · exact hk₂.dirs d hd
    · by_cases hd : d = config.id
      · subst hd
        show (w₂.dir config.id).bind Dir.config = _
        rw [hgone, World.config, hfresh]
      · exact hk₂.config d hd

/-- A container called `web`. -/
def webConfig : RunConfig where
  id := (plainId 1).text
  name := some "web".toList
  rootfs := "/srv/alpine".toList
  hostname := "web".toList
  workdir := "/".toList
  user := 0
  group := 0
  environment := []
  detach := false
  readyFd := -1
  memoryMax := 0
  swapMax := 0
  cpuQuota := 0
  pidsMax := 0
  capabilityMask := 0
  readonlyRoot := false
  mounts := []
  seccompDenies := []
  networkBridge := true
  ipv4Host := 0
  publishes := []
  command := ["sh".toList]

/-- A registry with a container that has the same name. -/
def webRegistry : World :=
  World.setDir {} (plainId 0).text { config := some (.obj [("name", .str "web".toList)]) }

/-- A creation with the name of another container fails and leaves this one alone. -/
theorem register_conflict_leaves_nothing :
    ∃ e w', (register plainBuild true webConfig "alpine".toList).run.eval
        (fun ch w o => step ch w 1 o) (fun _ => {}) webRegistry = some (.error e, w') ∧
      (∀ d, w'.dir d = none ↔ webRegistry.dir d = none) ∧
      (∀ d, w'.config d = webRegistry.config d) ∧ w'.dir webConfig.id = none := by
  have hfails : ((register plainBuild true webConfig "alpine".toList).run.eval
      (fun ch w o => step ch w 1 o) (fun _ => {}) webRegistry).any (!·.1.isOk) = true := by
    decide +kernel
  have hchoice : ∀ o, Op.MayFail webRegistry webConfig.id o {} := fun o =>
    ⟨fun _ => .refl _, fun _ => .refl _, fun _ => rfl, fun _ h => absurd rfl h,
      fun _ h => absurd rfl h⟩
  obtain ⟨result, w', heval, hresult⟩ := (register_failed_leaves_nothing plainBuild true webConfig
    "alpine".toList 1 webRegistry (by decide +kernel)).eval (χ := fun _ => {}) fun _ => hchoice
  change Prog.eval _ (register plainBuild true webConfig "alpine".toList).run _ _ = _ at heval
  rw [heval] at hfails
  cases result with
  | ok registered => exact nomatch hfails
  | error e => exact ⟨e, w', heval, hresult e rfl⟩

end Section

end MiniContainer
