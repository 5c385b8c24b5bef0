import MiniContainer.ForStd.List
import MiniContainer.Native.World

/-!
# What one step can do

For each part of the world that the invariants speak about, one lemma says which
operations can change it and how. Every proof about runs goes back to these.
-/

namespace MiniContainer

open CString (Text)
open JsonC (Value)
open Function (update update_self update_of_ne update_apply)

namespace World

variable (w : World)

/-! ## The parts that an update leaves alone -/

/-- The bookkeeping of a write changes nothing else. -/
theorem frame_recordWrite (t : Tid) (c : Name) (x : Content) :
    w.recordWrite t c x = { w with
      shims := (w.recordWrite t c x).shims
      recorded := (w.recordWrite t c x).recorded
      final := (w.recordWrite t c x).final } := by
  unfold recordWrite
  split <;> rfl

/-- Closing the pipe changes the shim of the process only. -/
theorem frame_closeReady (t : Tid) :
    w.closeReady t = { w with shims := (w.closeReady t).shims } := by
  unfold closeReady
  split
  · split <;> rfl
  · rfl

@[simp, grind =] theorem dirs_recordWrite (t : Tid) (c : Name) (x : Content) :
    (w.recordWrite t c x).dirs = w.dirs := by
  rw [frame_recordWrite]

@[simp, grind =] theorem dirs_closeReady (t : Tid) : (w.closeReady t).dirs = w.dirs := by
  rw [frame_closeReady]

@[simp, grind =] theorem dirs_leave (t : Tid) (code : Nat) : (w.leave t code).dirs = w.dirs := by
  simp only [leave, setPhase, dirs_closeReady]

@[simp, grind =] theorem registry_recordWrite (t : Tid) (c : Name) (x : Content) :
    (w.recordWrite t c x).registry = w.registry := by
  rw [frame_recordWrite]

@[simp, grind =] theorem registry_closeReady (t : Tid) :
    (w.closeReady t).registry = w.registry := by
  rw [frame_closeReady]

@[simp, grind =] theorem registry_leave (t : Tid) (code : Nat) :
    (w.leave t code).registry = if w.registry = some t then none else w.registry := by
  simp only [leave, setPhase, registry_closeReady]

@[simp, grind =] theorem procs_recordWrite (t : Tid) (c : Name) (x : Content) :
    (w.recordWrite t c x).procs = w.procs := by
  rw [frame_recordWrite]

@[simp, grind =] theorem procs_closeReady (t : Tid) : (w.closeReady t).procs = w.procs := by
  rw [frame_closeReady]

@[simp, grind =] theorem containerLocks_recordWrite (t : Tid) (c : Name) (x : Content) :
    (w.recordWrite t c x).containerLocks = w.containerLocks := by
  rw [frame_recordWrite]

@[simp, grind =] theorem containerLocks_closeReady (t : Tid) :
    (w.closeReady t).containerLocks = w.containerLocks := by
  rw [frame_closeReady]

@[simp, grind =] theorem containerLocks_leave (t : Tid) (code : Nat) (c : Name) :
    (w.leave t code).containerLocks c =
      if w.containerLocks c = some t then none else w.containerLocks c := by
  simp only [leave, setPhase, containerLocks_closeReady]

@[simp, grind =] theorem exits_recordWrite (t : Tid) (c : Name) (x : Content) :
    (w.recordWrite t c x).exits = w.exits := by
  rw [frame_recordWrite]

@[simp, grind =] theorem exits_closeReady (t : Tid) : (w.closeReady t).exits = w.exits := by
  rw [frame_closeReady]

@[simp, grind =] theorem exits_leave (t : Tid) (code : Nat) :
    (w.leave t code).exits = update w.exits t (some code) := by
  simp only [leave, setPhase, exits_closeReady]

/-- Nothing but the shim of process `t` has changed, and it is still there. -/
def OnlyShim (t : Tid) (w w' : World) : Prop :=
  ∀ s, w'.shims s = w.shims s ∨ (s = t ∧ (w'.shims s).isSome = (w.shims s).isSome)

variable {w} in
theorem OnlyShim.of_eq {t : Tid} {w' : World} (h : w'.shims = w.shims) : OnlyShim t w w' :=
  fun s => .inl (congrFun h s)

variable {w} in
/-- An update at `t` that keeps a shim a shim. -/
theorem OnlyShim.of_update {t : Tid} {w' : World} {f : Shim → Shim}
    (h : w'.shims = update w.shims t ((w.shims t).map f)) : OnlyShim t w w' := by
  intro s
  by_cases hs : s = t
  · subst hs
    exact .inr ⟨rfl, by simp [h]⟩
  · exact .inl (by rw [h, update_of_ne hs])

theorem onlyShim_recordWrite (t : Tid) (c : Name) (x : Content) :
    OnlyShim t w (w.recordWrite t c x) := by
  unfold recordWrite
  split
  · exact .of_eq rfl
  · exact .of_update rfl
  · exact .of_update rfl
  · exact .of_eq rfl

theorem onlyShim_closeReady (t : Tid) : OnlyShim t w (w.closeReady t) := by
  unfold closeReady
  split
  · split
    · exact .of_update rfl
    · exact .of_eq rfl
  · exact .of_eq rfl

theorem onlyShim_leave (t : Tid) (code : Nat) : OnlyShim t w (w.leave t code) := by
  intro s
  have hdead : OnlyShim t (w.closeReady t) (w.leave t code) := .of_update rfl
  rcases hdead s with hs | ⟨rfl, hs⟩
  · rw [hs]
    exact w.onlyShim_closeReady t s
  · rcases w.onlyShim_closeReady s s with hs' | ⟨-, hs'⟩
    · exact .inr ⟨rfl, by rw [hs, hs']⟩
    · exact .inr ⟨rfl, hs.trans hs'⟩

/-- A process that has ended is dead, and nobody waits for its readiness any more. -/
theorem shims_leave_self {w : World} {t : Tid} {code : Nat} {shim : Shim}
    (h : (w.leave t code).shims t = some shim) : shim.phase = .dead ∧ shim.notify ≠ .pending := by
  have hshims : (w.leave t code).shims t =
      ((w.closeReady t).shims t).map fun s => { s with phase := .dead } := by
    simp [leave, setPhase]
  rw [hshims, Option.map_eq_some_iff] at h
  obtain ⟨s, hs, rfl⟩ := h
  refine ⟨rfl, ?_⟩
  show s.notify ≠ .pending
  unfold closeReady at hs
  split at hs
  · split at hs
    · simp only [setNotify, update_self, Option.map_eq_some_iff] at hs
      obtain ⟨s', -, rfl⟩ := hs
      exact nofun
    · grind
  · simp_all

/-- The end of a process changes nothing else. -/
theorem frame_leave (t : Tid) (code : Nat) :
    w.leave t code = { w with
      registry := (w.leave t code).registry
      containerLocks := (w.leave t code).containerLocks
      procs := (w.leave t code).procs
      shims := (w.leave t code).shims
      exits := (w.leave t code).exits } := by
  simp only [leave, setPhase]
  rw [frame_closeReady]

/-- A process that has ended is still in the process table. -/
theorem startTime_leave (t : Tid) (code : Nat) : (w.leave t code).startTime = w.startTime := by
  have hprocs : (w.leave t code).procs = fun pid => (w.procs pid).map fun p =>
      if p.owner = some t then { p with owner := none } else p := by
    simp only [leave, setPhase, procs_closeReady]
  funext pid
  simp only [startTime, hprocs]
  cases w.procs pid with
  | none => rfl
  | some p =>
    simp only [Option.map_some]
    split <;> rfl

end World

/-! ## Cleaning up -/

/-- The directory without what the removal of a resource takes from it. -/
def Dir.without (d : Dir) : Resource → Dir
  | .work => { d with work := false }
  | .merged => { d with merged := false }
  | _ => d

namespace World

variable (w : World) (c : Name) (r : Resource)

@[grind =] theorem dir_setDir (d : Dir) (e : Name) :
    (w.setDir c d).dir e = if e = c then some d else w.dir e :=
  AList.lookup_insert_eq_ite ..

@[grind =] theorem dir_clear (d : Name) :
    (w.clear c r).dir d = if d = c then (w.dir d).map (·.without r) else w.dir d := by
  cases r with
  | work | merged =>
    simp only [clear]
    split <;> rename_i h <;> by_cases hd : d = c <;> simp [dir_setDir, h, hd, Dir.without]
  | runtime =>
    simp only [clear]
    split <;> simp [dir, Dir.without]
  | control | link | rules => simp [clear, dir, Dir.without]

@[grind =] theorem sockets_clear (d : Name) :
    (w.clear c r).sockets d = if r = .control ∧ d = c then none else w.sockets d := by
  cases r with
  | work | merged =>
    simp only [clear]
    split <;> simp [setDir]
  | runtime =>
    simp only [clear]
    split <;> simp
  | control => simp [clear, update_apply]
  | link | rules => simp [clear]

@[grind =] theorem runtimes_clear (d : Name) :
    (w.clear c r).runtimes d =
      if r = .runtime ∧ d = c ∧ w.sockets c = none then false else w.runtimes d := by
  cases r with
  | work | merged =>
    simp only [clear]
    split <;> simp [setDir]
  | runtime =>
    simp only [clear]
    split <;> simp_all [update_apply]
  | control | link | rules => simp [clear]

@[grind =] theorem links_clear (l : Text) :
    (w.clear c r).links l = if r = .link ∧ l = linkName c then false else w.links l := by
  cases r with
  | work | merged =>
    simp only [clear]
    split <;> simp [setDir]
  | runtime =>
    simp only [clear]
    split <;> simp
  | link => simp [clear, update_apply]
  | control | rules => simp [clear]

@[grind =] theorem rules_clear (d : Name) :
    (w.clear c r).rules d = if r = .rules ∧ d = c then false else w.rules d := by
  cases r with
  | work | merged =>
    simp only [clear]
    split <;> simp [setDir]
  | runtime =>
    simp only [clear]
    split <;> simp
  | rules => simp [clear, update_apply]
  | control | link => simp [clear]

/-- Nothing else changes. -/
theorem frame_clear :
    w.clear c r = { w with
      dirs := (w.clear c r).dirs
      sockets := (w.clear c r).sockets
      runtimes := (w.clear c r).runtimes
      links := (w.clear c r).links
      rules := (w.clear c r).rules } := by
  cases r with
  | work | merged | runtime =>
    simp only [clear]
    split <;> rfl
  | control | link | rules => rfl

end World

/-- A directory without entries. -/
@[grind →] theorem Dir.eq_of_leaves {d : Dir} (h : d.leaves = []) : d = {} := by
  obtain ⟨config, state, temporaries, lock, upper, work, merged⟩ := d
  simp only [Dir.leaves, List.append_eq_nil_iff, List.map_eq_nil_iff, ite_eq_right_iff,
    List.cons_ne_nil, imp_false, Bool.not_eq_true, Option.isSome_eq_false_iff,
    Option.isNone_iff_eq_none] at h
  obtain ⟨⟨⟨⟨⟨⟨rfl, rfl⟩, rfl⟩, rfl⟩, rfl⟩, rfl⟩, rfl⟩ := h
  rfl

/-! ## Directories -/

namespace World

@[grind =] theorem dir_mkdir (w : World) (c e : Name) :
    (w.mkdir c).dir e = if e = c then some ((w.dir c).getD {}) else w.dir e := by
  rw [World.mkdir]
  cases hc : w.dir c with
  | none => exact World.dir_setDir w c {} e
  | some d =>
    by_cases he : e = c
    · simp [he, hc]
    · simp [he]

@[grind =] theorem dir_eraseDir (w : World) (c e : Name) :
    (w.eraseDir c).dir e = if e = c then none else w.dir e :=
  AList.lookup_erase_eq_ite ..

@[simp, grind =] theorem dir_recordWrite (w : World) (t : Tid) (c : Name) (x : Content) :
    (w.recordWrite t c x).dir = w.dir := by
  funext e
  rw [dir, dirs_recordWrite, dir]

end World

theorem Dir.nodup_unlink {d : Dir} (h : d.temporaries.Nodup) (leaf : Leaf) :
    (d.unlink leaf).temporaries.Nodup := by
  cases leaf <;> first | exact h | exact h.filter _

/-- What an operation of process `t` in world `w` can make of the directory of container `c`. -/
inductive DirStep (w : World) (t : Tid) (c : Name) : Op → Option Dir → Option Dir → Prop where
  | mkdir : DirStep w t c (.mkdir c) none (some {})
  | lock {d : Dir} (hfree : w.containerLocks c = none) :
      DirStep w t c (.lockContainer c) (some d) (some { d with lock := true })
  | createTemporary {d : Dir} {x : Content} (hnew : (x.file, w.pidOf t) ∉ d.temporaries) :
      DirStep w t c (.createTemporary c x) (some d)
        (some { d with temporaries := (x.file, w.pidOf t) :: d.temporaries })
  | install {d : Dir} {x : Content} (hopen : (x.file, w.pidOf t) ∈ d.temporaries) :
      DirStep w t c (.commit c x) (some d)
        (some ((d.unlink (.temporary x.file (w.pidOf t))).install x))
  | discard {d : Dir} {x : Content} (hopen : (x.file, w.pidOf t) ∈ d.temporaries) :
      DirStep w t c (.commit c x) (some d) (some (d.unlink (.temporary x.file (w.pidOf t))))
  | unlink {d : Dir} {leaf : Leaf} (hleaf : leaf ∈ d.leaves) :
      DirStep w t c (.unlink c leaf) (some d) (some (d.unlink leaf))
  | rmdir : DirStep w t c (.rmdir c) (some {}) none
  | remove {d : Dir} {remover : Remover} {r : Resource} :
      DirStep w t c (.remove remover c r) (some d) (some (d.without r))
  | makeDir {d : Option Dir} {leaf : OverlayDir} :
      DirStep w t c (.makeDir c leaf) d (some ((d.getD {}).make leaf))

/-- It is enough to look at the directory that the operation names. -/
theorem dirStep_of_named {w w' : World} {t : Tid} {o : Op} {c e : Name} {d : Option Dir}
    (hdir : w'.dir c = if c = e then d else w.dir c)
    (h : d = w.dir e ∨ DirStep w t e o (w.dir e) d) :
    w'.dir c = w.dir c ∨ DirStep w t c o (w.dir c) (w'.dir c) := by
  by_cases hc : c = e
  · subst hc
    rw [if_pos rfl] at hdir
    rwa [hdir]
  · exact .inl (hdir.trans (if_neg hc))

/-- A step leaves the directory of a container alone or changes it in one of these ways. -/
theorem step_dir {ch : Choice} {w w' : World} {t : Tid} {o : Op} {r : Res o}
    (h : step ch w t o = some (r, w')) (c : Name) :
    w'.dir c = w.dir c ∨ DirStep w t c o (w.dir c) (w'.dir c) := by
  -- a call that fails leaves the world alone
  cases o with
  | mkdir e =>
    simp only [step] at h
    split at h <;> cases h
    · exact .inl rfl
    · refine dirStep_of_named (w.dir_mkdir e c) ?_
      cases w.dir e with
      | none => exact .inr .mkdir
      | some d => exact .inl rfl
  | lockContainer e =>
    simp only [step] at h
    split at h
    · cases h
      exact .inl rfl
    · rename_i d hd
      split at h
      · cases h
        exact .inl rfl
      · split at h
        · rename_i hfree
          cases h
          refine dirStep_of_named (w.dir_setDir e _ c) (.inr ?_)
          rw [hd]
          exact .lock hfree
        · exact nomatch h
  | createTemporary e x =>
    simp only [step] at h
    split at h
    · cases h
      exact .inl rfl
    · rename_i d hd
      split at h <;> cases h
      · exact .inl rfl
      · rename_i hnew
        refine dirStep_of_named (w.dir_setDir e _ c) (.inr ?_)
        rw [hd]
        exact .createTemporary fun hmem => hnew (.inr hmem)
  | commit e x =>
    simp only [step] at h
    split at h
    · cases h
      exact .inl rfl
    · rename_i d hd
      split at h
      · cases h
        exact .inl rfl
      · rename_i hopen
        have hopen := not_not.mp hopen
        obtain ⟨d', hdirs, hstep⟩ : ∃ d', w'.dir c = (w.setDir e d').dir c ∧
            DirStep w t e (.commit e x) (some d) (some d') := by
          -- the file is in place also where only its directory could not be synchronised
          split at h <;> cases h
          · exact ⟨_, by rw [World.dir_recordWrite], .install hopen⟩
          · exact ⟨_, by rw [World.dir_recordWrite], .install hopen⟩
          · exact ⟨_, rfl, .discard hopen⟩
        refine dirStep_of_named (hdirs.trans (w.dir_setDir e _ c)) (.inr ?_)
        rwa [hd]
  | unlink e leaf =>
    simp only [step] at h
    split at h
    · cases h
      exact .inl rfl
    · rename_i d hd
      split at h
      · cases h
        exact .inl rfl
      · rename_i hleaf
        have hmem : leaf ∈ d.leaves := by
          by_contra hnot
          exact hleaf (.inr hnot)
        have hdirs : w'.dir c = (w.setDir e (d.unlink leaf)).dir c := by
          split at h <;> cases h <;> rfl
        refine dirStep_of_named (hdirs.trans (w.dir_setDir e _ c)) (.inr ?_)
        rw [hd]
        exact .unlink hmem
  | rmdir e =>
    simp only [step] at h
    split at h
    · cases h
      exact .inl rfl
    · rename_i d hd
      split at h <;> cases h
      · exact .inl rfl
      · rename_i hempty
        have hleaves : d.leaves = [] := by
          by_contra hnot
          exact hempty (.inr hnot)
        refine dirStep_of_named (w.dir_eraseDir e c) (.inr ?_)
        rw [hd, Dir.eq_of_leaves hleaves]
        exact .rmdir
  | remove remover e resource =>
    simp only [step, Option.some.injEq, Prod.mk.injEq] at h
    obtain ⟨-, rfl⟩ := h
    split
    · exact .inl rfl
    · refine dirStep_of_named (e := e) (d := (w.dir e).map (·.without resource)) ?_ ?_
      · rw [World.dir_clear]
        split <;> simp [*]
      · cases w.dir e with
        | none => exact .inl rfl
        | some d => exact .inr .remove
  | makeDir e leaf =>
    simp only [step] at h
    split at h
    · cases h
      exact .inl rfl
    · split at h
      · rename_i d hd
        cases h
        rw [World.dir_mkdir, if_pos rfl] at hd
        refine dirStep_of_named (e := e) (d := some (d.make leaf)) ?_ (.inr ?_)
        · rw [World.dir_setDir, World.dir_mkdir]
          split <;> rfl
        · rw [← Option.some.inj hd]
          exact .makeDir
      · exact nomatch h
  | _ => simp only [step] at h; grind [World.dir, World.addProc, World.setPhase, World.setNotify]

section

variable {ch : Choice} {w w' : World} {t : Tid} {o : Op} {r : Res o}

/-- A configuration is changed by its replacement and by its removal. -/
theorem step_config (h : step ch w t o = some (r, w')) (c : Name) :
    w'.config c = w.config c ∨ (∃ doc, o = .commit c (.config doc) ∧ w'.config c = some doc) ∨
      (o = .unlink c .config ∧ w'.config c = none) := by
  rcases step_dir h c with hdir | hdir
  · exact .inl (by rw [World.config, hdir, World.config])
  · simp only [World.config]
    generalize w.dir c = d₀ at hdir ⊢
    generalize w'.dir c = d₁ at hdir ⊢
    cases hdir with
    | install hopen =>
      rename_i x
      cases x with
      | config doc => exact .inr (.inl ⟨doc, rfl, rfl⟩)
      | state writer doc => exact .inl rfl
    | unlink hleaf =>
      rename_i leaf
      cases leaf with
      | config => exact .inr (.inr ⟨rfl, rfl⟩)
      | _ => exact .inl rfl
    | remove =>
      rename_i resource
      cases resource <;> exact .inl rfl
    | makeDir =>
      rename_i leaf
      cases d₀ <;> cases leaf <;> exact .inl rfl
    | _ => exact .inl rfl

/-- A temporary file is created only if it is not there. -/
theorem step_temporaries (h : step ch w t o = some (r, w')) {c : Name}
    (hw : ∀ d, w.dir c = some d → d.temporaries.Nodup) (d : Dir)
    (hd : w'.dir c = some d) : d.temporaries.Nodup := by
  rcases step_dir h c with hdir | hdir
  · exact hw d (hdir ▸ hd)
  · rw [hd] at hdir
    generalize w.dir c = d₀ at hdir hw
    cases hdir with
    | mkdir => exact List.nodup_nil
    | @lock d hfree => exact hw d rfl
    | createTemporary hnew => exact List.nodup_cons.mpr ⟨hnew, hw _ rfl⟩
    | @install d x hopen => cases x <;> exact Dir.nodup_unlink (d := d) (hw _ rfl) _
    | discard hopen | unlink hleaf => exact Dir.nodup_unlink (hw _ rfl) _
    | @remove d remover resource => cases resource <;> exact hw d rfl
    | makeDir =>
      rename_i leaf
      cases d₀ with
      | none => cases leaf <;> exact List.nodup_nil
      | some d => cases leaf <;> exact hw d rfl

end

attribute [local grind] World.clear World.setPhase World.setNotify World.addProc World.setDir
  World.mkdir World.eraseDir

variable {ch : Choice} {w w' : World} {t : Tid} {o : Op} {r : Res o}

/-- The registry lock is taken when it is free, and given back by its holder. -/
theorem step_registry (h : step ch w t o = some (r, w')) :
    w'.registry = w.registry ∨ (o = .lockRegistry ∧ w.registry = none ∧ w'.registry = some t) ∨
      (w.registry = some t ∧ w'.registry = none ∧
        (o = .unlockRegistry ∨ ∃ code, o = .exit code)) := by
  cases o with
  | commit d content => cases content <;> simp only [step] at h <;> grind
  | unlink d leaf => cases leaf <;> simp only [step] at h <;> grind
  | remove remover d resource => cases resource <;> simp only [step] at h <;> grind
  | _ => simp only [step] at h; grind

/-- A container's lock is given back, forgotten with its file, or taken. -/
theorem step_containerLocks (h : step ch w t o = some (r, w')) (c : Name) :
    w'.containerLocks c = w.containerLocks c ∨ w'.containerLocks c = none ∨
      (o = .lockContainer c ∧ w'.containerLocks c = some t) := by
  have hsame : w'.containerLocks = w.containerLocks → w'.containerLocks c = w.containerLocks c :=
    fun h => congrFun h c
  cases o with
  | lockContainer d =>
    simp only [step] at h
    split at h
    · cases h
      exact .inl rfl
    · split at h
      · cases h
        exact .inl rfl
      · split at h
        · cases h
          by_cases hc : c = d
          · subst hc
            exact .inr (.inr ⟨rfl, update_self ..⟩)
          · exact .inl (update_of_ne hc ..)
        · exact nomatch h
  | unlockContainer d =>
    cases h
    by_cases hc : c = d
    · subst hc
      simp only [update_self]
      grind
    · exact .inl (update_of_ne hc ..)
  | unlink d leaf =>
    simp only [step] at h
    split at h
    · cases h
      exact .inl rfl
    · split at h
      · cases h
        exact .inl rfl
      · split at h
        · cases h
          exact .inl rfl
        · cases h
          by_cases hc : c = d
          · subst hc
            exact .inr (.inl (update_self ..))
          · exact .inl (update_of_ne hc ..)
        · cases h
          exact .inl rfl
  | exit code =>
    cases h
    rw [World.containerLocks_leave]
    grind
  | commit d content => cases content <;> simp only [step] at h <;> exact .inl (hsame (by grind))
  | remove remover d resource =>
    cases resource <;> simp only [step] at h <;> exact .inl (hsame (by grind))
  | _ => simp only [step] at h; exact .inl (hsame (by grind))

/-- Only a process that ends gets an exit code. -/
theorem step_exits (h : step ch w t o = some (r, w')) :
    w'.exits = w.exits ∨ ∃ code, o = .exit code := by
  cases o with
  | commit d content => cases content <;> simp only [step] at h <;> grind
  | unlink d leaf => cases leaf <;> simp only [step] at h <;> grind
  | remove remover d resource => cases resource <;> simp only [step] at h <;> grind
  | _ => simp only [step] at h; grind

/-- Only a fork adds a shim; all else that happens to a shim is its own doing. -/
theorem step_shims (h : step ch w t o = some (r, w'))
    (ho : ∀ config args, o ≠ .fork config args) : World.OnlyShim t w w' := by
  cases o with
  | fork config args => exact absurd rfl (ho config args)
  | commit d content =>
    simp only [step] at h
    split at h
    · cases h
      exact .of_eq rfl
    · split at h
      · cases h
        exact .of_eq rfl
      · split at h
        · cases h
          exact World.onlyShim_recordWrite _ t d content
        · cases h
          exact World.onlyShim_recordWrite _ t d content
        · cases h
          exact .of_eq rfl
  | notify =>
    simp only [step] at h
    split at h
    · cases h
      exact .of_eq rfl
    · cases h
      exact .of_update rfl
  | closeReady =>
    cases h
    exact w.onlyShim_closeReady t
  | waitChild =>
    cases h
    split
    · exact .of_update rfl
    · exact .of_eq rfl
  | exit code =>
    cases h
    exact w.onlyShim_leave t code
  | unlink d leaf => cases leaf <;> simp only [step] at h <;> exact .of_eq (by grind)
  | remove remover d resource =>
    cases resource <;> simp only [step] at h <;> exact .of_eq (by grind)
  | _ => simp only [step] at h; exact .of_eq (by grind)

/-- A fork adds the shim whose handle it answers. -/
theorem step_fork {config : RunConfig} {args : List Text} {r : Option Tid}
    (h : step ch w t (.fork config args) = some (r, w')) :
    (r = none ∧ w' = w) ∨
      (r = some ch.tid ∧ ∃ shim, w'.shims = update w.shims ch.tid (some shim)) := by
  simp only [step] at h
  split at h
  · cases h
    exact .inl ⟨rfl, rfl⟩
  · split at h
    · cases h
      exact .inr ⟨rfl, _, rfl⟩
    · exact nomatch h

/-- The environment changes the process table only. -/
theorem envStep_eq (h : envStep ch w = some w') : ∃ procs, w' = { w with procs } := by
  unfold envStep at h
  split at h
  · exact nomatch h
  · exact ⟨_, (Option.some.inj h).symm⟩

/-! ## Reads that fail -/

/-- A read that fails changes its answer, not what becomes of the world. -/
theorem exists_step_of_faultyStep (h : faultyStep ch w t o = some (r, w')) :
    ∃ r', step ch w t o = some (r', w') := by
  cases o with
  | readConfig | readState | startTime =>
    cases h
    exact ⟨_, rfl⟩
  | _ => exact ⟨r, h⟩

/-- Every step is one of the machine with failing reads, by a choice in which no read fails. -/
theorem exists_faultyStep_eq (ch : Choice) (w : World) (t : Tid) (o : Op) :
    ∃ ch', faultyStep ch' w t o = step ch w t o ∧ ∀ c, o = .readConfig c → ch'.fault = .none := by
  cases o with
  | readConfig | readState | startTime => exact ⟨{}, rfl, fun _ _ => rfl⟩
  | _ => exact ⟨ch, rfl, fun _ ho => (by cases ho)⟩

end MiniContainer
