import MiniContainer.ForStd.Protocol
import MiniContainer.Native.Locks
import MiniContainer.Spec.Register

/-!
# The order of the locks

The protocol that every process follows. A command takes the registry lock first and a
container's lock only under it, and no shim takes either; a process that holds `nft.lock`
waits for nothing; and only a command waits for a shim. Whether the programs follow it is
a matter of the programs alone.
-/

namespace MiniContainer

open CString (Text)

/-! ## The protocol -/

/-- Where a command stands with the locks of the registry. A container's lock is never held
    without the registry lock. -/
inductive Stage where
  | free
  | registry
  | container (c : Name)
  deriving DecidableEq, Repr

/-- What a process knows about itself: whether it is a shim, where it stands with the locks of
    the registry, the shim it has forked, and whether it has ended. -/
structure Standing where
  shim : Bool := false
  stage : Stage := .free
  child : Option Tid := none
  ended : Bool := false

/-- The operation is allowed, apart from the end of the process. -/
def Standing.Permits (g : Standing) : Op → Prop
  | .lockRegistry => g.shim = false ∧ g.stage = .free
  | .lockContainer _ => g.shim = false ∧ g.stage = .registry
  | .unlockRegistry => ∀ c, g.stage ≠ .container c
  | .readState _ | .control _ _ | .awaitReady _ => g.shim = false
  | .waitShim s => g.shim = false ∧ g.child = some s
  | _ => True

/-- What an operation makes of it. -/
def Standing.after (g : Standing) : (o : Op) → Res o → Standing
  | .lockRegistry, true => { g with stage := .registry }
  | .unlockRegistry, _ => { g with stage := .free }
  | .lockContainer c, true => { g with stage := .container c }
  | .unlockContainer c, _ => if g.stage = .container c then { g with stage := .registry } else g
  | .fork _ _, some s => { g with child := some s }
  | .exit _, _ => { g with stage := .free, ended := true }
  | _, _ => g

/-- The order of the locks of the registry. -/
def registryOrder : Protocol Op Res Standing where
  allows g o := g.ended = false ∧ g.Permits o
  after := Standing.after

/-- The operation is performed under `nft.lock`. -/
def Op.filters : Op → Bool
  | .remove _ _ .rules | .addRules _ => true
  | _ => false

/-- The order of all locks. The second component says whether the process holds `nft.lock`. -/
def lockOrder : Protocol LockOp LockRes (Standing × Bool) where
  allows g
    | .base o => registryOrder.allows g.1 o ∧ (g.2 = true → o.filters = true)
    | .lockNft => g.1.ended = false ∧ g.2 = false
    | .unlockNft | .ensureBase => g.1.ended = false
  after g
    | .base o, r => (registryOrder.after g.1 o r, g.2)
    | .lockNft, r => (g.1, r)
    | .unlockNft, _ => (g.1, false)
    | .ensureBase, _ => g

/-- The code for an operation keeps to the order. -/
theorem follows_carryOut {g : Standing} {o : Op} (h : registryOrder.allows g o) :
    (carryOut o).Follows lockOrder (fun r g' => g' = (registryOrder.after g o r, false))
      (g, false) := by
  have hplain : (performLock (.base o)).Follows lockOrder
      (fun r g' => g' = (registryOrder.after g o r, false)) (g, false) :=
    ⟨⟨h, nofun⟩, fun r => rfl⟩
  cases o with
  | remove remover c resource =>
    cases resource with
    | rules =>
      refine ⟨⟨h.1, rfl⟩, fun locked => ?_⟩
      cases locked with
      | true => exact ⟨⟨h, fun _ => rfl⟩, fun r => ⟨h.1, fun _ => rfl⟩⟩
      | false => rfl
    | _ => exact hplain
  | addRules c =>
    refine ⟨⟨h.1, rfl⟩, fun locked => ?_⟩
    cases locked with
    | true => exact ⟨⟨h, fun _ => rfl⟩, fun r => ⟨h.1, fun _ => rfl⟩⟩
    | false => rfl
  | createVeth c =>
    refine ⟨⟨h.1, rfl⟩, fun locked => ?_⟩
    cases locked with
    | true =>
      refine ⟨h.1, fun ensured => ⟨h.1, fun _ => ?_⟩⟩
      cases ensured with
      | true => exact ⟨⟨h, nofun⟩, fun r => rfl⟩
      | false => rfl
    | false => rfl
  | _ => exact hplain

/-! ## The programs follow the protocol -/

/-- A command that stands at `stage`. -/
structure Standing.At (stage : Stage) (g : Standing) : Prop where
  shim : g.shim = false
  ended : g.ended = false
  stage : g.stage = stage

/-- Started at `stage`, the program of a command keeps to the order and ends at `stage`. -/
def StaysAt {α : Type} (stage : Stage) (p : Action α) : Prop :=
  ∀ g : Standing, g.At stage → p.Follows registryOrder (fun _ g' => g'.At stage) g

/-- The operation takes or gives back a lock of the registry, or starts or ends a process. -/
def Op.turns : Op → Bool
  | .lockRegistry | .unlockRegistry | .lockContainer _ | .unlockContainer _ | .fork _ _
  | .exit _ => true
  | _ => false

/-- The operation is open to every command and leaves it where it stands. -/
def Op.neutral : Op → Bool
  | .waitShim _ => false
  | o => !o.turns

namespace StaysAt

variable {α β : Type} {stage : Stage}

theorem ret (a : α) : StaysAt stage (Prog.ret a : Action α) := fun _ hg => hg

theorem bind {p : Action α} {f : α → Action β} (hp : StaysAt stage p)
    (hf : ∀ a, StaysAt stage (f a)) : StaysAt stage (p.bind f) :=
  fun g hg => Prog.Follows.bind ((hp g hg).mono fun a g' hg' => hf a g' hg')

theorem andThen {p : Attempt α} {f : α → Attempt β} (hp : StaysAt stage p)
    (hf : ∀ a, StaysAt stage (f a)) : StaysAt stage (p >>= f : Attempt β) :=
  StaysAt.bind hp fun
    | .ok a => hf a
    | .error e => ret (Except.error e)

theorem of_neutral {p : Action α} (hp : p.Uses fun o => o.neutral = true) : StaysAt stage p := by
  intro g hg
  refine (Prog.Follows.of_uses hp fun o ho => ?_).mono fun a g' hg' => hg' ▸ hg
  -- such an operation is allowed to every command and is no turn of the protocol
  have hpermits : g.Permits o := by
    cases o with
    | readState | control | awaitReady => exact hg.shim
    | lockRegistry | lockContainer | unlockRegistry | waitShim => exact nomatch ho
    | _ => trivial
  refine ⟨⟨hg.ended, hpermits⟩, fun r => ?_⟩
  cases o with
  | lockRegistry | unlockRegistry | lockContainer | unlockContainer | fork | exit =>
    exact nomatch ho
  | _ => rfl

theorem of_reads {p : Action α} (hp : Reads p) : StaysAt stage p :=
  of_neutral (hp.mono fun o ho => by cases o <;> first | rfl | exact nomatch ho)

theorem of_repairs {p : Action α} (hp : Repairs p) : StaysAt stage p :=
  of_neutral (hp.mono fun o ho => by cases o <;> first | rfl | exact nomatch ho)

theorem of_registers {c : Name} {p : Action α}
    (hp : p.Uses fun o => o.registers c ∧ o ≠ .lockContainer c) : StaysAt stage p := by
  refine of_neutral (hp.mono fun o ⟨ho, hlock⟩ => ?_)
  rcases ho with hreads | hrepairs | rfl | rfl | ⟨content, rfl⟩ | ⟨content, rfl⟩
  · cases o <;> first | rfl | exact nomatch hreads
  · cases o <;> first | rfl | exact nomatch hrepairs
  · rfl
  · exact absurd rfl hlock
  · rfl
  · rfl

theorem remove (c : Name) : StaysAt stage (MiniContainer.remove c) :=
  of_neutral ((removes_remove c).mono fun o ho => by cases o <;> first | rfl | exact nomatch ho)

/-- The registry lock is taken by a command that holds none. -/
theorem follows_registryLock {g : Standing} (hg : g.At .free) :
    registryLock.Follows registryOrder (fun
      | .ok (), g' => g'.At .registry
      | .error _, g' => g'.At .free) g := by
  refine ⟨⟨hg.ended, hg.shim, hg.stage⟩, fun locked => ?_⟩
  cases locked with
  | false => exact hg
  | true => exact ⟨hg.shim, hg.ended, rfl⟩

/-- A section under the registry lock. -/
theorem underRegistry {p : Attempt α} (hp : StaysAt .registry p) :
    StaysAt .free (MiniContainer.underRegistry p) := by
  intro g hg
  refine Prog.Follows.bind ((follows_registryLock hg).mono fun locked g' hg' => ?_)
  cases locked with
  | error e => exact hg'
  | ok locked =>
    refine Prog.Follows.bind ((hp g' hg').mono fun result g₁ hg₁ => ?_)
    exact ⟨⟨hg₁.ended, fun c hc => nomatch hg₁.stage.symm.trans hc⟩,
      fun _ => ⟨hg₁.shim, hg₁.ended, rfl⟩⟩

/-- A container's lock is taken under the registry lock. -/
theorem follows_containerLock {c : Name} {g : Standing} (hg : g.At .registry) :
    (containerLock c).Follows registryOrder (fun
      | .ok (), g' => g'.At (.container c)
      | .error _, g' => g'.At .registry) g := by
  refine ⟨⟨hg.ended, trivial⟩, fun made => ?_⟩
  cases made with
  | false => exact hg
  | true =>
    refine ⟨⟨hg.ended, hg.shim, hg.stage⟩, fun locked => ?_⟩
    cases locked with
    | false => exact hg
    | true => exact ⟨hg.shim, hg.ended, rfl⟩

/-- A section under a container's lock. -/
theorem underContainer {c : Name} {p : Attempt α} (hp : StaysAt (.container c) p) :
    StaysAt .registry (MiniContainer.underContainer c p) := by
  intro g hg
  refine Prog.Follows.bind ((follows_containerLock hg).mono fun locked g' hg' => ?_)
  cases locked with
  | error e => exact hg'
  | ok locked =>
    refine Prog.Follows.bind ((hp g' hg').mono fun result g₁ hg₁ => ?_)
    refine ⟨⟨hg₁.ended, trivial⟩, fun _ => ?_⟩
    simp only [registryOrder, Standing.after, if_pos hg₁.stage]
    exact ⟨hg₁.shim, hg₁.ended, rfl⟩

/-- A shim is launched, and waited for. -/
theorem launchShim (config : RunConfig) : StaysAt stage (MiniContainer.launchShim config) := by
  have hready : (readyDescriptor config).Uses fun o => o.neutral = true := by
    rw [readyDescriptor]
    split
    · refine .perform_andThen rfl fun fd => ?_
      split
      · trivial
      · exact .andThen (uses_check (uses_perform.mpr rfl)) fun _ => trivial
    · trivial
  refine andThen (of_neutral hready) fun fd g hg => ⟨⟨hg.ended, trivial⟩, fun child => ?_⟩
  cases child with
  | none => exact hg
  | some child =>
    -- the launcher waits for its own child only
    have hchild : Standing.At stage { g with child := some child } := ⟨hg.shim, hg.ended, hg.stage⟩
    show Prog.Follows registryOrder _ (awaitShim config child) { g with child := some child }
    rw [awaitShim]
    split
    · refine ⟨⟨hg.ended, hg.shim⟩, fun ready => ?_⟩
      cases ready with
      | true => exact hchild
      | false => exact ⟨⟨hg.ended, hg.shim, rfl⟩, fun _ => hchild⟩
    · exact ⟨⟨hg.ended, hg.shim, rfl⟩, fun _ => hchild⟩

end StaysAt

/-! ### Commands -/

theorem staysAt_reconcile {stage : Stage} : StaysAt stage reconcile := .of_repairs repairs_reconcile

theorem staysAt_ps (root includeStopped : Bool) : StaysAt .free (ps root includeStopped) := by
  have hlist : StaysAt .free (printList includeStopped) := .of_reads (reads_printList _)
  rw [ps]
  split
  · exact staysAt_reconcile.andThen fun _ => hlist.andThen fun _ => .ret _
  · exact hlist.andThen fun _ => .ret _

theorem staysAt_gc : StaysAt .free gc :=
  .underRegistry (staysAt_reconcile.andThen fun _ => .ret _)

theorem staysAt_kill (reference : Text) (number : Nat) : StaysAt .free (kill reference number) :=
  .underRegistry (.andThen (.of_reads (reads_resolve reference)) fun id =>
    .andThen (.underContainer (.of_reads (reads_signal id number))) fun _ => .ret _)

theorem staysAt_stop (reference : Text) (timeout : Nat) :
    StaysAt .free (stop reference timeout) := by
  have hterm : StaysAt .free (underRegistry do
      let id ← resolve reference
      underContainer id (signal id sigterm)
      return id) :=
    .underRegistry (.andThen (.of_reads (reads_resolve reference)) fun id =>
      .andThen (.underContainer (.of_reads (reads_signal id sigterm))) fun _ => .ret _)
  refine hterm.andThen fun id =>
    .andThen (.bind (.of_reads (reads_awaitExit id _)) fun _ => .ret _) fun stopped => ?_
  split
  · exact .ret _
  · exact .andThen (.underRegistry (.underContainer (.of_reads (reads_signal id sigkill))))
      fun _ => .ret _

theorem staysAt_rm (force : Bool) (reference : Text) : StaysAt .free (rm force reference) :=
  .underRegistry (staysAt_reconcile.andThen fun _ =>
    .andThen (.of_reads (reads_resolve reference)) fun id =>
    .andThen (.underContainer (.of_reads (reads_ensureStopped force id))) fun _ =>
    .andThen (.remove id) fun _ => .ret _)

theorem staysAt_start (reference : Text) : StaysAt .free (start reference) := by
  refine .underRegistry (staysAt_reconcile.andThen fun _ =>
    .andThen (.of_reads (reads_loadConfig reference)) fun (stored, _) =>
    .underContainer (.andThen (.of_reads (reads_getStatus _)) fun status => ?_))
  split
  · exact .launchShim _
  · exact .ret _

/-- The critical section of `run` and `create` up to its first failure, where it may hold both
    locks, one or none. -/
theorem follows_registerSteps {build : Build} {createOnly : Bool} {config : RunConfig}
    {image : Text} {g : Standing} (hg : g.At .free) :
    (registerSteps build createOnly config image).Follows registryOrder (fun
      | .ok _, g' => g'.At (.container config.id)
      | .error _, g' => g'.At .free ∨ g'.At .registry ∨ g'.At (.container config.id)) g := by
  refine Prog.Follows.bind ((StaysAt.follows_registryLock hg).mono fun locked g₁ hg₁ => ?_)
  cases locked with
  | error e => exact .inl hg₁
  | ok locked =>
    refine Prog.Follows.bind ((staysAt_reconcile g₁ hg₁).mono fun repaired g₂ hg₂ => ?_)
    cases repaired with
    | error e => exact .inr (.inl hg₂)
    | ok repaired =>
      refine Prog.Follows.bind ((StaysAt.follows_containerLock hg₂).mono fun locked g₃ hg₃ => ?_)
      cases locked with
      | error e => exact .inr (.inl hg₃)
      | ok locked =>
        have hrest : StaysAt (.container config.id) (do
            let ipv4Host ← leaseAddress config
            let config := { config with ipv4Host }
            saveConfig build config image
            if createOnly then
              markCreated config.id
              return config
            else return config : Attempt RunConfig) := by
          refine .andThen (.of_reads (reads_leaseAddress config)) fun ipv4Host =>
            .andThen (.of_registers (registers_saveConfig build _ image)) fun _ => ?_
          split
          · exact .andThen (.of_registers (registers_writeAtomic (c := config.id) _)) fun _ =>
              .ret _
          · exact .ret _
        refine (hrest g₃ hg₃).mono fun registered g₄ hg₄ => ?_
        cases registered with
        | ok registered => exact hg₄
        | error e => exact .inr (.inr hg₄)

/-- Giving back a container's lock that may not be held. -/
theorem follows_unlockContainer {c : Name} {g : Standing} {β : Type} {p : Action β}
    {Q : β → Standing → Prop} (hg : g.At .free ∨ g.At .registry ∨ g.At (.container c))
    (hp : ∀ g' : Standing, g'.At .free ∨ g'.At .registry → p.Follows registryOrder Q g') :
    Prog.Follows registryOrder Q ((perform (.unlockContainer c)).bind fun _ => p) g := by
  have hended : g.ended = false := by
    rcases hg with hg | hg | hg <;> exact hg.ended
  refine ⟨⟨hended, trivial⟩, fun _ => hp _ ?_⟩
  simp only [registryOrder, Standing.after]
  rcases hg with hg | hg | hg
  · rw [if_neg (by simp [hg.stage])]
    exact .inl hg
  · rw [if_neg (by simp [hg.stage])]
    exact .inr hg
  · rw [if_pos hg.stage]
    exact .inr ⟨hg.shim, hg.ended, rfl⟩

/-- Giving back a registry lock that may not be held. -/
theorem follows_unlockRegistry {α : Type} {g : Standing} (hg : g.At .free ∨ g.At .registry)
    (a : α) : Prog.Follows registryOrder (fun _ g' => g'.At .free)
      ((perform .unlockRegistry).bind fun _ => .ret a) g := by
  rcases hg with hg | hg
  · exact ⟨⟨hg.ended, fun c hc => nomatch hg.stage.symm.trans hc⟩,
      fun _ => ⟨hg.shim, hg.ended, rfl⟩⟩
  · exact ⟨⟨hg.ended, fun c hc => nomatch hg.stage.symm.trans hc⟩,
      fun _ => ⟨hg.shim, hg.ended, rfl⟩⟩

theorem staysAt_register (build : Build) (createOnly : Bool) (config : RunConfig) (image : Text) :
    StaysAt .free (register build createOnly config image) := by
  intro g hg
  refine Prog.Follows.bind ((follows_registerSteps hg).mono fun result g₁ hg₁ => ?_)
  cases result with
  | ok registered =>
    exact follows_unlockContainer (.inr (.inr hg₁)) fun g₂ hg₂ => follows_unlockRegistry hg₂ _
  | error e =>
    refine follows_unlockContainer hg₁ fun g₂ hg₂ => ?_
    -- what was stored is removed wherever the section has stopped
    have hremove : Prog.Follows registryOrder (fun _ g' => g'.At .free ∨ g'.At .registry)
        (remove config.id) g₂ := by
      rcases hg₂ with hg₂ | hg₂
      · exact (StaysAt.remove config.id g₂ hg₂).mono fun _ _ => .inl
      · exact (StaysAt.remove config.id g₂ hg₂).mono fun _ _ => .inr
    exact Prog.Follows.bind (hremove.mono fun _ g₃ hg₃ => follows_unlockRegistry hg₃ _)

theorem staysAt_runOrCreate (build : Build) (createOnly : Bool) (request : RunRequest) :
    StaysAt .free (runOrCreate build createOnly request) := by
  refine .bind (.of_neutral (uses_perform.mpr rfl)) fun
    | none => .ret _
    | some id => ?_
  dsimp only
  split
  · exact .ret _
  · refine (staysAt_register build createOnly _ _).bind fun
      | .error e => .ret _
      | .ok config => ?_
    dsimp only
    split
    · exact .ret _
    · exact .bind (.launchShim config) fun _ => .ret _

/-- The outcome of a subcommand. -/
theorem staysAt_report {p : Attempt Nat} (hp : StaysAt .free p) : StaysAt .free (report p) :=
  .bind hp fun _ => .ret _

theorem staysAt_subcommand (host : Host) (build : Build) (root : Bool) (name : Text)
    (args : List Text) : StaysAt .free (subcommand host build root name args) := by
  have hrun : ∀ createOnly, StaysAt .free (runCommand host build createOnly args) := by
    intro createOnly
    unfold runCommand
    split
    · exact .ret _
    · exact .ret _
    · exact staysAt_runOrCreate _ _ _
  unfold subcommand
  repeat' split
  · unfold psCommand
    split
    · exact staysAt_report (staysAt_ps _ _)
    · exact .ret _
  · exact hrun false
  · exact hrun true
  · unfold gcCommand
    split
    · split
      · exact staysAt_report staysAt_gc
      · exact .ret _
    · exact .ret _
  · unfold killCommand
    split
    · exact staysAt_report (staysAt_kill _ _)
    · split
      · exact staysAt_report (staysAt_kill _ _)
      · exact .ret _
    · exact .ret _
  · unfold stopCommand
    split
    · exact staysAt_report (staysAt_stop _ _)
    · split
      · exact staysAt_report (staysAt_stop _ _)
      · exact .ret _
    · exact .ret _
  · unfold rmCommand
    split
    · exact staysAt_report (staysAt_rm _ _)
    · split
      · exact staysAt_report (staysAt_rm _ _)
      · exact .ret _
    · exact .ret _
  · unfold startCommand
    split
    · split
      · exact staysAt_report (staysAt_start _)
      · exact .ret _
    · exact .ret _
  · exact .ret _

/-- A process that ends with its outcome. -/
theorem follows_exiting {p : Action Outcome} {g : Standing}
    (hp : p.Follows registryOrder (fun _ g' => g'.ended = false) g) :
    (exiting p).Follows registryOrder (fun _ g' => g'.ended = true) g :=
  Prog.Follows.bind (hp.mono fun _ _ hended => ⟨⟨hended, trivial⟩, fun _ => rfl⟩)

theorem follows_main (host : Host) (build : Build) (root : Bool) (args : List Text) :
    (main host build root args).Follows registryOrder (fun _ g => g.ended = true) {} := by
  cases args with
  | nil => exact follows_exiting rfl
  | cons name args =>
    exact follows_exiting ((staysAt_subcommand host build root name args {} ⟨rfl, rfl, rfl⟩).mono
      fun _ _ hg => hg.ended)

theorem follows_shimMain (host : Host) (args : List Text) :
    (shimMain host args).Follows registryOrder (fun _ g => g.ended = true) { shim := true } := by
  rw [shimMain]
  split
  · exact follows_exiting rfl
  · rename_i config hconfig
    have hrun : Prog.Uses (fun o => o.supervises = true)
        ((shimRun config).bind fun result => .ret (Outcome.ofExcept result)) :=
      (supervises_shimRun config).bind fun _ => trivial
    refine follows_exiting ((Prog.Follows.of_uses hrun fun o ho => ?_).mono fun _ g hg => hg ▸ rfl)
    unfold Op.supervises at ho
    split at ho <;> first | exact ⟨⟨rfl, trivial⟩, fun _ => rfl⟩ | cases ho

end MiniContainer
