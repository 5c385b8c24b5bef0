import MiniContainer.Spec.Accepted
import MiniContainer.Spec.LockOrder

/-!
# No deadlock

No set of commands and shims deadlocks. Every process follows the order of the locks, and
the world shows what the protocol says that it holds. So whoever a process waits for stands
in front of an operation of a lower rank: the registry lock above the progress of a shim,
and that above `nft.lock`. Nobody ever waits for a container's lock.
-/

namespace MiniContainer

open CString (Text)
open Function (update update_self update_of_ne)

/-! ## Waiting -/

/-- The lock that an operation asks for. -/
def LockOp.requests : LockOp → Option Lock
  | .base .lockRegistry => some .registry
  | .base (.lockContainer c) => some (.container c)
  | .lockNft => some .nft
  | _ => none

/-- The operation waits for the progress of shim `s`: for its readiness, for its end, for its
    answer on the control socket, or for a new state of its container. -/
def World.Awaits (w : World) (s : Tid) : Op → Prop
  | .awaitReady s' => s = s' ∧ (w.shims s).map Shim.notify = some .pending
  | .waitShim s' => s = s' ∧ w.exits s = none
  | .control c _ => w.sockets c = some s ∧ (w.shims s).map Shim.phase = some .running
  | .readState c => ∃ shim, w.shims s = some shim ∧ shim.id = c ∧ shim.phase ≠ .dead
  | _ => False

/-- The systems of `lockMachine`. -/
abbrev LockSys := Sys LockOp LockRes Outcome LockWorld

/-- The next operation of process `t` waits for shim `s`. -/
def LockSys.AwaitsShim (S : LockSys) (t s : Tid) : Prop :=
  ∃ o, S.pending t = some (.base o) ∧ S.world.base.Awaits s o

/-- The next operation of process `t` asks for a lock. -/
def LockSys.Requests (S : LockSys) (t : Tid) (l : Lock) : Prop :=
  ∃ o, S.pending t = some o ∧ o.requests = some l

/-- Process `t` waits for process `t'`: for a lock that it holds, or for its progress. -/
def LockSys.WaitsFor (S : LockSys) (t t' : Tid) : Prop :=
  (∃ l, S.Requests t l ∧ S.world.holder l = some t') ∨ S.AwaitsShim t t'

/-! ## The world agrees with the protocol -/

/-- What a process knows about itself is what the world shows of it. -/
structure Standing.Agrees (w : World) (t : Tid) (g : Standing) : Prop where
  shim : (w.shims t).isSome = g.shim
  registry : w.registry = some t ↔ g.stage ≠ .free
  container : ∀ c, w.containerLocks c = some t → g.stage = .container c
  child : ∀ s, g.child = some s → (w.shims s).isSome
  ended : g.ended = true → (w.exits t).isSome ∧
    ∀ s, w.shims t = some s → s.phase = .dead ∧ s.notify ≠ .pending

theorem World.OnlyShim.isSome {t : Tid} {w w' : World} (h : World.OnlyShim t w w') (s : Tid) :
    (w'.shims s).isSome = (w.shims s).isSome := by
  rcases h s with hs | ⟨-, hs⟩
  · rw [hs]
  · exact hs

namespace Standing.Agrees

variable {ch : Choice} {w w' : World} {t t' : Tid} {o : Op} {r : Res o} {g : Standing}

/-- A step behind which the process stands as before. -/
theorem unmoved (h : g.Agrees w t) (hended : g.ended = false) (hregistry : w'.registry = w.registry)
    (hlocks : ∀ c, w'.containerLocks c = w.containerLocks c ∨ w'.containerLocks c = none)
    (hshims : World.OnlyShim t w w') : g.Agrees w' t where
  shim := (hshims.isSome t).trans h.shim
  registry := by rw [hregistry, h.registry]
  container c hc := by
    rcases hlocks c with heq | hnone
    · exact h.container c (heq ▸ hc)
    · exact nomatch hc.symm.trans hnone
  child s hs := (hshims.isSome s).trans (h.child s hs)
  ended htrue := nomatch hended.symm.trans htrue

/-- A process that has ended. -/
theorem leave (h : g.Agrees w t) (code : Nat) :
    Standing.Agrees (w.leave t code) t { g with stage := .free, ended := true } where
  shim := ((w.onlyShim_leave t code).isSome t).trans h.shim
  registry := by
    rw [World.registry_leave]
    grind
  container c hc := by
    rw [World.containerLocks_leave] at hc
    grind
  child s hs := ((w.onlyShim_leave t code).isSome s).trans (h.child s hs)
  ended _ := ⟨by simp, fun s hs => World.shims_leave_self hs⟩

/-- A process moves on as the protocol says. -/
theorem own (hs : step ch w t o = some (r, w')) (hspawn : ∀ c, forked o r ≠ some (t, c))
    (hallows : registryOrder.allows g o) (h : g.Agrees w t) : (g.after o r).Agrees w' t := by
  obtain ⟨hended, hpermits⟩ := hallows
  have hlocks := step_containerLocks hs
  have hregistry := step_registry hs
  have hsteady : o.turns = false → g.Agrees w' t := by
    intro ho
    refine h.unmoved hended ?_ (fun c => ?_) (step_shims hs fun config args heq => ?_)
    · rcases hregistry with heq | ⟨rfl, -⟩ | ⟨-, -, rfl | ⟨code, rfl⟩⟩
      · exact heq
      · cases ho
      · cases ho
      · cases ho
    · rcases hlocks c with heq | hnone | ⟨rfl, -⟩
      · exact .inl heq
      · exact .inr hnone
      · cases ho
    · cases heq ▸ ho
  cases o with
  | lockRegistry =>
    simp only [step] at hs
    split at hs
    · cases hs
      exact h
    · split at hs
      · cases hs
        -- the lock was free, and this process has it now
        have hstage := hpermits.2
        exact {
          shim := h.shim
          registry := by simp [Standing.after]
          container := fun c hc => absurd (hstage.symm.trans (h.container c hc)) (by simp)
          child := h.child
          ended := fun htrue => absurd (hended.symm.trans htrue) (by simp) }
      · cases hs
  | unlockRegistry =>
    cases hs
    exact {
      shim := h.shim
      registry := by
        simp only [Standing.after]
        grind
      container := fun c hc => absurd (h.container c hc) (hpermits c)
      child := h.child
      ended := fun htrue => absurd (hended.symm.trans htrue) (by simp) }
  | lockContainer c =>
    have hshims : World.OnlyShim t w w' := step_shims hs (by simp)
    have hstage := hpermits.2
    cases r with
    | false =>
      refine h.unmoved hended (hregistry.resolve_right (by simp)) (fun d => ?_) hshims
      simp only [step] at hs
      grind
    | true =>
      have hreg : w'.registry = w.registry := hregistry.resolve_right (by simp)
      exact {
        shim := (hshims.isSome t).trans h.shim
        registry := by
          rw [hreg, h.registry]
          simp [hstage, Standing.after]
        container := fun d hd => by
          -- no other container's lock was held by a process that held the registry lock only
          rcases hlocks d with heq | hnone | ⟨hop, -⟩
          · cases hstage.symm.trans (h.container d (heq ▸ hd))
          · cases hd.symm.trans hnone
          · cases hop
            rfl
        child := fun s hs => (hshims.isSome s).trans (h.child s hs)
        ended := fun htrue => absurd (hended.symm.trans htrue) (by simp) }
  | unlockContainer c =>
    have hfree : w'.containerLocks c ≠ some t := by
      cases hs
      simp only [update_self]
      grind
    have hreg : w'.registry = w.registry := hregistry.resolve_right (by simp)
    have hshims : World.OnlyShim t w w' := step_shims hs (by simp)
    have hlocks' : ∀ d, w'.containerLocks d = w.containerLocks d ∨ w'.containerLocks d = none :=
      fun d => by grind
    simp only [Standing.after]
    by_cases hstage : g.stage = .container c
    · rw [if_pos hstage]
      have hnone : ∀ d, w'.containerLocks d ≠ some t := by
        intro d hd
        rcases hlocks' d with heq | hnone
        · have hdc := Stage.container.inj (hstage.symm.trans (h.container d (heq ▸ hd)))
          exact hfree (hdc ▸ hd)
        · cases hd.symm.trans hnone
      exact {
        shim := (hshims.isSome t).trans h.shim
        registry := by
          rw [hreg, h.registry, hstage]
          simp
        container := fun d hd => absurd hd (hnone d)
        child := fun s hs => (hshims.isSome s).trans (h.child s hs)
        ended := fun htrue => absurd (hended.symm.trans htrue) (by simp) }
    · rw [if_neg hstage]
      exact h.unmoved hended hreg hlocks' hshims
  | fork config args =>
    rcases step_fork hs with ⟨rfl, rfl⟩ | ⟨rfl, shim, hshims⟩
    · exact h
    · have hne : t ≠ ch.tid := fun heq => hspawn (.shim args) (by rw [heq]; rfl)
      exact {
        shim := by rw [hshims, update_of_ne hne, h.shim]; rfl
        registry := by
          rw [hregistry.resolve_right (by simp), h.registry]
          rfl
        container := fun c hc => by
          rcases hlocks c with heq | hnone | ⟨hop, -⟩
          · exact h.container c (heq ▸ hc)
          · cases hc.symm.trans hnone
          · cases hop
        child := fun s hs => by
          cases hs
          simp [hshims]
        ended := fun htrue => absurd (hended.symm.trans htrue) (by simp) }
  | exit code =>
    cases hs
    exact h.leave code
  | _ => exact hsteady rfl

/-- What another process does leaves a process where it stands. -/
theorem others (hs : step ch w t o = some (r, w')) (hne : t' ≠ t)
    (hspawn : ∀ c, forked o r ≠ some (t', c)) (h : g.Agrees w t') : g.Agrees w' t' := by
  have hshims : w'.shims t' = w.shims t' ∧ ∀ s, (w.shims s).isSome → (w'.shims s).isSome := by
    by_cases hfork : ∃ config args, o = .fork config args
    · obtain ⟨config, args, rfl⟩ := hfork
      rcases step_fork hs with ⟨rfl, rfl⟩ | ⟨rfl, shim, hshims⟩
      · exact ⟨rfl, fun s => id⟩
      · have hne' : t' ≠ ch.tid := fun heq => hspawn (.shim args) (by rw [heq]; rfl)
        refine ⟨by rw [hshims, update_of_ne hne'], fun s hsome => ?_⟩
        by_cases hst : s = ch.tid
        · simp [hshims, hst]
        · rw [hshims, update_of_ne hst]
          exact hsome
    · have honly : World.OnlyShim t w w' :=
        step_shims hs fun config args heq => hfork ⟨config, args, heq⟩
      refine ⟨?_, fun s hsome => (honly.isSome s).trans hsome⟩
      rcases honly t' with heq | ⟨heq, -⟩
      · exact heq
      · exact absurd heq hne
  have hexits : w'.exits t' = w.exits t' := by
    rcases step_exits hs with heq | ⟨code, rfl⟩
    · rw [heq]
    · cases hs
      rw [World.exits_leave, update_of_ne hne]
  exact {
    shim := by rw [hshims.1, h.shim]
    registry := by
      rw [← h.registry]
      rcases step_registry hs with heq | ⟨-, hnone, hsome⟩ | ⟨hsome, hnone, -⟩
      · rw [heq]
      · simp [hnone, hsome, Ne.symm hne]
      · simp [hnone, hsome, Ne.symm hne]
    container := fun c hc => by
      rcases step_containerLocks hs c with heq | hnone | ⟨-, hsome⟩
      · exact h.container c (heq ▸ hc)
      · exact nomatch hc.symm.trans hnone
      · exact absurd (Option.some.inj (hc.symm.trans hsome)) hne
    child := fun s hs => hshims.2 s (h.child s hs)
    ended := by
      rw [hexits, hshims.1]
      exact h.ended }

end Standing.Agrees

/-- The four parts of the world that a standing speaks about. -/
theorem Standing.Agrees.congr {w w' : World} {t : Tid} {g : Standing} (h : g.Agrees w t)
    (hregistry : w'.registry = w.registry) (hlocks : w'.containerLocks = w.containerLocks)
    (hshims : w'.shims = w.shims) (hexits : w'.exits = w.exits) : g.Agrees w' t where
  shim := by rw [hshims, h.shim]
  registry := by rw [hregistry, h.registry]
  container := by
    rw [hlocks]
    exact h.container
  child := by
    rw [hshims]
    exact h.child
  ended := by
    rw [hexits, hshims]
    exact h.ended

/-- A standing and the `nft.lock` agree with the world. -/
def LockAgrees (w : LockWorld) (t : Tid) (g : Standing × Bool) : Prop :=
  g.1.Agrees w.base t ∧ (w.nft = some t → g.2 = true)

/-- How a process begins. -/
def startStanding : Cmd → Standing × Bool
  | .cli _ _ => ({}, false)
  | .shim _ => ({ shim := true }, false)

section LockSteps

variable {ch : Choice} {w w' : LockWorld} {t t' : Tid} {c : Cmd}

theorem LockWorld.releaseNft_eq_some (h : (w.releaseNft t).nft = some t') :
    w.nft = some t' ∧ t' ≠ t := by
  simp only [LockWorld.releaseNft] at h
  grind

/-- An operation of `Op` has its step, and takes no `nft.lock`. -/
theorem lockStep_base {o : Op} {r : Res o} (h : lockStep ch w t (.base o) = some (r, w')) :
    step ch w.base t o = some (r, w'.base) ∧ ∀ u, w'.nft = some u → w.nft = some u := by
  cases o with
  | exit code =>
    cases h
    exact ⟨rfl, fun u hu => (LockWorld.releaseNft_eq_some hu).1⟩
  | _ =>
    simp only [lockStep] at h
    split at h
    · exact nomatch h
    · rename_i r base hs
      cases h
      exact ⟨hs, fun u => id⟩

theorem LockAgrees.own {o : LockOp} {r : LockRes o} {g : Standing × Bool}
    (hs : lockStep ch w t o = some (r, w')) (hspawn : ∀ c, lockForked o r ≠ some (t, c))
    (hallows : lockOrder.allows g o) (h : LockAgrees w t g) :
    LockAgrees w' t (lockOrder.after g o r) := by
  cases o with
  | base o =>
    obtain ⟨hs, hnft⟩ := lockStep_base hs
    exact ⟨h.1.own hs hspawn hallows.1, fun hu => h.2 (hnft t hu)⟩
  | lockNft =>
    simp only [lockStep] at hs
    split at hs
    · cases hs
      exact ⟨h.1, fun hu => absurd (h.2 hu) (by simp [hallows.2])⟩
    · split at hs
      · cases hs
        exact ⟨h.1, fun _ => rfl⟩
      · exact nomatch hs
  | unlockNft =>
    cases hs
    exact ⟨h.1, fun hu => absurd rfl (LockWorld.releaseNft_eq_some hu).2⟩
  | ensureBase =>
    cases hs
    exact h

theorem LockAgrees.others {o : LockOp} {r : LockRes o} {g : Standing × Bool}
    (hs : lockStep ch w t o = some (r, w')) (hne : t' ≠ t)
    (hspawn : ∀ c, lockForked o r ≠ some (t', c)) (h : LockAgrees w t' g) :
    LockAgrees w' t' g := by
  cases o with
  | base o =>
    obtain ⟨hs, hnft⟩ := lockStep_base hs
    exact ⟨h.1.others hs hne hspawn, fun hu => h.2 (hnft t' hu)⟩
  | lockNft =>
    simp only [lockStep] at hs
    split at hs
    · cases hs
      exact h
    · split at hs
      · cases hs
        exact ⟨h.1, fun hu => absurd (Option.some.inj hu).symm hne⟩
      · exact nomatch hs
  | unlockNft =>
    cases hs
    exact ⟨h.1, fun hu => h.2 (LockWorld.releaseNft_eq_some hu).1⟩
  | ensureBase =>
    cases hs
    exact h

/-- A shim begins as one. -/
theorem LockAgrees.spawn {o : LockOp} {r : LockRes o} (hs : lockStep ch w t o = some (r, w'))
    (hspawn : lockForked o r = some (t', c)) (h : LockAgrees w t' ({}, false)) :
    LockAgrees w' t' (startStanding c) := by
  cases o with
  | base o =>
    obtain ⟨hs, hnft⟩ := lockStep_base hs
    obtain ⟨args, rfl⟩ := forked_eq_some hspawn
    have htid := forked_tid hs hspawn
    cases o with
    | fork config args' =>
      rcases step_fork hs with ⟨rfl, -⟩ | ⟨rfl, shim, hshims⟩
      · exact nomatch hspawn
      · refine ⟨?_, fun hu => h.2 (hnft t' hu)⟩
        exact {
          shim := by
            rw [hshims, htid, update_self]
            rfl
          registry := by
            rw [(step_registry hs).resolve_right (by simp), h.1.registry]
            rfl
          container := fun d hd => by
            rcases step_containerLocks hs d with heq | hnone | ⟨hop, -⟩
            · exact h.1.container d (heq ▸ hd)
            · exact nomatch hd.symm.trans hnone
            · exact nomatch hop
          child := nofun
          ended := nofun }
    | _ => exact nomatch hspawn
  | _ => exact nomatch hspawn

end LockSteps

/-- The order of the locks is kept in every run. -/
theorem lockOrder_sound (host : Host) (build : Build) :
    lockOrder.Sound (lockMachine host build) startStanding ({}, false)
      (fun g => g.1.ended = true) LockAgrees where
  prog c := by
    have hexpand {g : Standing} {p : Action Outcome}
        (h : p.Follows registryOrder (fun _ g => g.ended = true) g) :
        (p.expand carryOut).Follows lockOrder (fun _ g => g.1.ended = true) (g, false) := by
      have hp := h.expand (e := fun g => (g, false)) fun g o => follows_carryOut
      exact hp.mono fun _ _ ⟨_, heq, hended⟩ => heq ▸ hended
    cases c with
    | cli root args => exact hexpand (follows_main host build root args)
    | shim args => exact hexpand (follows_shimMain host args)
  own hs hspawn hallows h := LockAgrees.own hs hspawn hallows h
  others hs hne hspawn h := LockAgrees.others hs hne hspawn h
  spawn hs hspawn _ h := LockAgrees.spawn hs hspawn h
  enter {ch w t c w'} he h := by
    obtain ⟨base, hbase, rfl⟩ := Option.map_eq_some_iff.mp he
    cases c with
    | cli root args =>
      simp only [machine] at hbase
      split at hbase
      · cases hbase
        exact ⟨h.1.congr rfl rfl rfl rfl, h.2⟩
      · cases hbase
    | shim args => cases hbase
  entered {ch w t c w' t' g} he _ h := by
    obtain ⟨base, hbase, rfl⟩ := Option.map_eq_some_iff.mp he
    cases c with
    | cli root args =>
      simp only [machine] at hbase
      split at hbase
      · cases hbase
        exact ⟨h.1.congr rfl rfl rfl rfl, h.2⟩
      · cases hbase
    | shim args => cases hbase
  kill {w t g} h := by
    refine ⟨({ g.1 with stage := .free, ended := true }, g.2), rfl, h.1.leave killedCode, ?_⟩
    exact fun hu => absurd rfl (LockWorld.releaseNft_eq_some hu).2
  killed {w t t' g} hne h := by
    -- a kill does what an exit does
    have hs : lockStep {} w t (.base (.exit killedCode)) =
        some ((), { w.releaseNft t with base := w.base.leave t killedCode }) := rfl
    exact LockAgrees.others hs hne (fun _ hspawn => by cases hspawn) h
  env {ch w w' t g} he h := by
    obtain ⟨base, hbase, rfl⟩ := Option.map_eq_some_iff.mp he
    obtain ⟨procs, rfl⟩ := envStep_eq hbase
    exact ⟨h.1.congr rfl rfl rfl rfl, h.2⟩

/-! ## No deadlock -/

/-- Each process of the system keeps to the order of the locks. -/
abbrev LockSys.Ordered (S : LockSys) : Prop :=
  ∀ t, lockOrder.Keeps ({}, false) (fun g => g.1.ended = true) LockAgrees S t

theorem LockSys.ordered_of_reach {host : Host} {build : Build} {S : LockSys}
    (hS : (lockMachine host build).Reach (fun _ _ => True) lockInitial S) : S.Ordered := by
  refine (lockOrder_sound host build).reach (fun t => ⟨fun _ => ⟨?_, ?_⟩, ?_⟩) hS
  · exact ⟨rfl, by simp [lockInitial], nofun, nofun, nofun⟩
  · simp [lockInitial]
  · simp [lockInitial]

/-- How far up the order an operation waits. -/
def LockOp.rank : LockOp → Nat
  | .base .lockRegistry => 4
  | .base (.lockContainer _) => 3
  | .base (.readState _) | .base (.control _ _) | .base (.awaitReady _) | .base (.waitShim _) => 2
  | .lockNft => 1
  | _ => 0

/-- The rank of the next operation of a process. -/
def LockSys.rank (S : LockSys) (t : Tid) : Nat := (S.pending t).elim 0 LockOp.rank

namespace LockSys

variable {S : LockSys} {t t' s : Tid}

/-- What a process stands in front of is allowed. -/
theorem Ordered.pending (hS : S.Ordered) {o : LockOp} (h : S.pending t = some o) :
    ∃ g, lockOrder.allows g o ∧ LockAgrees S.world t g := by
  obtain ⟨p, hpool, hhead⟩ := Option.bind_eq_some_iff.mp h
  obtain ⟨g, hfollows, hagrees⟩ := (hS t).2 p hpool
  cases p with
  | ret a => exact nomatch hhead
  | act o' k =>
    cases hhead
    exact ⟨g, hfollows.1, hagrees⟩

/-- A bound for the rank of a process, by the operation that it stands in front of. -/
theorem rank_le {n : Nat} (h : ∀ o, S.pending t = some o → o.rank ≤ n) : S.rank t ≤ n := by
  unfold rank
  cases ho : S.pending t with
  | none => exact Nat.zero_le n
  | some o => exact h o ho

/-- The holder of the registry lock does not ask for it. -/
theorem Ordered.rank_registry (hS : S.Ordered) (h : S.world.base.registry = some t) :
    S.rank t ≤ 3 := by
  refine rank_le fun o ho => ?_
  obtain ⟨g, hallows, hagrees⟩ := hS.pending ho
  have hstage := hagrees.1.registry.mp h
  cases o with
  | base o =>
    cases o with
    | lockRegistry => exact absurd hallows.1.2.2 hstage
    | _ => simp [LockOp.rank]
  | _ => simp [LockOp.rank]

/-- The holder of `nft.lock` waits for nothing. -/
theorem Ordered.rank_nft (hS : S.Ordered) (h : S.world.nft = some t) : S.rank t = 0 := by
  refine Nat.le_zero.mp (rank_le fun o ho => ?_)
  obtain ⟨g, hallows, hagrees⟩ := hS.pending ho
  have hheld := hagrees.2 h
  cases o with
  | base o =>
    have hfilters := hallows.2 hheld
    unfold Op.filters at hfilters
    split at hfilters
    · exact Nat.le_refl 0
    · exact Nat.le_refl 0
    · exact nomatch hfilters
  | lockNft => exact nomatch hheld.symm.trans hallows.2
  | _ => exact Nat.le_refl 0

/-- A shim waits for `nft.lock` at most. -/
theorem Ordered.rank_shim (hS : S.Ordered) (h : (S.world.base.shims t).isSome) :
    S.rank t ≤ 1 := by
  refine rank_le fun o ho => ?_
  obtain ⟨g, hallows, hagrees⟩ := hS.pending ho
  have hshim : g.1.shim = true := hagrees.1.shim.symm.trans h
  cases o with
  | base o =>
    have hpermits := hallows.1.2
    cases o with
    | lockRegistry | lockContainer | waitShim => exact nomatch hshim.symm.trans hpermits.1
    | readState | control | awaitReady => exact nomatch hshim.symm.trans hpermits
    | _ => exact Nat.zero_le 1
  | _ => simp [LockOp.rank]

/-- A process that waits for a shim stands at the rank of such a wait, does not hold `nft.lock`,
    and the one it waits for is a shim. -/
theorem Ordered.awaitsShim (hS : S.Ordered) (h : S.AwaitsShim t s) :
    S.rank t = 2 ∧ S.world.nft ≠ some t ∧ (S.world.base.shims s).isSome := by
  obtain ⟨o, ho, hawaits⟩ := h
  obtain ⟨g, hallows, hagrees⟩ := hS.pending ho
  have hrank : S.rank t = (LockOp.base o).rank := by simp [rank, ho]
  have hnft : o.filters = false → S.world.nft ≠ some t := by
    intro hfilters hheld
    exact nomatch hfilters.symm.trans (hallows.2 (hagrees.2 hheld))
  cases o with
  | awaitReady s' =>
    refine ⟨hrank, hnft rfl, ?_⟩
    obtain ⟨shim, hshim, -⟩ := Option.map_eq_some_iff.mp hawaits.2
    exact Option.isSome_of_mem hshim
  | waitShim s' =>
    refine ⟨hrank, hnft rfl, ?_⟩
    obtain ⟨rfl, -⟩ := hawaits
    exact hagrees.1.child s hallows.1.2.2
  | control c number =>
    refine ⟨hrank, hnft rfl, ?_⟩
    obtain ⟨shim, hshim, -⟩ := Option.map_eq_some_iff.mp hawaits.2
    exact Option.isSome_of_mem hshim
  | readState c =>
    refine ⟨hrank, hnft rfl, ?_⟩
    obtain ⟨shim, hshim, -⟩ := hawaits
    exact Option.isSome_of_mem hshim
  | _ => exact hawaits.elim

/-- Waiting goes down the order. -/
theorem Ordered.rank_lt (hS : S.Ordered) (h : S.WaitsFor t t') : S.rank t' < S.rank t := by
  rcases h with ⟨l, ⟨o, ho, hrequests⟩, hholder⟩ | hawaits
  · have hrank : S.rank t = o.rank := by simp [rank, ho]
    unfold LockOp.requests at hrequests
    split at hrequests
    · cases hrequests
      exact hrank ▸ Nat.lt_succ_of_le (hS.rank_registry hholder)
    · -- a container's lock is asked for and held under the registry lock, so by one process
      rename_i c
      cases hrequests
      obtain ⟨g, hallows, hagrees⟩ := hS.pending ho
      have hregistry : S.world.base.registry = some t :=
        hagrees.1.registry.mpr (by simp [hallows.1.2.2])
      exfalso
      cases hpool : S.pool t' with
      | none => exact nomatch (((hS t').1 hpool).1.container c hholder)
      | some p =>
        obtain ⟨g', -, hagrees'⟩ := (hS t').2 p hpool
        have hstage' := hagrees'.1.container c hholder
        have hregistry' : S.world.base.registry = some t' :=
          hagrees'.1.registry.mpr (by simp [hstage'])
        obtain rfl := Option.some.inj (hregistry.symm.trans hregistry')
        have hstage := hagrees.1.container c hholder
        exact nomatch hallows.1.2.2.symm.trans hstage
    · cases hrequests
      have hzero : S.rank t' = 0 := hS.rank_nft hholder
      rw [hrank, hzero]
      exact Nat.one_pos
    · exact nomatch hrequests
  · obtain ⟨hrank, -, hshim⟩ := hS.awaitsShim hawaits
    exact hrank ▸ Nat.lt_succ_of_le (hS.rank_shim hshim)

/-- A shim that is waited for has not ended. -/
theorem Ordered.awaited (hS : S.Ordered) (h : S.AwaitsShim t s) :
    ∃ p g, S.pool s = some p ∧ p.head ≠ none ∧ g.1.shim = true ∧
      p.Follows lockOrder (fun _ g => g.1.ended = true) g := by
  have hshim := (hS.awaitsShim h).2.2
  cases hpool : S.pool s with
  | none =>
    have habsent := ((hS s).1 hpool).1.shim
    exact nomatch hshim.symm.trans habsent
  | some p =>
    obtain ⟨g, hfollows, hagrees⟩ := (hS s).2 p hpool
    refine ⟨p, g, rfl, ?_, hagrees.1.shim.symm.trans hshim, hfollows⟩
    cases p with
    | act o k => exact nofun
    | ret a =>
      -- what is waited for does not hold of a process that has ended
      obtain ⟨hexits, hdead⟩ := hagrees.1.ended hfollows
      obtain ⟨o, -, hawaits⟩ := h
      exfalso
      cases o with
      | awaitReady s' =>
        obtain ⟨shim, hs, hnotify⟩ := Option.map_eq_some_iff.mp hawaits.2
        exact (hdead shim hs).2 hnotify
      | waitShim s' => simp [hawaits.2] at hexits
      | control c number =>
        obtain ⟨shim, hs, hphase⟩ := Option.map_eq_some_iff.mp hawaits.2
        exact nomatch (hdead shim hs).1.symm.trans hphase
      | readState c =>
        obtain ⟨shim, hs, -, hphase⟩ := hawaits
        exact hphase (hdead shim hs).1
      | _ => exact hawaits

end LockSys

/-- Commands and shims cannot deadlock. In every reachable system the processes that wait for
    each other form no cycle; no process asks for a lock that it holds itself; and a shim whose
    progress is waited for is running and will ask for no lock that the waiting process holds. -/
theorem locks_cannot_deadlock (host : Host) (build : Build) {S : LockSys}
    (hS : (lockMachine host build).Reach (fun _ _ => True) lockInitial S) :
    (∀ t, ¬ Relation.TransGen S.WaitsFor t t) ∧
      (∀ t l, S.Requests t l → S.world.holder l ≠ some t) ∧
      ∀ t s, S.AwaitsShim t s → ∃ p, S.pool s = some p ∧ p.head ≠ none ∧
        ∀ l, S.world.holder l = some t → p.Uses fun o => o.requests ≠ some l := by
  have hordered := LockSys.ordered_of_reach hS
  have hdown : ∀ t t', Relation.TransGen S.WaitsFor t t' → S.rank t' < S.rank t := by
    intro t t' h
    induction h with
    | single h => exact hordered.rank_lt h
    | tail _ h ih => exact (hordered.rank_lt h).trans ih
  refine ⟨fun t h => Nat.lt_irrefl _ (hdown t t h), fun t l hrequests hholder => ?_,
    fun t s hawaits => ?_⟩
  · exact Nat.lt_irrefl _ (hordered.rank_lt (.inl ⟨l, hrequests, hholder⟩))
  · obtain ⟨p, g, hpool, hhead, hshim, hfollows⟩ := hordered.awaited hawaits
    refine ⟨p, hpool, hhead, fun l hholder => ?_⟩
    -- a shim stays a shim, and a shim asks for `nft.lock` only
    have huses : p.Uses fun o => o.requests = none ∨ o.requests = some .nft := by
      refine hfollows.uses (J := fun g => g.1.shim = true) hshim (fun g o r hg => ?_)
        fun g o hg hallows => ?_
      · cases o with
        | base o =>
          show (g.1.after o r).shim = true
          unfold Standing.after
          split <;> try split
          all_goals exact hg
        | _ => exact hg
      · cases o with
        | base o =>
          cases o with
          | lockRegistry | lockContainer => exact nomatch hg.symm.trans hallows.1.2.1
          | _ => exact .inl rfl
        | lockNft => exact .inr rfl
        | _ => exact .inl rfl
    refine huses.mono fun o ho heq => ?_
    rcases ho with hnone | hnft
    · exact nomatch hnone.symm.trans heq
    · obtain rfl := Option.some.inj (hnft.symm.trans heq)
      exact (hordered.awaitsShim hawaits).2.1 hholder

/-- `create`, then `start` up to its wait for the shim 3, which stands in front of `nft.lock`,
    and a `gc`. -/
def launchedBesideGc : List (Event Choice Cmd) :=
  .enter 1 (.cli true (["create", "--image", "alpine", "--", "sh"].map String.toList))
      { pid := 101, start := 1 } :: List.replicate 16 (.act 1 {}) ++
  .enter 2 (.cli true (["start", "00"].map String.toList)) { pid := 102, start := 1 } ::
    List.replicate 11 (.act 2 { tid := 3, pid := 103, start := 1 }) ++
  List.replicate 12 (.act 3 { pid := 104, start := 1 }) ++
  [.enter 4 (.cli true ["gc".toList]) { pid := 105, start := 1 }]

/-- `gc` waits for `start`, and `start` for its shim. -/
def waitsAtLaunch (S : LockSys) : Bool :=
  match S.pending 4, S.pending 2, S.pending 3 with
  | some (.base .lockRegistry), some (.base (.awaitReady s)), some .lockNft =>
    s == 3 && S.world.base.registry == some 2 &&
      (S.world.base.shims 3).map Shim.notify == some .pending
  | _, _, _ => false

/-- Three processes wait in a row, and not in a circle. -/
theorem locks_cannot_deadlock_start :
    ∃ S : LockSys, (lockMachine plainHost plainBuild).Reach (fun _ _ => True) lockInitial S ∧
      S.WaitsFor 4 2 ∧ S.AwaitsShim 2 3 ∧ S.Requests 3 .nft ∧ S.world.holder .registry = some 2 ∧
      ¬ Relation.TransGen S.WaitsFor 4 4 ∧
      ∃ p, S.pool 3 = some p ∧ p.Uses fun o => o.requests ≠ some .registry := by
  have hrun : ((lockMachine plainHost plainBuild).run launchedBesideGc lockInitial).any
      waitsAtLaunch = true := by decide +kernel
  obtain ⟨S, hS, hwaits⟩ := Machine.exists_reach_of_run _ hrun
  unfold waitsAtLaunch at hwaits
  split at hwaits
  · rename_i s hgc hstart hshim
    simp only [Bool.and_eq_true, beq_iff_eq] at hwaits
    obtain ⟨⟨rfl, hregistry⟩, hnotify⟩ := hwaits
    have hawaits : LockSys.AwaitsShim S 2 3 := ⟨_, hstart, rfl, hnotify⟩
    obtain ⟨hacyclic, -, hshims⟩ := locks_cannot_deadlock plainHost plainBuild hS
    obtain ⟨p, hpool, -, huses⟩ := hshims 2 3 hawaits
    exact ⟨S, hS, .inl ⟨.registry, ⟨_, hgc, rfl⟩, hregistry⟩, hawaits, ⟨_, hshim, rfl⟩, hregistry,
      hacyclic 4, p, hpool, huses .registry hregistry⟩
  · exact nomatch hwaits

end MiniContainer
