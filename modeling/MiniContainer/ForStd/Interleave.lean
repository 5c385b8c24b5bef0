import Mathlib.Logic.Relation
import Mathlib.Logic.Function.Basic
import MiniContainer.ForStd.Prog

/-!
# Interleaved programs and rely/guarantee reasoning

A `Machine` gives the operations of `Prog` a meaning on a shared world; every
choice the environment makes (scheduling aside) is an explicit argument `Ch`, so
that a run is a list of events and can be evaluated. A `Sys` is a world together
with a pool of programs. One `Event` lets one process perform its next operation,
lets a new process enter, kills a process, or lets the environment act.

The second half is a rely/guarantee logic. A `Contract` names a global invariant,
what a process waiting in front of an operation tolerates from the others
(`rely`), and what it promises itself (`guar`). `Triple` is a Hoare triple for
one process under interference; `Reach.safe` turns triples for the programs into
an invariant of every reachable system.
-/

/-- Handle of a process. Handles are never reused. -/
abbrev Tid := Nat

/-- What the operations of a set of programs do.

    `Ch` collects the choices of the environment and `Cmd` names the programs
    that may enter or be forked. -/
structure Machine (Op : Type) (Res : Op → Type) (α W Ch Cmd : Type) where
  /-- One operation of process `t`; `none` when it blocks or the choice is impossible. -/
  step : Ch → W → Tid → (o : Op) → Option (Res o × W)
  /-- The process that an operation starts. -/
  spawn : (o : Op) → Res o → Option (Tid × Cmd)
  /-- The program of a command. -/
  prog : Cmd → Prog Op Res α
  /-- A new process enters. -/
  enter : Ch → W → Tid → Cmd → Option W
  /-- The kernel's work when a process is killed. -/
  kill : W → Tid → W
  /-- The result of a killed process. -/
  killed : α
  /-- A step of the environment. -/
  env : Ch → W → Option W

/-- A world and the programs that run on it. A process that has returned or was
    killed stays in the pool as a returned program. -/
structure Sys (Op : Type) (Res : Op → Type) (α W : Type) where
  world : W
  pool : Tid → Option (Prog Op Res α)

/-- The operation that a process performs next. -/
def Sys.pending {Op : Type} {Res : Op → Type} {α W : Type} (S : Sys Op Res α W) (t : Tid) :
    Option Op :=
  (S.pool t).bind Prog.head

theorem Sys.pool_of_pending {Op : Type} {Res : Op → Type} {α W : Type} {S : Sys Op Res α W}
    {t : Tid} {o : Op} (h : S.pending t = some o) :
    ∃ k : Res o → Prog Op Res α, S.pool t = some (.act o k) := by
  unfold Sys.pending at h
  cases hpool : S.pool t with
  | none => rw [hpool] at h; exact nomatch h
  | some p =>
    rw [hpool] at h
    cases p with
    | ret a => exact nomatch h
    | act o' k =>
      obtain rfl : o' = o := Option.some.inj h
      exact ⟨k, rfl⟩

/-- One step of a schedule. -/
inductive Event (Ch Cmd : Type) where
  | act (t : Tid) (ch : Ch)
  | enter (t : Tid) (c : Cmd) (ch : Ch)
  | kill (t : Tid)
  | env (ch : Ch)

/-- The processes that an event lets act, enter or end, where a process forked under the choice
    `ch` gets the handle `handle ch`. -/
def Event.handles {Ch Cmd : Type} (handle : Ch → Tid) : Event Ch Cmd → List Tid
  | .act t ch => [t, handle ch]
  | .enter t _ _ => [t]
  | .kill t => [t]
  | .env _ => []

namespace Machine

variable {Op : Type} {Res : Op → Type} {α β W Ch Cmd : Type}
  (M : Machine Op Res α W Ch Cmd)

open Function (update)

/-- The system after one event; `none` when the event cannot happen. -/
def next (S : Sys Op Res α W) : Event Ch Cmd → Option (Sys Op Res α W)
  | .act t ch =>
    match S.pool t with
    | some (.act o k) =>
      match M.step ch S.world t o with
      | none => none
      | some (r, w) =>
        match M.spawn o r with
        | none => some ⟨w, update S.pool t (some (k r))⟩
        | some (t', c) =>
          match S.pool t' with
          | none => some ⟨w, update (update S.pool t (some (k r))) t' (some (M.prog c))⟩
          | some _ => none
    | _ => none
  | .enter t c ch =>
    match S.pool t with
    | none =>
      match M.enter ch S.world t c with
      | none => none
      | some w => some ⟨w, update S.pool t (some (M.prog c))⟩
    | some _ => none
  | .kill t =>
    match S.pool t with
    | some (.act _ _) => some ⟨M.kill S.world t, update S.pool t (some (.ret M.killed))⟩
    | _ => none
  | .env ch =>
    match M.env ch S.world with
    | none => none
    | some w => some ⟨w, S.pool⟩

/-- The world behind an event, as far as it does not depend on the pool. -/
def worldAfter (S : Sys Op Res α W) : Event Ch Cmd → Option W
  | .act t ch =>
    match S.pool t with
    | some (.act o _) => (M.step ch S.world t o).map Prod.snd
    | _ => none
  | .enter t c ch => M.enter ch S.world t c
  | .kill t => some (M.kill S.world t)
  | .env ch => M.env ch S.world

theorem worldAfter_act {S : Sys Op Res α W} {t : Tid} {ch : Ch} {o : Op}
    {k : Res o → Prog Op Res α} {r : Res o} {w : W} (hpool : S.pool t = some (.act o k))
    (hstep : M.step ch S.world t o = some (r, w)) : M.worldAfter S (.act t ch) = some w := by
  simp only [worldAfter, hpool, hstep, Option.map_some]

/-- What an event can do: all guards and all effects of `next`. -/
inductive Next (S : Sys Op Res α W) : Event Ch Cmd → Sys Op Res α W → Prop where
  | act {t : Tid} {ch : Ch} {o : Op} {k : Res o → Prog Op Res α} {r : Res o} {w : W}
      (hpool : S.pool t = some (.act o k)) (hstep : M.step ch S.world t o = some (r, w))
      (hspawn : M.spawn o r = none) : Next S (.act t ch) ⟨w, update S.pool t (some (k r))⟩
  | fork {t : Tid} {ch : Ch} {o : Op} {k : Res o → Prog Op Res α} {r : Res o} {w : W}
      {t' : Tid} {c : Cmd} (hpool : S.pool t = some (.act o k))
      (hstep : M.step ch S.world t o = some (r, w)) (hspawn : M.spawn o r = some (t', c))
      (hfree : S.pool t' = none) :
      Next S (.act t ch) ⟨w, update (update S.pool t (some (k r))) t' (some (M.prog c))⟩
  | enter {t : Tid} {c : Cmd} {ch : Ch} {w : W} (hfree : S.pool t = none)
      (henter : M.enter ch S.world t c = some w) :
      Next S (.enter t c ch) ⟨w, update S.pool t (some (M.prog c))⟩
  | kill {t : Tid} {o : Op} {k : Res o → Prog Op Res α} (hpool : S.pool t = some (.act o k)) :
      Next S (.kill t) ⟨M.kill S.world t, update S.pool t (some (.ret M.killed))⟩
  | env {ch : Ch} {w : W} (henv : M.env ch S.world = some w) : Next S (.env ch) ⟨w, S.pool⟩

/-- What a step of a system is. -/
theorem next_inv {S S' : Sys Op Res α W} {e : Event Ch Cmd} (h : M.next S e = some S') :
    M.Next S e S' := by
  cases e with
  | act t ch =>
    simp only [next] at h
    split at h
    · rename_i o k hpool
      split at h
      · exact nomatch h
      · rename_i r w hstep
        split at h
        · rename_i hspawn
          cases h
          exact .act hpool hstep hspawn
        · rename_i t' c hspawn
          split at h
          · rename_i hfree
            cases h
            exact .fork hpool hstep hspawn hfree
          · exact nomatch h
    · exact nomatch h
  | enter t c ch =>
    simp only [next] at h
    split at h
    · rename_i hfree
      split at h
      · exact nomatch h
      · rename_i w henter
        cases h
        exact .enter hfree henter
    · exact nomatch h
  | kill t =>
    simp only [next] at h
    split at h
    · rename_i hpool
      cases h
      exact .kill hpool
    · exact nomatch h
  | env ch =>
    simp only [next] at h
    split at h
    · exact nomatch h
    · rename_i w henv
      cases h
      exact .env henv

/-- Run a whole schedule. -/
def run : List (Event Ch Cmd) → Sys Op Res α W → Option (Sys Op Res α W)
  | [], S => some S
  | e :: es, S =>
    match M.next S e with
    | none => none
    | some S' => run es S'

/-- The systems reachable from `S₀` by events that all satisfy `ok`. -/
inductive Reach (ok : Sys Op Res α W → Event Ch Cmd → Prop) (S₀ : Sys Op Res α W) :
    Sys Op Res α W → Prop where
  | refl : Reach ok S₀ S₀
  | step {S S' : Sys Op Res α W} {e : Event Ch Cmd} :
      Reach ok S₀ S → ok S e → M.next S e = some S' → Reach ok S₀ S'

/-- A schedule that can be run ends in a reachable system. -/
theorem reach_of_run {S₀ S S' : Sys Op Res α W} {es : List (Event Ch Cmd)}
    (hS : M.Reach (fun _ _ => True) S₀ S) (h : M.run es S = some S') :
    M.Reach (fun _ _ => True) S₀ S' := by
  induction es generalizing S with
  | nil =>
    simp only [run, Option.some.injEq] at h
    exact h ▸ hS
  | cons e es ih =>
    simp only [run] at h
    split at h
    · exact nomatch h
    · rename_i S₁ hnext
      exact ih (hS.step trivial hnext) h

/-- A schedule whose last system passes a test. -/
theorem exists_of_run {S₀ : Sys Op Res α W} {es : List (Event Ch Cmd)}
    {test : Sys Op Res α W → Bool} (h : (M.run es S₀).any test = true) :
    ∃ S, M.run es S₀ = some S ∧ test S = true := by
  cases hS : M.run es S₀ with
  | none => simp [hS] at h
  | some S => exact ⟨S, rfl, by simpa [hS] using h⟩

@[inherit_doc exists_of_run]
theorem exists_reach_of_run {S₀ : Sys Op Res α W} {es : List (Event Ch Cmd)}
    {test : Sys Op Res α W → Bool} (h : (M.run es S₀).any test = true) :
    ∃ S, M.Reach (fun _ _ => True) S₀ S ∧ test S = true := by
  obtain ⟨S, hS, htest⟩ := M.exists_of_run h
  exact ⟨S, M.reach_of_run .refl hS, htest⟩

/-- Run a whole schedule as long as its events pass a test. -/
def runWhile (test : Sys Op Res α W → Event Ch Cmd → Bool) :
    List (Event Ch Cmd) → Sys Op Res α W → Option (Sys Op Res α W)
  | [], S => some S
  | e :: es, S =>
    if test S e then
      match M.next S e with
      | none => none
      | some S' => runWhile test es S'
    else none

/-- A schedule whose events pass a test ends in a system that such events reach. -/
theorem reach_of_runWhile {test : Sys Op Res α W → Event Ch Cmd → Bool}
    {S₀ S S' : Sys Op Res α W} {es : List (Event Ch Cmd)}
    (hS : M.Reach (fun S e => test S e = true) S₀ S) (h : M.runWhile test es S = some S') :
    M.Reach (fun S e => test S e = true) S₀ S' := by
  induction es generalizing S with
  | nil =>
    simp only [runWhile, Option.some.injEq] at h
    exact h ▸ hS
  | cons e es ih =>
    simp only [runWhile] at h
    split at h
    · rename_i hok
      split at h
      · exact nomatch h
      · rename_i S₁ hnext
        exact ih (hS.step hok hnext) h
    · exact nomatch h

/-- A schedule whose events pass a test and whose last system passes another one. -/
theorem exists_reach_of_runWhile {test : Sys Op Res α W → Event Ch Cmd → Bool}
    {S₀ : Sys Op Res α W} {es : List (Event Ch Cmd)} {last : Sys Op Res α W → Bool}
    (h : (M.runWhile test es S₀).any last = true) :
    ∃ S, M.Reach (fun S e => test S e = true) S₀ S ∧ last S = true := by
  cases hS : M.runWhile test es S₀ with
  | none => simp [hS] at h
  | some S => exact ⟨S, M.reach_of_runWhile .refl hS, by simpa [hS] using h⟩

/-- Fewer events are allowed, fewer systems are reachable. -/
theorem Reach.mono {ok ok' : Sys Op Res α W → Event Ch Cmd → Prop} {S₀ S : Sys Op Res α W}
    (h : M.Reach ok S₀ S) (hok : ∀ S e, ok S e → ok' S e) : M.Reach ok' S₀ S := by
  induction h with
  | refl => exact .refl
  | step _ ho hn ih => exact ih.step (hok _ _ ho) hn

/-- What holds of every reachable system holds in front of every event. -/
theorem Reach.strengthen {ok : Sys Op Res α W → Event Ch Cmd → Prop} {S₀ S : Sys Op Res α W}
    {J : Sys Op Res α W → Prop} (hJ : ∀ S, M.Reach ok S₀ S → J S) (h : M.Reach ok S₀ S) :
    M.Reach (fun S e => ok S e ∧ J S) S₀ S := by
  induction h with
  | refl => exact .refl
  | step hS ho hn ih => exact ih.step ⟨ho, hJ _ hS⟩ hn

/-- What every event keeps true of the world holds in every reachable system. -/
theorem Reach.world {ok : Sys Op Res α W → Event Ch Cmd → Prop} {S₀ S : Sys Op Res α W}
    {I : W → Prop} (h : M.Reach ok S₀ S) (h₀ : I S₀.world)
    (hstep : ∀ ch w t o r w', I w → M.step ch w t o = some (r, w') → I w')
    (henter : ∀ ch w t c w', I w → M.enter ch w t c = some w' → I w')
    (hkill : ∀ w t, I w → I (M.kill w t))
    (henv : ∀ ch w w', I w → M.env ch w = some w' → I w') : I S.world := by
  induction h with
  | refl => exact h₀
  | step _ _ hn ih =>
    cases M.next_inv hn with
    | act _ hs _ | fork _ hs _ _ => exact hstep _ _ _ _ _ _ ih hs
    | enter _ he => exact henter _ _ _ _ _ ih he
    | kill _ => exact hkill _ _ ih
    | env he => exact henv _ _ _ ih he

end Machine

/-! ## Contracts and safe programs -/

/-- What a set of processes agrees on. -/
structure Contract (Op : Type) (Res : Op → Type) (W : Type) where
  /-- Holds between any two steps. -/
  inv : W → Prop
  /-- A step of the others that process `t` tolerates while `o` is its next operation. -/
  rely : Tid → Op → W → W → Prop
  /-- What process `t` promises to the others when it performs `o`. -/
  guar : Tid → Op → W → W → Prop
  /-- The answers that the runs under consideration allow. -/
  admits : W → Tid → (o : Op) → Res o → Prop

namespace Contract

variable {Op : Type} {Res : Op → Type} {α β W Ch Cmd : Type}
  (M : Machine Op Res α W Ch Cmd) (C : Contract Op Res W)

/-- One tolerated step of the others, between two worlds that satisfy the invariant. -/
def Tolerates (t : Tid) (o : Op) (w w' : W) : Prop :=
  C.inv w ∧ C.inv w' ∧ C.rely t o w w'

/-- From world `w`, under any interference that is tolerated, every operation of the
    program keeps the invariant and the promise, and the result satisfies `Q`. -/
def Safe (t : Tid) (Q : β → W → Prop) : Prog Op Res β → W → Prop
  | .ret b, w => Q b w
  | .act o k, w =>
    ∀ w₁, Relation.ReflTransGen (C.Tolerates t o) w w₁ → C.inv w₁ →
      ∀ ch r w₂, M.step ch w₁ t o = some (r, w₂) → C.admits w₁ t o r →
        C.inv w₂ ∧ C.guar t o w₁ w₂ ∧ Safe t Q (k r) w₂

/-- A local assertion of process `t` that survives the others while `o` is next. -/
def Stable (t : Tid) (o : Op) (P : W → Prop) : Prop :=
  ∀ w w', C.inv w → C.inv w' → C.rely t o w w' → P w → P w'

/-- Hoare triple for process `t` under interference. -/
def Triple (t : Tid) (P : W → Prop) (p : Prog Op Res β) (Q : β → W → Prop) : Prop :=
  ∀ w, C.inv w → P w → C.Safe M t Q p w

variable {M C}

theorem Stable.iterate {t : Tid} {o : Op} {P : W → Prop} (hP : C.Stable t o P) {w w' : W}
    (h : Relation.ReflTransGen (C.Tolerates t o) w w') (hw : P w) : P w' := by
  induction h with
  | refl => exact hw
  | tail _ hab ih => exact hP _ _ hab.1 hab.2.1 hab.2.2 ih

theorem Safe.mono {t : Tid} {Q Q' : β → W → Prop} {p : Prog Op Res β} {w : W}
    (h : C.Safe M t Q p w) (hw : C.inv w) (hQ : ∀ b w, C.inv w → Q b w → Q' b w) :
    C.Safe M t Q' p w := by
  induction p generalizing w with
  | ret b => exact hQ b w hw h
  | act o k ih =>
    intro w₁ hr hi ch r w₂ hs ha
    obtain ⟨hi₂, hg, hk⟩ := h w₁ hr hi ch r w₂ hs ha
    exact ⟨hi₂, hg, ih r hk hi₂⟩

theorem Safe.bind {γ : Type} {t : Tid} {Q : γ → W → Prop} {p : Prog Op Res β}
    {f : β → Prog Op Res γ} {w : W}
    (h : C.Safe M t (fun b w => C.Safe M t Q (f b) w) p w) :
    C.Safe M t Q (p.bind f) w := by
  induction p generalizing w with
  | ret b => exact h
  | act o k ih =>
    intro w₁ hr hi ch r w₂ hs ha
    obtain ⟨hi₂, hg, hk⟩ := h w₁ hr hi ch r w₂ hs ha
    exact ⟨hi₂, hg, ih r hk⟩

/-- A safe program stays safe when the others take a tolerated step. -/
theorem Safe.interfere {t : Tid} {Q : β → W → Prop} {o : Op} {k : Res o → Prog Op Res β}
    {w w' : W} (h : C.Safe M t Q (.act o k) w) (hr : C.Tolerates t o w w') :
    C.Safe M t Q (.act o k) w' :=
  fun w₁ hr₁ => h w₁ (.head hr hr₁)

/-! ### Rules for triples -/

theorem Triple.ret {t : Tid} {P : W → Prop} {Q : β → W → Prop} {b : β}
    (h : ∀ w, C.inv w → P w → Q b w) : C.Triple M t P (.ret b) Q := h

/-- Programs one behind the other. -/
theorem Triple.bind {γ : Type} {t : Tid} {P : W → Prop} {R : β → W → Prop} {Q : γ → W → Prop}
    {p : Prog Op Res β} {f : β → Prog Op Res γ}
    (hp : C.Triple M t P p R) (hf : ∀ b, C.Triple M t (R b) (f b) Q) :
    C.Triple M t P (p.bind f) Q :=
  fun w hi hP => Safe.bind ((hp w hi hP).mono hi fun b w hi hR => hf b w hi hR)

/-- The rule of consequence. -/
theorem Triple.conseq {t : Tid} {P P' : W → Prop} {Q Q' : β → W → Prop} {p : Prog Op Res β}
    (h : C.Triple M t P p Q) (hP : ∀ w, C.inv w → P' w → P w)
    (hQ : ∀ b w, C.inv w → Q b w → Q' b w) : C.Triple M t P' p Q' :=
  fun w hi hw => (h w hi (hP w hi hw)).mono hi hQ

/-- The rule for one operation: a stable precondition, and what the operation does. -/
theorem Triple.act {t : Tid} {P : W → Prop} {Q : β → W → Prop} {o : Op}
    {k : Res o → Prog Op Res β} {R : Res o → W → Prop} (hP : C.Stable t o P)
    (ho : ∀ ch w r w', C.inv w → P w → M.step ch w t o = some (r, w') → C.admits w t o r →
      C.inv w' ∧ C.guar t o w w' ∧ R r w')
    (hk : ∀ r, C.Triple M t (R r) (k r) Q) : C.Triple M t P (.act o k) Q := by
  intro w hi hw w₁ hr hi₁ ch r w₂ hs ha
  obtain ⟨hi₂, hg, hR⟩ := ho ch w₁ r w₂ hi₁ (hP.iterate hr hw) hs ha
  exact ⟨hi₂, hg, hk r w₂ hi₂ hR⟩

/-- The rule for a single operation. -/
theorem Triple.perform {t : Tid} {P : W → Prop} {o : Op} {Q : Res o → W → Prop}
    (hP : C.Stable t o P)
    (ho : ∀ ch w r w', C.inv w → P w → M.step ch w t o = some (r, w') → C.admits w t o r →
      C.inv w' ∧ C.guar t o w w' ∧ Q r w') : C.Triple M t P (Prog.perform o) Q :=
  Triple.act hP ho fun _ => Triple.ret fun _ _ h => h

/-- An assertion that all operations of a program preserve, and that survives the others in
    front of each of them, holds at its end. -/
theorem Triple.of_uses {t : Tid} {allowed : Op → Prop} {P : W → Prop} {p : Prog Op Res β}
    (hp : p.Uses allowed) (hP : ∀ o, allowed o → C.Stable t o P)
    (ho : ∀ o, allowed o → ∀ ch w r w', C.inv w → P w → M.step ch w t o = some (r, w') →
      C.admits w t o r → C.inv w' ∧ C.guar t o w w' ∧ P w') :
    C.Triple M t P p (fun _ w => P w) := by
  induction p with
  | ret b => exact fun _ _ h => h
  | act o k ih => exact Triple.act (hP o hp.1) (ho o hp.1) fun r => ih r (hp.2 r)

/-! ## From triples to reachable systems -/

variable (C) in
/-- The invariant and every process of the pool, safe where it stands. -/
def SafeSys (M : Machine Op Res α W Ch Cmd) (S : Sys Op Res α W) : Prop :=
  C.inv S.world ∧ ∀ t p, S.pool t = some p → C.Safe M t (fun _ _ => True) p S.world

/-- What the machine and the allowed events must satisfy for `C` to be sound. -/
structure Sound (C : Contract Op Res W) (M : Machine Op Res α W Ch Cmd)
    (ok : Sys Op Res α W → Event Ch Cmd → Prop) : Prop where
  /-- Allowed answers are those that the contract admits. -/
  admits : ∀ S t ch o k r w, ok S (.act t ch) → S.pool t = some (.act o k) →
    M.step ch S.world t o = some (r, w) → C.admits S.world t o r
  /-- A promise of the acting process is something the others rely on. -/
  compat : ∀ S t ch o k r w, ok S (.act t ch) → S.pool t = some (.act o k) →
    M.step ch S.world t o = some (r, w) → C.inv S.world → C.inv w → C.guar t o S.world w →
    ∀ t' o' k', t' ≠ t → S.pool t' = some (.act o' k') → C.rely t' o' S.world w
  /-- A forked program is safe in the world its fork leaves. -/
  spawn : ∀ ch w t o r w' t' c, C.inv w → M.step ch w t o = some (r, w') → C.inv w' →
    C.guar t o w w' → M.spawn o r = some (t', c) → C.Safe M t' (fun _ _ => True) (M.prog c) w'
  /-- An entering process keeps the invariant, disturbs nobody and is safe. -/
  enter : ∀ S t c ch w, ok S (.enter t c ch) → C.inv S.world → M.enter ch S.world t c = some w →
    C.inv w ∧ C.Safe M t (fun _ _ => True) (M.prog c) w ∧
      ∀ t' o' k', t' ≠ t → S.pool t' = some (.act o' k') → C.rely t' o' S.world w
  /-- A kill keeps the invariant and disturbs nobody else. -/
  kill : ∀ S t, ok S (.kill t) → C.inv S.world → C.inv (M.kill S.world t) ∧
    ∀ t' o' k', t' ≠ t → S.pool t' = some (.act o' k') → C.rely t' o' S.world (M.kill S.world t)
  /-- The environment keeps the invariant and disturbs nobody. -/
  env : ∀ S ch w, ok S (.env ch) → C.inv S.world → M.env ch S.world = some w →
    C.inv w ∧ ∀ t' o' k', S.pool t' = some (.act o' k') → C.rely t' o' S.world w

/-- A process that only watched the others move is still safe. -/
private theorem Safe.watch {t : Tid} {p : Prog Op Res α} {w w' : W}
    (h : C.Safe M t (fun _ _ => True) p w) (hi : C.inv w) (hi' : C.inv w')
    (hr : ∀ o k, p = .act o k → C.rely t o w w') :
    C.Safe M t (fun _ _ => True) p w' := by
  cases p with
  | ret a => trivial
  | act o k => exact h.interfere ⟨hi, hi', hr o k rfl⟩

variable {ok : Sys Op Res α W → Event Ch Cmd → Prop}

open Function (update_apply) in
/-- One allowed event keeps a system safe. -/
theorem Sound.next (hC : C.Sound M ok) {S S' : Sys Op Res α W} {e : Event Ch Cmd}
    (hS : C.SafeSys M S) (he : ok S e) (hn : M.next S e = some S') : C.SafeSys M S' := by
  obtain ⟨hi, hp⟩ := hS
  -- the others are still safe in a world that they tolerate
  have hothers : ∀ {w : W} {t t' : Tid} {p : Prog Op Res α}, C.inv w →
      (∀ t' o' k', t' ≠ t → S.pool t' = some (.act o' k') → C.rely t' o' S.world w) →
      t' ≠ t → S.pool t' = some p → C.Safe M t' (fun _ _ => True) p w := by
    intro w t t' p hi' hrely hne hpt
    refine (hp t' p hpt).watch hi hi' ?_
    rintro o' k' rfl
    exact hrely t' o' k' hne hpt
  cases M.next_inv hn with
  | @act t ch o k r w hpool hstep hnone =>
    have hadm := hC.admits S t ch o k r w he hpool hstep
    obtain ⟨hi', hg, hk⟩ := hp t _ hpool S.world .refl hi ch r w hstep hadm
    have hrely := hC.compat S t ch o k r w he hpool hstep hi hi' hg
    refine ⟨hi', fun t' p hpt => ?_⟩
    simp only [update_apply] at hpt
    split at hpt
    · rename_i heq
      subst heq
      cases hpt
      exact hk
    · rename_i hne
      exact hothers hi' hrely hne hpt
  | @fork t ch o k r w t' c hpool hstep hspawn hfree =>
    have hadm := hC.admits S t ch o k r w he hpool hstep
    obtain ⟨hi', hg, hk⟩ := hp t _ hpool S.world .refl hi ch r w hstep hadm
    have hrely := hC.compat S t ch o k r w he hpool hstep hi hi' hg
    refine ⟨hi', fun u p hpt => ?_⟩
    simp only [update_apply] at hpt
    split at hpt
    · rename_i heq
      subst heq
      cases hpt
      exact hC.spawn ch S.world t o r w _ c hi hstep hi' hg hspawn
    · split at hpt
      · rename_i heq
        subst heq
        cases hpt
        exact hk
      · rename_i hne
        exact hothers hi' hrely hne hpt
  | @enter t c ch w hfree henter =>
    obtain ⟨hi', hsafe, hrely⟩ := hC.enter S t c ch w he hi henter
    refine ⟨hi', fun t' p hpt => ?_⟩
    simp only [update_apply] at hpt
    split at hpt
    · rename_i heq
      subst heq
      cases hpt
      exact hsafe
    · rename_i hne
      exact hothers hi' hrely hne hpt
  | @kill t o k hpool =>
    obtain ⟨hi', hrely⟩ := hC.kill S t he hi
    refine ⟨hi', fun t' p hpt => ?_⟩
    simp only [update_apply] at hpt
    split at hpt
    · cases hpt
      trivial
    · rename_i hne
      exact hothers hi' hrely hne hpt
  | @env ch w henv =>
    obtain ⟨hi', hrely⟩ := hC.env S ch w he hi henv
    refine ⟨hi', fun t' p hpt => (hp t' p hpt).watch hi hi' ?_⟩
    rintro o' k' rfl
    exact hrely t' o' k' hpt

/-- What a process of a safe system promises is what it does. -/
theorem Sound.guar (hC : C.Sound M ok) {S : Sys Op Res α W} {t : Tid} {ch : Ch} {o : Op}
    {k : Res o → Prog Op Res α} {r : Res o} {w : W} (hS : C.SafeSys M S) (he : ok S (.act t ch))
    (hpool : S.pool t = some (.act o k)) (hstep : M.step ch S.world t o = some (r, w)) :
    C.guar t o S.world w :=
  have hadmits := hC.admits S t ch o k r w he hpool hstep
  (hS.2 t _ hpool S.world .refl hS.1 ch r w hstep hadmits).2.1

/-- Every system reachable by allowed events is safe; in particular its world
    satisfies the invariant. -/
theorem Sound.reach (hC : C.Sound M ok) {S₀ S : Sys Op Res α W}
    (h₀ : C.SafeSys M S₀) (h : M.Reach ok S₀ S) : C.SafeSys M S := by
  induction h with
  | refl => exact h₀
  | step _ he hn ih => exact hC.next ih he hn

end Contract
