import MiniContainer.Spec.Reconcile
import MiniContainer.Spec.Quiet
import MiniContainer.Spec.References

/-!
# Reclaiming containers

`rm --force` of a container that nobody works on any more. It reconciles, resolves the
reference, makes sure that the container is stopped and removes the directory, entry by
entry. Run alone it succeeds exactly when the container has a state, a `running` record
is stale, no other container is called by the ID, and reconciliation can write its
records.
-/

namespace MiniContainer

open CString (Text)
open JsonC (Value)
open Function (update)

/-! ## Removing a directory -/

section Leaves

variable {d : Dir} {leaf x : Leaf}

/-- An entry that is there under a condition. -/
private theorem mem_if (b : Bool) : x ∈ (if b then [leaf] else []) ↔ b = true ∧ x = leaf := by
  cases b <;> simp

private theorem nodup_if (b : Bool) (leaf : Leaf) : (if b then [leaf] else []).Nodup := by
  cases b <;> simp

theorem Dir.mem_leaves_unlink : x ∈ (d.unlink leaf).leaves ↔ x ∈ d.leaves ∧ x ≠ leaf := by
  simp only [Dir.leaves, List.mem_append, mem_if]
  cases leaf <;> cases x <;> simp [Dir.unlink]

theorem Dir.nodup_leaves (h : d.temporaries.Nodup) : d.leaves.Nodup := by
  have hinj : ∀ x y : File × Nat,
      Leaf.temporary x.1 x.2 = Leaf.temporary y.1 y.2 → x = y := by
    rintro ⟨file, pid⟩ ⟨file', pid'⟩ heq
    cases heq
    rfl
  simp only [Dir.leaves, List.nodup_append, List.mem_append, nodup_if, mem_if, List.mem_map,
    h.map hinj]
  grind

/-- The entries that are left when one is removed. -/
theorem Dir.leaves_unlink_perm (h : d.temporaries.Nodup) {leaves : List Leaf}
    (hperm : (leaf :: leaves).Perm d.leaves) : leaves.Perm (d.unlink leaf).leaves := by
  have hnodup : (leaf :: leaves).Nodup := hperm.nodup_iff.mpr (Dir.nodup_leaves h)
  have htemporaries := Dir.nodup_unlink h leaf
  refine (List.perm_ext_iff_of_nodup (List.nodup_cons.mp hnodup).2
    (Dir.nodup_leaves htemporaries)).mpr fun x => ?_
  rw [Dir.mem_leaves_unlink, ← hperm.mem_iff, List.mem_cons]
  constructor
  · intro hx
    refine ⟨.inr hx, ?_⟩
    rintro rfl
    exact (List.nodup_cons.mp hnodup).1 hx
  · rintro ⟨rfl | hx, hne⟩
    · exact absurd rfl hne
    · exact hx

end Leaves

/-- The two worlds have the same directories but for one container. -/
def World.SameBut (c : Name) (w w' : World) : Prop := ∀ d, d ≠ c → w'.dir d = w.dir d

section Remove

variable {t : Tid} {w : World} {c : Name}

/-- All entries are removed. -/
theorem alone_unlinkAll {d : Dir} {leaves : List Leaf} (hd : w.dir c = some d)
    (hnodup : d.temporaries.Nodup) (hperm : leaves.Perm d.leaves) :
    Alone t (fun removed w' => removed = true ∧ w'.dir c = some {} ∧ w.SameBut c w')
      (unlinkAll c leaves) w := by
  induction leaves generalizing w d with
  | nil =>
    obtain rfl := Dir.eq_of_leaves hperm.symm.eq_nil
    exact ⟨rfl, hd, fun _ _ => rfl⟩
  | cons leaf leaves ih =>
    have hmem : leaf ∈ d.leaves := hperm.mem_iff.mp List.mem_cons_self
    refine Alone.perform_bind fun ch hch => ?_
    -- the entry goes, and the rest of the list names what is left
    obtain ⟨w₁, hstep, hdir⟩ : ∃ w₁, step ch w t (.unlink c leaf) = some (true, w₁) ∧
        w₁.dirs = (w.setDir c (d.unlink leaf)).dirs := by
      simp only [step, hd, hch.fault, hmem, not_true_eq_false, ne_eq, or_self, if_false]
      cases leaf <;> exact ⟨_, rfl, rfl⟩
    have hdir : ∀ e, w₁.dir e = if e = c then some (d.unlink leaf) else w.dir e := by
      intro e
      rw [← World.dir_setDir, World.dir, hdir, World.dir]
    have htemporaries := Dir.nodup_unlink hnodup leaf
    refine ⟨_, w₁, hstep, trivial, ?_⟩
    rw [if_pos rfl]
    refine (ih (by rw [hdir, if_pos rfl]) htemporaries
      (Dir.leaves_unlink_perm hnodup hperm)).mono ?_
    rintro removed w' ⟨hremoved, hempty, hsame⟩
    exact ⟨hremoved, hempty, fun e he => by rw [hsame e he, hdir, if_neg he]⟩

/-- The directory is removed. -/
theorem alone_remove {d : Dir} (hd : w.dir c = some d) (hnodup : d.temporaries.Nodup) :
    Alone t (fun result w' => result = .ok () ∧ w'.dir c = none ∧ w.SameBut c w')
      (remove c) w := by
  refine Alone.check_andThen (Alone.perform_bind fun ch hch => ?_)
  have hperm := hch.walkOrder d.leaves
  have hwalk : step ch w t (.walk c) = some (some (ch.walkOrder d.leaves), w) := by
    simp [step, hd, List.isPerm_iff.mpr hperm]
  refine ⟨_, _, hwalk, trivial, Prog.Total.bind ((alone_unlinkAll hd hnodup hperm).mono ?_)⟩
  rintro _ w₁ ⟨rfl, hempty, hsame⟩
  refine Alone.perform (o := .rmdir c) fun ch' hch' => ?_
  have hrmdir : step ch' w₁ t (.rmdir c) = some (true, w₁.eraseDir c) := by
    simp [step, hempty, hch'.fault, Dir.leaves]
  have hdir : ∀ e, (w₁.eraseDir c).dir e = if e = c then none else w₁.dir e :=
    fun e => AList.lookup_erase_eq_ite ..
  refine ⟨_, _, hrmdir, trivial, ?_⟩
  rw [if_pos rfl]
  refine Prog.Total.bind (Alone.perform (o := .removeLog c) fun ch'' hch'' => ?_)
  have hlog : step ch'' (w₁.eraseDir c) t (.removeLog c) =
      some (true, { w₁.eraseDir c with logs := update (w₁.eraseDir c).logs c false }) := by
    simp [step, hch''.fault]
  refine ⟨_, _, hlog, trivial, rfl, ?_, fun e he => ?_⟩
  · exact (hdir c).trans (if_pos rfl)
  · exact ((hdir e).trans (if_neg he)).trans (hsame e he)

end Remove

/-! ## Sections under locks -/

section Locks

variable {α : Type} {t : Tid} {w : World} {c : Name}

/-- The directory with its lock file. -/
def World.locked (w : World) (t : Tid) (c : Name) (d : Dir) : World :=
  { w.setDir c { d with lock := true } with containerLocks := update w.containerLocks c (some t) }

/-- The world in which `t` has given back the lock of a container. -/
def World.unlocked (w : World) (t : Tid) (c : Name) : World :=
  let holder := if w.containerLocks c = some t then none else w.containerLocks c
  { w with containerLocks := update w.containerLocks c holder }

end Locks

/-! ## Making sure that the container is stopped -/

section Stopped

variable {t : Tid} {w : World} {c : Name}

end Stopped

/-! ## `rm --force` -/

section Rm

variable {t : Tid} {w w₁ : World}

/-- The locks stay as they are during a reconcile pass. -/
theorem locks_of_repairs {ch : Choice} {o : Op} {r : Res o} {w' : World} (ho : o.repairs = true)
    (h : step ch w t o = some (r, w')) :
    w'.registry = w.registry ∧ w'.containerLocks = w.containerLocks := by
  cases o with
  | opendir =>
    simp only [step] at h
    split at h
    · cases h
      exact ⟨rfl, rfl⟩
    · split at h
      · cases h
        exact ⟨rfl, rfl⟩
      · split at h
        · cases h
          exact ⟨rfl, rfl⟩
        · cases h
  | readState | startTime | killCgroup =>
    simp only [step, Option.some.injEq, Prod.mk.injEq] at h
    obtain ⟨-, rfl⟩ := h
    exact ⟨rfl, rfl⟩
  | createTemporary c content =>
    simp only [step] at h
    split at h
    · cases h
      exact ⟨rfl, rfl⟩
    · split at h
      · cases h
        exact ⟨rfl, rfl⟩
      · cases h
        exact ⟨rfl, rfl⟩
  | commit c content =>
    simp only [step] at h
    split at h
    · cases h
      exact ⟨rfl, rfl⟩
    · split at h
      · cases h
        exact ⟨rfl, rfl⟩
      · split at h
        · cases h
          rw [World.frame_recordWrite]
          exact ⟨rfl, rfl⟩
        · cases h
          rw [World.frame_recordWrite]
          exact ⟨rfl, rfl⟩
        · cases h
          exact ⟨rfl, rfl⟩
  | remove remover c resource =>
    simp only [step, Option.some.injEq, Prod.mk.injEq] at h
    obtain ⟨-, rfl⟩ := h
    split
    · exact ⟨rfl, rfl⟩
    · rw [World.frame_clear]
      exact ⟨rfl, rfl⟩
  | _ => cases ho

/-- The pass leaves configurations, records of other containers and temporary files alone. -/
theorem Repairing.config {pid : Nat} {σ : Name → Nat} (h : Repairing w pid σ w₁) :
    w₁.config = w.config := by
  funext c
  rw [World.config, World.config, h.dir]
  cases w.dir c with
  | none | some d => rfl

/-- What `rm` finds behind its reconcile pass. -/
structure Reconciled (t : Tid) (w w₁ : World) : Prop where
  repairing : Repairing w (w.pidOf t) w.repaired w₁
  registry : w₁.registry = w.registry
  containerLocks : w₁.containerLocks = w.containerLocks

/-- The record behind the pass. -/
theorem Reconciled.state {c : Name} (h : Reconciled t w w₁) :
    w₁.state c = if w.stale c then (w.state c).map StateDoc.repaired else w.state c := by
  rw [h.repairing.state, World.repaired]
  cases w.stale c <;> rfl

/-- The directory behind the pass. -/
theorem Reconciled.dir {c : Name} (h : Reconciled t w w₁) {d : Dir} (hd : w.dir c = some d) :
    ∃ d₁, w₁.dir c = some d₁ ∧ d₁.temporaries = d.temporaries ∧ d₁.state = w₁.state c := by
  have hd₁ := h.repairing.dir c
  rw [hd, Option.map_some] at hd₁
  refine ⟨_, hd₁, ?_, by rw [World.state, hd₁, Option.bind_some]⟩
  rw [World.repaired]
  cases w.stale c <;> rfl

/-- Behind the pass the full ID is resolved, if no other container is called by it. -/
theorem Reconciled.resolve {id : ContainerId} (h : Reconciled t w w₁)
    (hdir : w₁.dir id.text ≠ none)
    (hname : ∀ e, w.Named e id.text → containerEntry e = true → e = id.text) :
    Alone t (fun result w' => w' = w₁ ∧ result = .ok id.text) (resolve id.text) w₁ := by
  refine alone_resolve_id id hdir fun e y hne hentry hy => ?_
  rw [Bool.eq_false_iff]
  intro hn
  have hnamed : w.Named e id.text := by rw [World.Named, ← h.repairing.config, hy, hn]
  exact hne (hname e hnamed hentry)

end Rm

/-! ## Reachable registries -/

section Reachable

variable {host : Host} {build : Build}

end Reachable

end MiniContainer
