import MiniContainer.Spec.Alone
import MiniContainer.Spec.Steps
import MiniContainer.Native.Main

/-!
# A reconcile pass

`mc_state_reconcile` repairs the containers whose record says `running` while the
recorded process is gone. The repair of one container has nine steps, in this order:

1. its cgroup is killed,
2. the temporary file for the new record is created,
3. the new record replaces the old one,
4. to 9. the work and merged directories, the control socket, the runtime directory,
   the veth link and the packet filter rules are removed.

`Repairing w pid σ w'` describes every world that a pass by process `pid` can leave,
also in the middle of a repair: `σ d` steps of the repair of `d` are done.
-/

namespace MiniContainer

open CString (Text)
open Function (update update_apply update_idem update_self)

/-! ## Stale records -/

/-- The record says `running`, and its process is gone. -/
def StateDoc.isStale (startTime : Nat → Nat) (document : StateDoc) : Bool :=
  match document.status, document.shimPid, document.shimStart with
  | .running, some pid, some start => !(pid != 0 && start != 0 && startTime pid == start)
  | _, _, _ => false

/-- The container has a stale record. -/
def World.stale (w : World) (c : Name) : Bool :=
  containerEntry c && (w.state c).any (·.isStale w.startTime)

theorem StateDoc.not_isStale_repaired (startTime : Nat → Nat) (document : StateDoc) :
    document.repaired.isStale startTime = false := rfl

/-- The cgroup that is killed for a record of the container. -/
def World.Owns (w : World) (c : Name) (path : Text) : Prop :=
  ∃ document, w.state c = some document ∧ document.cgroupPath = some path ∧
    ownsCgroup c path = true

/-! ## Worlds in the middle of a pass -/

/-- A directory behind the first `n` steps of a repair by process `pid`. -/
def Dir.after (d : Dir) (pid n : Nat) : Dir :=
  { d with
    state := if 3 ≤ n then d.state.map StateDoc.repaired else d.state
    temporaries := if n = 2 then (.state, pid) :: d.temporaries else d.temporaries
    work := d.work && decide (n < 4)
    merged := d.merged && decide (n < 5) }

/-- `w'` is `w` with the first `σ d` steps of the repair of each container `d` done. -/
structure Repairing (w : World) (pid : Nat) (σ : Name → Nat) (w' : World) : Prop where
  dir : ∀ d, w'.dir d = (w.dir d).map (·.after pid (σ d))
  sockets : ∀ d, w'.sockets d = if 6 ≤ σ d then none else w.sockets d
  runtimes : ∀ d, w'.runtimes d = if 7 ≤ σ d then false else w.runtimes d
  links : ∀ l, w'.links l = true ↔ w.links l = true ∧ ∀ d, 8 ≤ σ d → linkName d ≠ l
  rules : ∀ d, w'.rules d = if 9 ≤ σ d then false else w.rules d
  cgroups : ∀ p, w'.cgroups p = true ↔ w.cgroups p = true ∧ ∀ d, 1 ≤ σ d → ¬ w.Owns d p
  startTime : w'.startTime = w.startTime
  pidOf : w'.pidOf = w.pidOf

@[simp] theorem Dir.after_zero (d : Dir) (pid : Nat) : d.after pid 0 = d := by
  simp [Dir.after]

/-- Nothing is done yet. -/
theorem Repairing.start (w : World) (pid : Nat) : Repairing w pid (fun _ => 0) w where
  dir d := by simp
  sockets d := rfl
  runtimes d := rfl
  links l := by simp
  rules d := rfl
  cgroups p := by simp
  startTime := rfl
  pidOf := rfl

section Steps

variable {w w₁ : World} {pid : Nat} {σ : Name → Nat} {c : Name}

/-- The containers whose repair has come as far as step `k`, behind one more step of `c`. -/
private theorem le_update_iff {n : Nat} (hc : σ c = n) (k : Nat) (d : Name) :
    k ≤ update σ c (n + 1) d ↔ k ≤ σ d ∨ (k = n + 1 ∧ d = c) := by
  rw [update_apply]
  split
  · rename_i hd
    simp only [hd, hc, and_true]
    omega
  · rename_i hd
    simp [hd]

/-- One more step of the repair of `c`: what it does to each part of the world. -/
theorem Repairing.advance {w₂ : World} (h : Repairing w pid σ w₁) {n : Nat} (hc : σ c = n)
    (hdir : ∀ d, w₂.dir d = if d = c then (w.dir d).map (·.after pid (n + 1)) else w₁.dir d)
    (hsockets : ∀ d, w₂.sockets d = if 6 = n + 1 ∧ d = c then none else w₁.sockets d)
    (hruntimes : ∀ d, w₂.runtimes d = if 7 = n + 1 ∧ d = c then false else w₁.runtimes d)
    (hlinks : ∀ l, w₂.links l = if 8 = n + 1 ∧ l = linkName c then false else w₁.links l)
    (hrules : ∀ d, w₂.rules d = if 9 = n + 1 ∧ d = c then false else w₁.rules d)
    (hcgroups : ∀ p, w₂.cgroups p = true ↔ w₁.cgroups p = true ∧ (1 = n + 1 → ¬ w.Owns c p))
    (hstart : w₂.startTime = w₁.startTime) (hpid : w₂.pidOf = w₁.pidOf) :
    Repairing w pid (update σ c (n + 1)) w₂ where
  dir d := by
    rw [hdir, update_apply]
    split
    · rfl
    · rw [h.dir]
  sockets d := by
    rw [hsockets, h.sockets]
    simp only [le_update_iff hc]
    grind
  runtimes d := by
    rw [hruntimes, h.runtimes]
    simp only [le_update_iff hc]
    grind
  links l := by
    rw [hlinks]
    simp only [le_update_iff hc]
    have := h.links l
    grind
  rules d := by
    rw [hrules, h.rules]
    simp only [le_update_iff hc]
    grind
  cgroups p := by
    simp only [hcgroups, h.cgroups, le_update_iff hc]
    grind
  startTime := hstart.trans h.startTime
  pidOf := hpid.trans h.pidOf

/-- The world in which the cgroup of a stale record is killed, if it belongs to the
    container. -/
def World.killStale (w : World) (c : Name) (document : StateDoc) : World :=
  { w with cgroups := fun path =>
      if document.cgroupPath = some path ∧ ownsCgroup c path = true then false
      else w.cgroups path }

/-- The cgroup is killed. -/
theorem Repairing.kill (h : Repairing w pid σ w₁) (hc : σ c = 0) {document : StateDoc}
    (hdoc : w.state c = some document) :
    Repairing w pid (update σ c 1) (w₁.killStale c document) := by
  have howns : ∀ p, w.Owns c p ↔ document.cgroupPath = some p ∧ ownsCgroup c p = true := by
    intro p
    simp [World.Owns, hdoc]
  refine h.advance hc (fun d => ?_) (fun d => ?_) (fun d => ?_) (fun l => ?_) (fun d => ?_)
    (fun p => ?_) rfl rfl
  · change w₁.dir d = _
    rw [h.dir]
    split
    · rename_i hd
      rw [hd, hc]
      rfl
    · rfl
  · simp [World.killStale]
  · simp [World.killStale]
  · simp [World.killStale]
  · simp [World.killStale]
  · simp only [World.killStale, howns]
    grind

/-- A step that changes nothing but the directory of the container. -/
private theorem Repairing.setDir (h : Repairing w pid σ w₁) {n : Nat} (hc : σ c = n)
    (hn : n = 1 ∨ n = 2) {d d' : Dir} (hd : w.dir c = some d) (hd' : d' = d.after pid (n + 1)) :
    Repairing w pid (update σ c (n + 1)) (w₁.setDir c d') := by
  refine h.advance hc (fun e => ?_) (fun e => ?_) (fun e => ?_) (fun l => ?_) (fun e => ?_)
    (fun p => ?_) rfl rfl
  · rw [World.dir_setDir]
    split
    · rename_i he
      rw [he, hd, hd']
      rfl
    · rfl
  · exact (if_neg fun h => by omega).symm
  · exact (if_neg fun h => by omega).symm
  · exact (if_neg fun h => by omega).symm
  · exact (if_neg fun h => by omega).symm
  · exact (and_iff_left fun h => by omega).symm

/-- The temporary file is created. -/
theorem Repairing.createTemporary (h : Repairing w pid σ w₁) (hc : σ c = 1) {d : Dir}
    (hd : w.dir c = some d) :
    Repairing w pid (update σ c 2)
      (w₁.setDir c { d with temporaries := (.state, pid) :: d.temporaries }) :=
  h.setDir hc (.inl rfl) hd (by simp [Dir.after])

/-- The record is replaced. -/
theorem Repairing.commit (h : Repairing w pid σ w₁) (hc : σ c = 1) {d : Dir}
    (hd : w.dir c = some d) {document : StateDoc} (hdoc : d.state = some document) (t : Tid) :
    Repairing w pid (update σ c 3) ((w₁.setDir c
      (d.install (.state .reconcile document.repaired))).recordWrite t c
      (.state .reconcile document.repaired)) := by
  have h₂ := h.createTemporary hc hd
  have hinstall : d.install (.state .reconcile document.repaired) = d.after pid 3 := by
    simp [Dir.after, Dir.install, hdoc]
  have h₃ := h₂.setDir (c := c) (n := 2) (update_self ..) (.inr rfl) hd hinstall
  rw [update_idem] at h₃
  have hset : (w₁.setDir c { d with temporaries := (.state, pid) :: d.temporaries }).setDir c
      (d.install (.state .reconcile document.repaired)) =
      w₁.setDir c (d.install (.state .reconcile document.repaired)) := by
    simp only [World.setDir, AList.insert_insert]
  rw [hset] at h₃
  exact ⟨h₃.dir, h₃.sockets, h₃.runtimes, h₃.links, h₃.rules, h₃.cgroups, h₃.startTime, h₃.pidOf⟩

/-- What step `n + 1` of a repair removes, for `3 ≤ n`. -/
def removedBy : Nat → Resource
  | 3 => .work
  | 4 => .merged
  | 5 => .control
  | 6 => .runtime
  | 7 => .link
  | _ => .rules

private theorem removedBy_eq (pid : Nat) {n : Nat} (hlow : 3 ≤ n) (hhigh : n ≤ 8) :
    (removedBy n = .control ↔ 6 = n + 1) ∧ (removedBy n = .runtime ↔ 7 = n + 1) ∧
      (removedBy n = .link ↔ 8 = n + 1) ∧ (removedBy n = .rules ↔ 9 = n + 1) ∧
      ∀ d : Dir, (d.after pid n).without (removedBy n) = d.after pid (n + 1) := by
  obtain rfl | rfl | rfl | rfl | rfl | rfl :
    n = 3 ∨ n = 4 ∨ n = 5 ∨ n = 6 ∨ n = 7 ∨ n = 8 := by omega
  all_goals simp [removedBy, Dir.after, Dir.without]

/-- A resource is removed. -/
theorem Repairing.clear {n : Nat} (h : Repairing w pid (update σ c n) w₁) (hlow : 3 ≤ n)
    (hhigh : n ≤ 8) : Repairing w pid (update σ c (n + 1)) (w₁.clear c (removedBy n)) := by
  obtain ⟨hcontrol, hruntime, hlink, hrule, hafter⟩ := removedBy_eq pid hlow hhigh
  have hc : update σ c n c = n := update_self ..
  rw [← update_idem (v := n)]
  refine h.advance hc (fun d => ?_) (fun d => ?_) (fun d => ?_) (fun l => ?_) (fun d => ?_)
    (fun p => ?_) ?_ ?_
  · rw [World.dir_clear]
    split
    · rename_i hd
      rw [h.dir, Option.map_map]
      congr 1
      funext x
      simp [hd, hafter]
    · rfl
  · simp only [World.sockets_clear, hcontrol]
  · have hsocket := h.sockets c
    simp only [World.runtimes_clear, hruntime]
    grind
  · simp only [World.links_clear, hlink]
  · simp only [World.rules_clear, hrule]
  · rw [World.frame_clear]
    simp
    omega
  · rw [World.frame_clear]
    rfl
  · rw [World.frame_clear]

end Steps

/-! ## A pass that runs alone -/

/-- A world that a pass by process `pid` may leave when it is killed: only stale containers
    are repaired. -/
def InPass (w : World) (pid : Nat) (w' : World) : Prop :=
  ∃ σ, Repairing w pid σ w' ∧ ∀ d, σ d ≠ 0 → w.stale d = true

section Pass

variable {w w₁ : World} {t : Tid} {σ : Name → Nat} {c : Name}

/-- Only stale containers are repaired. -/
abbrev OnlyStale (w : World) (σ : Name → Nat) : Prop := ∀ d, σ d ≠ 0 → w.stale d = true

theorem OnlyStale.update (h : OnlyStale w σ) (hc : w.stale c = true) (n : Nat) :
    OnlyStale w (update σ c n) := by
  intro d hd
  rw [update_apply] at hd
  split at hd
  · rename_i heq
    rw [heq, hc]
  · exact h d hd

theorem alone_killStaleCgroup {I : World → Prop} (c : Name) (document : StateDoc)
    (hI : I (w₁.killStale c document)) :
    AloneKeeping t I (fun _ w' => w' = w₁.killStale c document)
      (killStaleCgroup c document) w₁ := by
  -- without a cgroup of the container nothing is to be done
  have hnone : (∀ path, document.cgroupPath = some path → ownsCgroup c path = false) →
      w₁ = w₁.killStale c document := by
    intro h
    have hcgroups : w₁.cgroups = (w₁.killStale c document).cgroups := by
      funext path
      exact (if_neg fun hp => by simp [h path hp.1] at hp).symm
    exact congrArg (fun cgroups => { w₁ with cgroups }) hcgroups
  unfold killStaleCgroup
  split
  · rename_i hpath
    exact hnone (by simp [hpath])
  · rename_i path hpath
    split
    · rename_i howns
      have hkill : { w₁ with cgroups := update w₁.cgroups path false } =
          w₁.killStale c document := by
        simp only [World.killStale, World.mk.injEq, true_and, and_true]
        funext p
        rw [update_apply, hpath]
        by_cases hp : p = path
        · simp [hp, howns]
        · simp [hp, Ne.symm hp]
      refine Alone.perform (o := .killCgroup c path) fun ch _ => ⟨_, _, rfl, ?_⟩
      exact ⟨hkill ▸ hI, hkill⟩
    · rename_i howns
      refine hnone fun p hp => ?_
      rw [hpath] at hp
      cases hp
      exact Bool.not_eq_true _ ▸ howns

theorem alone_cleanUp (h : Repairing w (w.pidOf t) (update σ c 3) w₁) (hstale : OnlyStale w σ)
    (hc : w.stale c = true) :
    AloneKeeping t (InPass w (w.pidOf t))
      (fun _ w' => Repairing w (w.pidOf t) (update σ c 9) w') (cleanUp c) w₁ := by
  have hstep : ∀ (ch : Choice) (w₂ : World) (r : Resource), ch.Calm →
      step ch w₂ t (.remove .reconcile c r) = some ((), w₂.clear c r) :=
    fun ch w₂ r hch => by simp [step, hch.fault]
  have hpass : ∀ {n w₂}, Repairing w (w.pidOf t) (update σ c n) w₂ → InPass w (w.pidOf t) w₂ :=
    fun h => ⟨_, h, hstale.update hc _⟩
  have h₄ := h.clear (by decide) (by decide)
  have h₅ := h₄.clear (by decide) (by decide)
  have h₆ := h₅.clear (by decide) (by decide)
  have h₇ := h₆.clear (by decide) (by decide)
  have h₈ := h₇.clear (by decide) (by decide)
  have h₉ := h₈.clear (by decide) (by decide)
  exact Alone.perform_bind fun ch hch => ⟨_, _, hstep ch _ _ hch, hpass h₄,
    Alone.perform_bind fun ch hch => ⟨_, _, hstep ch _ _ hch, hpass h₅,
    Alone.perform_bind fun ch hch => ⟨_, _, hstep ch _ _ hch, hpass h₆,
    Alone.perform_bind fun ch hch => ⟨_, _, hstep ch _ _ hch, hpass h₇,
    Alone.perform_bind fun ch hch => ⟨_, _, hstep ch _ _ hch, hpass h₈,
    Alone.perform fun ch hch => ⟨_, _, hstep ch _ _ hch, hpass h₉, h₉⟩⟩⟩⟩⟩⟩

/-- The repair of a stale container. -/
theorem alone_repair (h : Repairing w (w.pidOf t) σ w₁) (hstale : OnlyStale w σ) (hc : σ c = 0)
    (hstalec : w.stale c = true) {d : Dir} (hd : w.dir c = some d) {document : StateDoc}
    (hdoc : d.state = some document) (htemporary : (.state, w.pidOf t) ∉ d.temporaries) :
    AloneKeeping t (InPass w (w.pidOf t))
      (fun result w' => result = .ok () ∧ Repairing w (w.pidOf t) (update σ c 9) w')
      (repair c document) w₁ := by
  have hstate : w.state c = some document := by simp [World.state, hd, hdoc]
  have h₁ := h.kill hc hstate
  have hpass : ∀ {n w₂}, Repairing w (w.pidOf t) (update σ c n) w₂ → InPass w (w.pidOf t) w₂ :=
    fun h => ⟨_, h, hstale.update hstalec _⟩
  refine Alone.lift_andThen ((alone_killStaleCgroup c document (hpass h₁)).mono ?_)
  rintro _ _ rfl
  have hc₁ : update σ c 1 c = 1 := update_self ..
  have hd₁ : (w₁.killStale c document).dir c = some d := by
    rw [h₁.dir, hc₁, hd]
    simp [Dir.after]
  have hpid : (w₁.killStale c document).pidOf t = w.pidOf t := congrFun h₁.pidOf t
  have h₂ := h₁.createTemporary hc₁ hd
  have h₃ := h₁.commit hc₁ hd hdoc t
  rw [update_idem] at h₂ h₃
  refine Alone.andThen ((alone_writeAtomic (.state .reconcile document.repaired)
    hd₁ ?_ ?_ ?_).mono ?_)
  · rw [hpid]
    exact htemporary
  · rw [hpid]
    exact hpass h₂
  · exact hpass h₃
  rintro _ _ ⟨rfl, rfl⟩
  refine Prog.Total.bind ((alone_cleanUp h₃ hstale hstalec).mono fun _ _ h₉ => ?_)
  exact ⟨rfl, h₉⟩

/-- The new record of a container cannot be written: there is a temporary file of an earlier
    process with the same process ID. -/
def World.blocked (w : World) (t : Tid) (c : Name) : Bool :=
  (w.dir c).any fun d => (.state, w.pidOf t) ∈ d.temporaries

/-- The records of all stale containers can be written. -/
def World.Completes (w : World) (t : Tid) : Prop := ∀ c, w.stale c = true → w.blocked t c = false

/-- What the body of the loop makes of container `c` and the world `w₁`. -/
def Looked (w : World) (t : Tid) (σ : Name → Nat) (c : Name) (w₁ : World)
    (result : Except McError Bool) (w' : World) : Prop :=
  if w.stale c then
    if w.blocked t c then ∃ e, result = .error e
    else result = .ok true ∧ Repairing w (w.pidOf t) (update σ c 9) w'
  else result = .ok false ∧ w' = w₁

/-- The test that the loop makes of a record. -/
private theorem isStale_eq {startTime : Nat → Nat} {document : StateDoc} {pid start : Nat}
    (hstatus : document.status = .running) (hpid : document.shimPid = some pid)
    (hstart : document.shimStart = some start) :
    document.isStale startTime = !(!(pid = 0 ∨ start = 0 : Bool) && startTime pid == start) := by
  simp [StateDoc.isStale, hstatus, hpid, hstart, bne, beq_eq_decide]

/-- The repair of a stale container, or the failure to write its record. -/
private theorem alone_repair_or_refused (h : Repairing w (w.pidOf t) σ w₁) (hstale : OnlyStale w σ)
    (hc : σ c = 0) (hstalec : w.stale c = true) {document : StateDoc}
    (hdoc : w.state c = some document) :
    AloneKeeping t (InPass w (w.pidOf t)) (Looked w t σ c w₁)
      (repair c document >>= fun _ => pure true : Attempt Bool) w₁ := by
  obtain ⟨d, hd, hdstate⟩ := Option.bind_eq_some_iff.mp hdoc
  refine Alone.andThen ?_
  cases hblocked : w.blocked t c with
  | false =>
    have htemporary : (.state, w.pidOf t) ∉ d.temporaries := by
      simpa [World.blocked, hd] using hblocked
    refine (alone_repair h hstale hc hstalec hd hdstate htemporary).mono ?_
    rintro _ w' ⟨rfl, hdone⟩
    change Looked w t σ c w₁ (.ok true) w'
    simp [Looked, hstalec, hblocked, hdone]
  | true =>
    have htemporary : (.state, w.pidOf t) ∈ d.temporaries := by
      simpa [World.blocked, hd] using hblocked
    have h₁ := h.kill hc hdoc
    have hpass : InPass w (w.pidOf t) (w₁.killStale c document) :=
      ⟨_, h₁, hstale.update hstalec _⟩
    refine Alone.lift_andThen ((alone_killStaleCgroup c document hpass).mono ?_)
    rintro _ _ rfl
    refine Alone.andThen ((alone_writeAtomic_refused _ (fun d' hd' => ?_) hpass).mono ?_)
    · rw [h₁.dir, hd, update_self] at hd'
      cases hd'
      rw [congrFun h₁.pidOf t]
      exact htemporary
    · rintro _ _ ⟨rfl, e, rfl⟩
      simp [Looked, hstalec, hblocked]

/-- The body of the loop for a container that was not looked at yet. -/
theorem alone_reconcileEntry (h : Repairing w (w.pidOf t) σ w₁) (hstale : OnlyStale w σ)
    (hc : σ c = 0) (hentry : containerEntry c = true) :
    AloneKeeping t (InPass w (w.pidOf t)) (Looked w t σ c w₁) (reconcileEntry c) w₁ := by
  have hpass : InPass w (w.pidOf t) w₁ := ⟨σ, h, hstale⟩
  have hstate : w₁.state c = w.state c := by
    rw [World.state, World.state, h.dir, hc]
    simp
  have hkeep : w.stale c = false → Looked w t σ c w₁ (.ok false) w₁ := by
    intro hfresh
    simp [Looked, hfresh]
  refine Alone.perform_andThen fun ch _ => ⟨_, _, rfl, hpass, ?_⟩
  rw [hstate]
  cases hdoc : w.state c with
  | none => exact hkeep (by simp [World.stale, hdoc])
  | some document =>
    have hstalec : w.stale c = document.isStale w.startTime := by
      simp [World.stale, hentry, hdoc]
    dsimp only
    split
    · rename_i pid start hstatus hpid hstart
      rw [isStale_eq hstatus hpid hstart] at hstalec
      refine Alone.lift_andThen ?_
      rw [identityHolds]
      split
      · rename_i hzero
        exact alone_repair_or_refused h hstale hc (by simp [hstalec, hzero]) hdoc
      · rename_i hzero
        refine Alone.perform_bind fun ch _ => ⟨_, _, rfl, hpass, ?_⟩
        rw [h.startTime]
        cases hheld : w.startTime pid == start with
        | true => exact hkeep (by simp [hstalec, hzero, hheld])
        | false => exact alone_repair_or_refused h hstale hc (by simp [hstalec, hheld]) hdoc
    · rename_i hother
      refine hkeep ?_
      rw [hstalec, StateDoc.isStale]
      split
      · rename_i pid start hstatus hpid hstart
        exact absurd hstart (hother pid start hstatus hpid)
      · rfl

/-- The steps that are done when the stale containers among `names` are repaired too. -/
def repairedIn (w : World) (names : List Name) (σ : Name → Nat) : Name → Nat :=
  fun c => if c ∈ names ∧ w.stale c = true then 9 else σ c

/-- What the loop over `names` makes of the containers, `count` of which were repaired. -/
def Passed (w : World) (t : Tid) (σ : Name → Nat) (names : List Name) (count : Nat)
    (result : Except McError Nat) (w' : World) : Prop :=
  if ∀ c ∈ names, w.stale c = true → w.blocked t c = false then
    result = .ok (count + names.countP (w.stale ·)) ∧
      Repairing w (w.pidOf t) (repairedIn w names σ) w'
  else ∃ e, result = .error e

section Loop

variable {names : List Name} {count : Nat} {result : Except McError Nat} {w' : World}

private theorem Passed.skip (hc : w.stale c = false) (h : Passed w t σ names count result w') :
    Passed w t σ (c :: names) count result w' := by
  have hσ : repairedIn w (c :: names) σ = repairedIn w names σ := by
    funext d
    by_cases hd : d = c <;> simp [repairedIn, hd, hc]
  simpa [Passed, hc, hσ] using h

private theorem Passed.repair (hc : w.stale c = true) (hfree : w.blocked t c = false)
    (h : Passed w t (update σ c 9) names (count + 1) result w') :
    Passed w t σ (c :: names) count result w' := by
  have hσ : repairedIn w (c :: names) σ = repairedIn w names (update σ c 9) := by
    funext d
    by_cases hd : d = c <;> simp [repairedIn, hd, hc]
  have hcount : count + (names.countP (w.stale ·) + 1) = count + 1 + names.countP (w.stale ·) := by
    omega
  simpa [Passed, hc, hfree, hσ, hcount] using h

private theorem Passed.blocked (hc : w.stale c = true) (hblocked : w.blocked t c = true)
    (e : McError) : Passed w t σ (c :: names) count (.error e) w' := by
  simp [Passed, hc, hblocked]

end Loop

/-- The loop. -/
theorem alone_reconcileIn {names : List Name} (hnodup : names.Nodup) (count : Nat)
    (h : Repairing w (w.pidOf t) σ w₁) (hstale : OnlyStale w σ) (hσ : ∀ c ∈ names, σ c = 0) :
    AloneKeeping t (InPass w (w.pidOf t)) (Passed w t σ names count)
      (reconcileIn names count) w₁ := by
  induction names generalizing w₁ σ count with
  | nil =>
    change Passed w t σ [] count (.ok count) w₁
    have hσ : repairedIn w [] σ = σ := by
      funext c
      simp [repairedIn]
    simpa [Passed, hσ] using h
  | cons c names ih =>
    obtain ⟨hc, hnodup⟩ := List.nodup_cons.mp hnodup
    have hσ' : ∀ d ∈ names, σ d = 0 := fun d hd => hσ d (List.mem_cons_of_mem _ hd)
    have hskip := fun (hfresh : w.stale c = false) =>
      (ih hnodup count h hstale hσ').mono fun _ _ => Passed.skip hfresh
    rw [reconcileIn]
    cases hentry : containerEntry c with
    | false => exact hskip (by simp [World.stale, hentry])
    | true =>
      rw [if_neg (by decide)]
      have hentry := alone_reconcileEntry h hstale (hσ c List.mem_cons_self) hentry
      refine Alone.andThen (hentry.mono fun result w₂ hlooked => ?_)
      rw [Looked] at hlooked
      split at hlooked
      · rename_i hstalec
        split at hlooked
        · rename_i hblocked
          obtain ⟨e, rfl⟩ := hlooked
          exact Passed.blocked hstalec hblocked e
        · rename_i hfree
          obtain ⟨rfl, h₂⟩ := hlooked
          have hσ₂ : ∀ d ∈ names, update σ c 9 d = 0 := by
            intro d hd
            rw [Function.update_of_ne (by rintro rfl; exact hc hd)]
            exact hσ' d hd
          exact (ih hnodup (count + 1) h₂ (hstale.update hstalec 9) hσ₂).mono fun _ _ =>
            Passed.repair hstalec (by simpa using hfree)
      · rename_i hfresh
        obtain ⟨rfl, rfl⟩ := hlooked
        exact hskip (by simpa using hfresh)

/-- The steps that a whole pass does. -/
def World.repaired (w : World) : Name → Nat := fun c => if w.stale c then 9 else 0

/-- A stale container has a directory. -/
theorem World.dir_of_stale (h : w.stale c = true) : w.dir c ≠ none := by
  intro hnone
  simp [World.stale, World.state, hnone] at h

/-- A pass, when the record of every stale container can be written. -/
theorem alone_reconcile (hcompletes : w.Completes t) :
    AloneKeeping t (InPass w (w.pidOf t)) (fun result w' =>
      (∃ count, result = .ok count ∧ (count = 0 ↔ ∀ c, w.stale c = false)) ∧
      Repairing w (w.pidOf t) w.repaired w') reconcile w := by
  have hstart := Repairing.start w (w.pidOf t)
  have honly : OnlyStale w fun _ => 0 := fun _ h => absurd rfl h
  refine Alone.opendir_andThen ⟨_, hstart, honly⟩ (fun hkeys => ?_) fun names hnames => ?_
  · have hfresh : ∀ c, w.stale c = false := by
      intro c
      rw [Bool.eq_false_iff]
      intro hc
      exact absurd (World.mem_keys.mpr (World.dir_of_stale hc)) (by simp [hkeys])
    have hσ : w.repaired = fun _ => 0 := by
      funext c
      simp [World.repaired, hfresh c]
    exact ⟨⟨0, rfl, by simp [hfresh]⟩, hσ ▸ hstart⟩
  · have hnodup := hnames.nodup_iff.mpr w.dirs.keys_nodup
    have hmem : ∀ c, w.stale c = true → c ∈ names := fun c hc =>
      hnames.mem_iff.mpr (World.mem_keys.mpr (World.dir_of_stale hc))
    refine (alone_reconcileIn hnodup 0 hstart honly fun _ _ => rfl).mono fun result w' hp => ?_
    rw [Passed, if_pos fun c _ => hcompletes c] at hp
    have hσ : repairedIn w names (fun _ => 0) = w.repaired := by
      funext c
      have := hmem c
      simp only [repairedIn, World.repaired]
      grind
    refine ⟨⟨_, hp.1, ?_⟩, hσ ▸ hp.2⟩
    rw [Nat.zero_add, List.countP_eq_zero]
    exact ⟨fun h c => Bool.eq_false_iff.mpr fun hc => h c (hmem c hc) hc,
      fun h c _ => by simp [h c]⟩

/-- A pass, when some record cannot be written. -/
theorem alone_reconcile_blocked (hblocked : ¬ w.Completes t) :
    AloneKeeping t (InPass w (w.pidOf t)) (fun result _ => ∃ e, result = .error e) reconcile w := by
  obtain ⟨c, hc⟩ := not_forall.mp hblocked
  obtain ⟨hstalec, hc⟩ := Classical.not_imp.mp hc
  have hstart := Repairing.start w (w.pidOf t)
  have honly : OnlyStale w fun _ => 0 := fun _ h => absurd rfl h
  have hkey := World.mem_keys.mpr (World.dir_of_stale hstalec)
  refine Alone.opendir_andThen ⟨_, hstart, honly⟩ (fun hkeys => ?_) fun names hnames => ?_
  · exact absurd hkey (by simp [hkeys])
  · have hnodup := hnames.nodup_iff.mpr w.dirs.keys_nodup
    refine (alone_reconcileIn hnodup 0 hstart honly fun _ _ => rfl).mono fun result w' hp => ?_
    rwa [Passed, if_neg fun h => hc (h c (hnames.mem_iff.mpr hkey) hstalec)] at hp

/-- A pass over a registry without stale containers changes nothing. -/
theorem alone_reconcile_clean (hclean : ∀ c, w.stale c = false) :
    Alone t (fun result w' => result = .ok 0 ∧ w' = w) reconcile w := by
  have hentry : ∀ c, containerEntry c = true →
      Alone t (fun result w' => result = .ok false ∧ w' = w) (reconcileEntry c) w := by
    intro c hc
    have h := alone_reconcileEntry (t := t) (Repairing.start w _) (fun _ h => absurd rfl h)
      (c := c) rfl hc
    refine h.keepTrivial.mono fun result w' hlooked => ?_
    simpa [Looked, hclean c] using hlooked
  have hloop : ∀ names, Alone t (fun result w' => result = .ok 0 ∧ w' = w)
      (reconcileIn names 0) w := by
    intro names
    induction names with
    | nil => exact ⟨rfl, rfl⟩
    | cons c names ih =>
      rw [reconcileIn]
      cases hc : containerEntry c with
      | false => exact ih
      | true =>
        rw [if_neg (by decide)]
        refine Alone.andThen ((hentry c hc).mono ?_)
        rintro _ _ ⟨rfl, rfl⟩
        exact ih
  exact Alone.opendir_andThen trivial (fun _ => ⟨rfl, rfl⟩) fun names _ => hloop names

end Pass

/-! ## Interrupted passes -/

/-- A directory without its temporary files. -/
def Dir.lasting (d : Dir) : Dir := { d with temporaries := [] }

/-- The two worlds have the same registry and the same resources. Temporary files, which
    nothing reads, do not count. -/
structure World.Agree (w w' : World) : Prop where
  dir : ∀ c, (w.dir c).map Dir.lasting = (w'.dir c).map Dir.lasting
  sockets : w.sockets = w'.sockets
  runtimes : w.runtimes = w'.runtimes
  links : w.links = w'.links
  rules : w.rules = w'.rules
  cgroups : w.cgroups = w'.cgroups

/-- What process `t` leaves when it is killed `n` operations into a pass. -/
def interrupted (t : Tid) (n : Nat) (χ : Nat → Choice) (w : World) : World :=
  (Prog.killedAfter (fun ch w o => step ch w t o) n reconcile χ w).leave t killedCode

/-- Nothing is left of container `c` that a pass over `w` would remove, except a link that is
    also the link of a stale container. -/
structure World.Cleared (w : World) (c : Name) : Prop where
  work : ∀ d, w.dir c = some d → d.work = false ∧ d.merged = false
  socket : w.sockets c = none
  runtime : w.runtimes c = false
  link : w.links (linkName c) = true → ∃ d, w.stale d = true ∧ linkName d = linkName c
  rules : w.rules c = false

section Interrupted

variable {w w₁ w₂ w₃ : World} {pid pid' : Nat} {σ : Name → Nat}

theorem Repairing.state (h : Repairing w pid σ w₁) (c : Name) :
    w₁.state c = if 3 ≤ σ c then (w.state c).map StateDoc.repaired else w.state c := by
  rw [World.state, World.state, h.dir]
  cases w.dir c with
  | none => simp
  | some d => simp [Dir.after]

/-- A container is stale until its record is replaced. -/
theorem Repairing.stale (h : Repairing w pid σ w₁) (c : Name) :
    w₁.stale c = (w.stale c && decide (σ c < 3)) := by
  rw [World.stale, World.stale, h.state, h.startTime]
  by_cases hc : 3 ≤ σ c
  · have hdone : ((w.state c).map StateDoc.repaired).any (·.isStale w.startTime) = false := by
      cases w.state c with
      | none => rfl
      | some document => exact document.not_isStale_repaired w.startTime
    simp [hc, hdone]
  · simp [hc, Nat.lt_of_not_le hc]

/-- The end of the process does not undo a repair. -/
theorem Repairing.leave (h : Repairing w pid σ w₁) (t : Tid) (code : Nat) :
    Repairing w pid σ (w₁.leave t code) := by
  refine ⟨fun d => ?_, fun d => ?_, fun d => ?_, fun l => ?_, fun d => ?_, fun p => ?_,
    (w₁.startTime_leave t code).trans h.startTime, ?_⟩
  · rw [World.dir, World.dirs_leave]
    exact h.dir d
  all_goals rw [World.frame_leave]
  · exact h.sockets d
  · exact h.runtimes d
  · exact h.links l
  · exact h.rules d
  · exact h.cgroups p
  · exact h.pidOf

private theorem le_repaired_iff (w : World) {k : Nat} (hlow : 1 ≤ k) (hhigh : k ≤ 9) (c : Name) :
    k ≤ w.repaired c ↔ w.stale c = true := by
  rw [World.repaired]
  split
  · rename_i hc
    simp [hc, hhigh]
  · rename_i hc
    exact ⟨fun h => by omega, fun h => absurd h hc⟩

/-- The cgroups that a pass leaves do not depend on the interruption. -/
private theorem Repairing.cgroups_agree (h₁ : Repairing w pid σ w₁) (honly : OnlyStale w σ)
    (h₂ : Repairing w pid w.repaired w₂) (h₃ : Repairing w₁ pid' w₁.repaired w₃) :
    w₂.cgroups = w₃.cgroups := by
  have howns : ∀ c p, σ c < 3 → (w₁.Owns c p ↔ w.Owns c p) := by
    intro c p hσ
    simp only [World.Owns, h₁.state, if_neg (Nat.not_le_of_lt hσ)]
  funext p
  rw [Bool.eq_iff_iff, h₂.cgroups, h₃.cgroups, h₁.cgroups]
  simp only [le_repaired_iff _ (Nat.le_refl 1) (by decide), h₁.stale, Bool.and_eq_true,
    decide_eq_true_eq]
  constructor
  · rintro ⟨hp, hall⟩
    exact ⟨⟨hp, fun c hc => hall c (honly c (by omega))⟩,
      fun c hc => (howns c p hc.2).not.mpr (hall c hc.1)⟩
  · rintro ⟨⟨hp, hdone⟩, hrest⟩
    refine ⟨hp, fun c hc => ?_⟩
    by_cases hσ : σ c < 3
    · exact (howns c p hσ).not.mp (hrest c ⟨hc, hσ⟩)
    · exact hdone c (by omega)

/-- The links agree if those of the replaced records are gone or still to be removed. -/
private theorem Repairing.links_agree_iff (h₁ : Repairing w pid σ w₁) (honly : OnlyStale w σ)
    (h₂ : Repairing w pid w.repaired w₂) (h₃ : Repairing w₁ pid' w₁.repaired w₃) :
    w₂.links = w₃.links ↔ ∀ c, w.stale c = true → w₁.stale c = false →
      w₁.links (linkName c) = true → ∃ d, w₁.stale d = true ∧ linkName d = linkName c := by
  have h₂l := fun l => h₂.links l
  have h₃l := fun l => h₃.links l
  simp only [le_repaired_iff _ (by decide : 1 ≤ 8) (by decide)] at h₂l h₃l
  constructor
  · intro heq c hc _ hlink
    by_contra hnone
    have hkept : w₃.links (linkName c) = true :=
      (h₃l _).mpr ⟨hlink, fun d hd hname => hnone ⟨d, hd, hname⟩⟩
    rw [← heq] at hkept
    exact ((h₂l _).mp hkept).2 c hc rfl
  · intro hall
    funext l
    rw [Bool.eq_iff_iff, h₂l, h₃l, h₁.links]
    constructor
    · rintro ⟨hl, hnone⟩
      refine ⟨⟨hl, fun d hd => hnone d (honly d (by omega))⟩, fun d hd => hnone d ?_⟩
      simp only [h₁.stale, Bool.and_eq_true] at hd
      exact hd.1
    · rintro ⟨hl, hnone⟩
      refine ⟨hl.1, ?_⟩
      rintro c hc rfl
      cases hc₁ : w₁.stale c with
      | true => exact hnone c hc₁ rfl
      | false =>
        obtain ⟨d, hd, hname⟩ := hall c hc hc₁ ((h₁.links _).mpr hl)
        exact hnone d hd hname

/-- The directories of a container agree if nothing is left to be removed from it. -/
private theorem Repairing.dir_agree_iff (h₁ : Repairing w pid σ w₁) (honly : OnlyStale w σ)
    (h₂ : Repairing w pid w.repaired w₂) (h₃ : Repairing w₁ pid' w₁.repaired w₃) (c : Name) :
    (w₂.dir c).map Dir.lasting = (w₃.dir c).map Dir.lasting ↔
      (w.stale c = true → w₁.stale c = false →
        ∀ d, w₁.dir c = some d → d.work = false ∧ d.merged = false) := by
  have hstale := h₁.stale c
  rw [h₂.dir, h₃.dir, h₁.dir, World.repaired, World.repaired]
  cases w.dir c with
  | none => simp
  | some d =>
    cases hc : w.stale c with
    | false =>
      have hσ : σ c = 0 := by
        by_contra hne
        simp [honly c hne] at hc
      simp [hstale, hc, hσ]
    | true =>
      by_cases hσ : σ c < 3
      · have hlast : ¬ 3 ≤ σ c := by omega
        simp [hstale, hc, hσ, hlast, Dir.after, Dir.lasting]
      · have hdone : 3 ≤ σ c := by omega
        simp [hstale, hc, hσ, hdone, Dir.after, Dir.lasting]

/-- The pass that follows an interrupted one leaves the same as an uninterrupted one if the
    containers whose records were replaced are cleared. -/
theorem agree_iff (h₁ : Repairing w pid σ w₁) (honly : OnlyStale w σ)
    (h₂ : Repairing w pid w.repaired w₂) (h₃ : Repairing w₁ pid' w₁.repaired w₃) :
    w₂.Agree w₃ ↔ ∀ c, w.stale c = true → w₁.stale c = false → w₁.Cleared c := by
  have hdir := h₁.dir_agree_iff honly h₂ h₃
  have hlinks := h₁.links_agree_iff honly h₂ h₃
  have hσ : ∀ c, w.stale c = true → w₁.stale c = false → w.repaired c = 9 ∧ w₁.repaired c = 0 :=
    fun c hc hc₁ => ⟨by simp [World.repaired, hc], by simp [World.repaired, hc₁]⟩
  constructor
  · intro hagree c hc hc₁
    obtain ⟨hσ₂, hσ₃⟩ := hσ c hc hc₁
    refine ⟨(hdir c).mp (hagree.dir c) hc hc₁, ?_, ?_, hlinks.mp hagree.links c hc hc₁, ?_⟩
    · have hsocket := congrFun hagree.sockets c
      rw [h₂.sockets, h₃.sockets, hσ₂, hσ₃] at hsocket
      exact hsocket.symm
    · have hruntime := congrFun hagree.runtimes c
      rw [h₂.runtimes, h₃.runtimes, hσ₂, hσ₃] at hruntime
      exact hruntime.symm
    · have hrule := congrFun hagree.rules c
      rw [h₂.rules, h₃.rules, hσ₂, hσ₃] at hrule
      exact hrule.symm
  · intro hcleared
    -- outside the repaired containers nothing changed
    have hσ₀ : ∀ c, w.stale c = false → σ c = 0 := by
      intro c hc
      by_contra hne
      simp [honly c hne] at hc
    refine ⟨fun c => (hdir c).mpr fun hc hc₁ => (hcleared c hc hc₁).work, ?_, ?_,
      hlinks.mpr fun c hc hc₁ => (hcleared c hc hc₁).link, ?_, h₁.cgroups_agree honly h₂ h₃⟩
    · funext c
      have hsocket := fun hc hc₁ => (hcleared c hc hc₁).socket
      have hstale := h₁.stale c
      have hnone := hσ₀ c
      rw [h₂.sockets, h₃.sockets, h₁.sockets, World.repaired, World.repaired] at *
      grind
    · funext c
      have hruntime := fun hc hc₁ => (hcleared c hc hc₁).runtime
      have hstale := h₁.stale c
      have hnone := hσ₀ c
      rw [h₂.runtimes, h₃.runtimes, h₁.runtimes, World.repaired, World.repaired] at *
      grind
    · funext c
      have hrule := fun hc hc₁ => (hcleared c hc hc₁).rules
      have hstale := h₁.stale c
      have hnone := hσ₀ c
      rw [h₂.rules, h₃.rules, h₁.rules, World.repaired, World.repaired] at *
      grind

end Interrupted

/-- A pass that process `t` runs alone. -/
def passAlone (t : Tid) (χ : Nat → Choice) (w : World) : Option (Except McError Nat × World) :=
  Prog.eval (fun ch w o => step ch w t o) reconcile χ w

/-- What an interrupted pass leaves. -/
theorem inPass_interrupted (w : World) (t : Tid) (n : Nat) {χ : Nat → Choice}
    (hχ : ∀ k, (χ k).Calm) : InPass w (w.pidOf t) (interrupted t n χ w) := by
  have hstart : InPass w (w.pidOf t) w := ⟨_, Repairing.start w _, fun _ h => absurd rfl h⟩
  obtain ⟨σ, hσ, honly⟩ : InPass w (w.pidOf t)
      (Prog.killedAfter (fun ch w o => step ch w t o) n reconcile χ w) := by
    by_cases hc : w.Completes t
    · exact (alone_reconcile hc).killedAfter hstart (fun k _ => hχ k) n
    · exact (alone_reconcile_blocked hc).killedAfter hstart (fun k _ => hχ k) n
  exact ⟨σ, hσ.leave t killedCode, honly⟩

/-- An interrupted pass followed by a whole one leaves the same as an uninterrupted one, and a
    further pass changes nothing, exactly when both passes can write their records and the
    containers whose records the interrupted one replaced are cleared.

    The last condition fails when the pass is killed between the replacement of a record and
    the removal of the last resource: the container is no longer stale, and no later pass
    looks at it. -/
theorem reconcile_crashSafe_iff (w : World) (t t' t'' : Tid) (n : Nat)
    {χ χ₀ χ' χ'' : Nat → Choice} (hχ : ∀ k, (χ k).Calm) (hχ₀ : ∀ k, (χ₀ k).Calm)
    (hχ' : ∀ k, (χ' k).Calm) (hχ'' : ∀ k, (χ'' k).Calm) :
    (∃ count count' w₂ w₃, passAlone t χ₀ w = some (.ok count, w₂) ∧
        passAlone t' χ' (interrupted t n χ w) = some (.ok count', w₃) ∧ w₂.Agree w₃ ∧
        passAlone t'' χ'' w₂ = some (.ok 0, w₂)) ↔
      w.Completes t ∧ (interrupted t n χ w).Completes t' ∧
        ∀ c, w.stale c = true → (interrupted t n χ w).stale c = false →
          (interrupted t n χ w).Cleared c := by
  obtain ⟨σ, h₁, honly⟩ := inPass_interrupted w t n hχ
  generalize interrupted t n χ w = w₁ at h₁ ⊢
  -- a pass that succeeds was not blocked
  have hfree : ∀ {u : Tid} {ψ : Nat → Choice} {v v' : World} {count : Nat}, (∀ k, (ψ k).Calm) →
      passAlone u ψ v = some (.ok count, v') → v.Completes u ∧
        Repairing v (v.pidOf u) v.repaired v' := by
    intro u ψ v v' count hψ hpass
    by_cases hc : v.Completes u
    · obtain ⟨_, _, heval, -, hdone⟩ := (alone_reconcile hc).eval fun k _ => hψ k
      cases heval.symm.trans hpass
      exact ⟨hc, hdone⟩
    · obtain ⟨_, _, heval, e, rfl⟩ := (alone_reconcile_blocked hc).eval fun k _ => hψ k
      cases heval.symm.trans hpass
  constructor
  · rintro ⟨count, count', w₂, w₃, hpass₂, hpass₃, hagree, -⟩
    obtain ⟨hc, h₂⟩ := hfree hχ₀ hpass₂
    obtain ⟨hc', h₃⟩ := hfree hχ' hpass₃
    exact ⟨hc, hc', (agree_iff h₁ honly h₂ h₃).mp hagree⟩
  · rintro ⟨hc, hc', hcleared⟩
    obtain ⟨_, w₂, heval₂, ⟨count, rfl, -⟩, h₂⟩ := (alone_reconcile hc).eval fun k _ => hχ₀ k
    obtain ⟨_, w₃, heval₃, ⟨count', rfl, -⟩, h₃⟩ := (alone_reconcile hc').eval fun k _ => hχ' k
    have hclean : ∀ c, w₂.stale c = false := by
      intro c
      rw [h₂.stale, World.repaired]
      cases w.stale c <;> rfl
    obtain ⟨_, w', heval, rfl, hw'⟩ := (alone_reconcile_clean hclean).eval fun k _ => hχ'' k
    rw [hw'] at heval
    exact ⟨count, count', w₂, w₃, heval₂, heval₃, (agree_iff h₁ honly h₂ h₃).mpr hcleared, heval⟩

/-- The directory of a container that ran until its shim disappeared. -/
def staleDir : Dir where
  state := some {
    status := .running
    shimPid := some 7
    shimStart := some 5
    initPid := some 8
    initStart := some 6
    exitCode := 0
    cgroupPath := some [] }
  lock := true
  upper := true
  work := true
  merged := true

/-- A registry with one such container, and its veth link. -/
def staleWorld : World where
  dirs := AList.insert (plainId 0).text staleDir ∅
  links := fun l => l = linkName (plainId 0).text
  pidOf := id

private theorem eq_of_stale_staleWorld {c : Name} (h : staleWorld.stale c = true) :
    c = (plainId 0).text := by
  by_contra hc
  have hdir : staleWorld.dir c = none := (AList.lookup_insert_ne hc).trans (AList.lookup_empty c)
  simp [World.stale, World.state, hdir] at h

/-- The pass over this registry is killed when it has written the new record to its temporary
    file and not yet renamed it. -/
theorem reconcile_crashSafe_staleWorld :
    ∃ count count' w₂ w₃, passAlone 1 (fun _ => {}) staleWorld = some (.ok count, w₂) ∧
      passAlone 2 (fun _ => {}) (interrupted 1 4 (fun _ => {}) staleWorld) =
        some (.ok count', w₃) ∧ w₂.Agree w₃ ∧
      passAlone 3 (fun _ => {}) w₂ = some (.ok 0, w₂) := by
  have hcalm : ∀ _ : Nat, Choice.Calm {} := fun _ => Choice.calm_default
  obtain ⟨σ, hleft, -⟩ := inPass_interrupted staleWorld 1 4 hcalm
  have hstale : (interrupted 1 4 (fun _ => {}) staleWorld).stale (plainId 0).text = true := by
    decide +kernel
  refine (reconcile_crashSafe_iff staleWorld 1 2 3 4 hcalm hcalm hcalm hcalm).mpr
    ⟨fun c hc => ?_, fun c hc => ?_, fun c hc hc₁ => ?_⟩
  · obtain rfl := eq_of_stale_staleWorld hc
    decide +kernel
  · rw [hleft.stale, Bool.and_eq_true] at hc
    obtain rfl := eq_of_stale_staleWorld hc.1
    decide +kernel
  · obtain rfl := eq_of_stale_staleWorld hc
    cases hstale.symm.trans hc₁

/-- The pass succeeded, and the link of this container is or is not there. -/
def leavesLink (present : Bool) : Except McError Nat × World → Bool
  | (.ok _, w) => w.links (linkName (plainId 0).text) == present
  | (.error _, _) => false

private theorem exists_of_leavesLink {present : Bool} {pass : Option (Except McError Nat × World)}
    (h : pass.any (leavesLink present) = true) : ∃ count w, pass = some (.ok count, w) ∧
      w.links (linkName (plainId 0).text) = present := by
  match pass, h with
  | some (.ok count, w), h => exact ⟨count, w, rfl, eq_of_beq h⟩

/-- Killed behind the replacement of the record, the pass leaves the link of the container
    for good; an uninterrupted pass removes it. -/
theorem interrupted_pass_keeps_link :
    ∃ (w : World) (n count count' : Nat) (w₂ w₃ : World),
      passAlone 1 (fun _ => {}) w = some (.ok count, w₂) ∧
      passAlone 2 (fun _ => {}) (interrupted 1 n (fun _ => {}) w) = some (.ok count', w₃) ∧
      ¬ w₂.Agree w₃ := by
  have hwhole : (passAlone 1 (fun _ => {}) staleWorld).any (leavesLink false) = true := by
    decide +kernel
  -- the sixth operation would remove the work directory
  have hinterrupted : (passAlone 2 (fun _ => {})
      (interrupted 1 5 (fun _ => {}) staleWorld)).any (leavesLink true) = true := by
    decide +kernel
  obtain ⟨count, w₂, hpass₂, hlink₂⟩ := exists_of_leavesLink hwhole
  obtain ⟨count', w₃, hpass₃, hlink₃⟩ := exists_of_leavesLink hinterrupted
  refine ⟨staleWorld, 5, count, count', w₂, w₃, hpass₂, hpass₃, fun hagree => ?_⟩
  rw [← hagree.links, hlink₂] at hlink₃
  exact nomatch hlink₃

end MiniContainer
