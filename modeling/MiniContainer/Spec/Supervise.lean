import MiniContainer.Native.Supervise

/-!
# The exit of the workload

`SIGCHLD` is pending at most once, however many children exit, and children exit between
the calls of `waitpid`. `supervise` still misses no exit of the workload, since it reaps
until there is no zombie left each time it has taken the signal; and it returns the status
of the workload, since it compares the process ID of every child that it reaps.
-/

namespace MiniContainer.Supervise

open Signals (Signal sigchld supervisedSignals nsig)

/-! ## Status words -/

/-- What the supervisor is to return for the end of the workload. -/
def Ending.value : Ending → Nat
  | .exited code => code.toNat
  | .killed signal _ _ => 128 + signal

private theorem exitValue_exited : ∀ code < 256, exitValue (code <<< 8) = code := by
  decide +kernel

private theorem exitValue_killed : ∀ signal < nsig, 0 < signal → ∀ core : Bool,
    exitValue (signal ||| if core then 0x80 else 0) = 128 + signal := by
  decide +kernel

/-- Every ending is reported by its value. -/
theorem exitValue_status (e : Ending) : exitValue e.status = e.value := by
  cases e with
  | exited code => exact exitValue_exited code.toNat code.toNat_lt
  | killed signal core range => exact exitValue_killed signal range.2 range.1 core

/-! ## Children -/

section Children

variable (s : State) (pid q : Nat)

theorem child_cons (c : Child) :
    ({ s with children := c :: s.children } : State).child q =
      if c.pid = q then some c else s.child q := by
  unfold State.child
  rw [List.find?_cons]
  by_cases h : c.pid = q
  · simp [h]
  · rw [if_neg h, beq_eq_false_iff_ne.mpr h]

/-- A child that was reaped is gone. -/
theorem child_reap : (s.reap pid).child q = if q = pid then none else s.child q := by
  unfold State.child State.reap
  rw [List.find?_filter]
  split
  · rename_i h
    subst h
    rw [List.find?_eq_none]
    intro c _
    simp
  · rename_i h
    congr 1
    funext c
    by_cases hc : c.pid = q
    · simp [hc, h]
    · simp [hc]

@[simp] theorem child_deliver (signal : Signal) : (s.deliver signal).child q = s.child q := by
  unfold State.deliver
  split <;> rfl

/-- An exit concerns one child. -/
theorem child_exit (status : Nat) :
    (s.exit pid status).child q =
      if q = pid then (s.child q).map fun c => { c with status := some status } else s.child q := by
  unfold State.exit
  rw [child_deliver]
  unfold State.child
  dsimp only
  rw [List.find?_map]
  -- an exit changes no process ID
  have hpid : ((fun c : Child => c.pid == q) ∘
      fun c : Child => if (c.pid == pid) = true then { c with status := some status } else c) =
      fun c => c.pid == q := by
    funext c
    dsimp only [Function.comp]
    split <;> rfl
  rw [hpid]
  cases hfind : s.children.find? (fun c => c.pid == q) with
  | none => simp
  | some c =>
    have hq : c.pid = q := by simpa using List.find?_some hfind
    by_cases h : q = pid
    · simp [hq, h]
    · simp [hq, h]

/-- The inner loop ends when no child is a zombie. -/
theorem zombie_eq_none (h : s.children.all (·.status.isNone) = true) : s.zombie q = none := by
  unfold State.zombie State.child
  cases hfind : s.children.find? (·.pid == q) with
  | none => rfl
  | some c =>
    have hc := List.all_eq_true.mp h c (List.mem_of_find?_eq_some hfind)
    simpa using hc

end Children

/-! ## Signals -/

section Deliver

variable (s : State) (signal : Signal)

@[simp] theorem position_deliver : (s.deliver signal).position = s.position := by
  unfold State.deliver
  split <;> rfl

@[simp] theorem workload_deliver : (s.deliver signal).workload = s.workload := by
  unfold State.deliver
  split <;> rfl

@[simp] theorem workloadStatus_deliver : (s.deliver signal).workloadStatus = s.workloadStatus := by
  unfold State.deliver
  split <;> rfl

@[simp] theorem workloadExited_deliver : (s.deliver signal).workloadExited = s.workloadExited := by
  unfold State.deliver
  split <;> rfl

@[simp] theorem ending_deliver : (s.deliver signal).ending = s.ending := by
  unfold State.deliver
  split <;> rfl

@[simp] theorem failed_deliver : (s.deliver signal).failed = s.failed := by
  unfold State.deliver
  split <;> rfl

theorem mem_pending_deliver {x : Signal} (h : x ∈ s.pending) : x ∈ (s.deliver signal).pending := by
  unfold State.deliver
  split
  · exact List.mem_insert_of_mem h
  · exact h

/-- Once the signals are blocked, `SIGCHLD` is pending behind every exit. -/
theorem sigchld_mem_deliver (h : s.position ≠ .blocking) :
    sigchld ∈ (s.deliver sigchld).pending := by
  rw [State.deliver, if_pos ⟨h, by decide⟩]
  exact List.mem_insert_self

end Deliver

/-! ## The invariant -/

/-- The workload is running, or a zombie that the loop is bound to find. -/
inductive Watched (s : State) (pid : Nat) : Prop where
  | running (child : s.child pid = some { pid }) (ending : s.ending = none)
  | zombie (e : Ending) (child : s.child pid = some { pid, status := some e.status })
      (ending : s.ending = some e) (found : sigchld ∈ s.pending ∨ s.position = .reaping)

/-- The workload is reaped, and its status is stored. -/
structure Stored (s : State) (pid : Nat) (e : Ending) : Prop where
  workload : s.workload = some pid
  child : s.child pid = none
  ending : s.ending = some e
  status : s.workloadStatus = e.status

/-- What holds between the calls of `supervise`. -/
structure Inv (s : State) : Prop where
  /-- There is a workload from the fork on. -/
  unborn : s.workload = none → s.ending = none ∧ s.workloadExited = false ∧
    (s.position = .blocking ∨ s.position = .forking ∨ s.position = .returned 125)
  born : s.workload ≠ none → s.position ≠ .blocking ∧ s.position ≠ .forking
  watched : ∀ pid, s.workload = some pid → s.workloadExited = false → Watched s pid
  stored : s.workloadExited = true → ∃ pid e, Stored s pid e
  left : s.position = .killing ∨ s.position = .draining → s.workloadExited = true
  aborting : s.position = .aborting → s.failed = true
  returned : ∀ v, s.position = .returned v →
    (s.workloadExited = true ∧ v = exitValue s.workloadStatus) ∨ (s.failed = true ∧ v = 125)

variable {s s' : State}

theorem inv_start (children : List Child) : Inv { children } where
  unborn _ := ⟨rfl, rfl, .inl rfl⟩
  born h := absurd rfl h
  watched _ h := nomatch h
  stored h := nomatch h
  left h := by simp at h
  aborting h := nomatch h
  returned _ h := nomatch h

/-- A call that only moves on, out of the inner loop when there is no zombie left. -/
theorem Inv.move (h : Inv s) {p : Position} {failed : Bool} (hborn : s.workload ≠ none)
    (hp : p ≠ .blocking ∧ p ≠ .forking)
    (hreaping : s.position = .reaping → s.children.all (·.status.isNone) = true)
    (hleft : p = .killing ∨ p = .draining → s.workloadExited = true)
    (haborting : p = .aborting → failed = true)
    (hreturned : ∀ v, p = .returned v →
      (s.workloadExited = true ∧ v = exitValue s.workloadStatus) ∨ (failed = true ∧ v = 125)) :
    Inv { s with position := p, failed } where
  unborn hnone := absurd hnone hborn
  born _ := hp
  watched pid hpid hexited := by
    rcases h.watched pid hpid hexited with ⟨hchild, hending⟩ | ⟨e, hchild, hending, hfound⟩
    · exact .running hchild hending
    · refine .zombie e hchild hending (.inl (hfound.resolve_right fun hpos => ?_))
      have hnone := zombie_eq_none s pid (hreaping hpos)
      simp [State.zombie, hchild] at hnone
  stored hexited := by
    obtain ⟨pid, e, hstored⟩ := h.stored hexited
    exact ⟨pid, e, hstored.1, hstored.2, hstored.3, hstored.4⟩
  left := hleft
  aborting := haborting
  returned := hreturned

/-- A signal takes nothing away. -/
theorem Inv.deliver (h : Inv s) (signal : Signal) : Inv (s.deliver signal) where
  unborn := by simpa using h.unborn
  born := by simpa using h.born
  watched pid hpid hexited := by
    rw [workload_deliver] at hpid
    rw [workloadExited_deliver] at hexited
    rcases h.watched pid hpid hexited with ⟨hchild, hending⟩ | ⟨e, hchild, hending, hfound⟩
    · exact .running (by simpa using hchild) (by simpa using hending)
    · refine .zombie e (by simpa using hchild) (by simpa using hending) ?_
      rw [position_deliver]
      exact hfound.imp_left (mem_pending_deliver s signal)
  stored hexited := by
    rw [workloadExited_deliver] at hexited
    obtain ⟨pid, e, hstored⟩ := h.stored hexited
    exact ⟨pid, e, by simpa using hstored.1, by simpa using hstored.2, by simpa using hstored.3,
      by simpa using hstored.4⟩
  left := by simpa using h.left
  aborting := by simpa using h.aborting
  returned := by simpa using h.returned

/-- Changes among the other children do not concern the workload. -/
theorem Inv.others (h : Inv s) {children : List Child}
    (hsame : ∀ pid, s.workload = some pid →
      ({ s with children } : State).child pid = s.child pid) :
    Inv { s with children } where
  unborn := h.unborn
  born := h.born
  watched pid hpid hexited := by
    rcases h.watched pid hpid hexited with ⟨hchild, hending⟩ | ⟨e, hchild, hending, hfound⟩
    · exact .running ((hsame pid hpid).trans hchild) hending
    · exact .zombie e ((hsame pid hpid).trans hchild) hending hfound
  stored hexited := by
    obtain ⟨pid, e, hstored⟩ := h.stored hexited
    exact ⟨pid, e, hstored.1, (hsame pid hstored.1).trans hstored.2, hstored.3, hstored.4⟩
  left := h.left
  aborting := h.aborting
  returned := h.returned

/-- The exit of the workload, which the pending `SIGCHLD` announces. -/
theorem Inv.workloadExits (h : Inv s) {pid : Nat} (hpid : s.workload = some pid)
    (hruns : s.child pid = some { pid }) (e : Ending) :
    Inv { s.exit pid e.status with ending := some e } := by
  have hborn : s.workload ≠ none := by
    rw [hpid]
    exact Option.some_ne_none pid
  -- a workload that is reaped is no child any more
  have hnot : s.workloadExited = false := by
    rw [Bool.eq_false_iff]
    intro hexited
    obtain ⟨pid', e', hstored⟩ := h.stored hexited
    obtain rfl : pid' = pid := Option.some.inj (hstored.workload.symm.trans hpid)
    rw [hstored.child] at hruns
    cases hruns
  have hchild : (s.exit pid e.status).child pid = some { pid, status := some e.status } := by
    rw [child_exit, if_pos rfl, hruns]
    rfl
  have hwl : (s.exit pid e.status).workload = s.workload := workload_deliver _ _
  have hex : (s.exit pid e.status).workloadExited = false :=
    (workloadExited_deliver _ _).trans hnot
  have hpos : (s.exit pid e.status).position = s.position := position_deliver _ _
  refine ⟨fun hnone => absurd (hwl.symm.trans hnone) hborn, fun _ => ?_, ?_, fun hexited => ?_, ?_,
    ?_, ?_⟩
  · show (s.exit pid e.status).position ≠ .blocking ∧ (s.exit pid e.status).position ≠ .forking
    rw [hpos]
    exact h.born hborn
  · intro pid' hpid' _
    obtain rfl : pid' = pid := Option.some.inj ((hwl.symm.trans hpid').symm.trans hpid)
    exact .zombie e hchild rfl (.inl (sigchld_mem_deliver _ (h.born hborn).1))
  · exact absurd (hex.symm.trans hexited) (by decide)
  · intro hleft
    have hleft' : s.position = .killing ∨ s.position = .draining := by
      rw [← hpos]
      exact hleft
    rw [h.left hleft'] at hnot
    cases hnot
  · intro haborting
    have hfailed := h.aborting (hpos.symm.trans haborting)
    exact (failed_deliver _ _).trans hfailed
  · intro v hv
    rcases h.returned v (hpos.symm.trans hv) with ⟨hexited, -⟩ | ⟨hfailed, rfl⟩
    · rw [hexited] at hnot
      cases hnot
    · exact .inr ⟨(failed_deliver _ _).trans hfailed, rfl⟩

/-- `waitpid` takes another child than the workload. -/
theorem Inv.reap (h : Inv s) {pid : Nat} (hpid : s.workload ≠ some pid) : Inv (s.reap pid) := by
  refine h.others fun q hq => ?_
  show (s.reap pid).child q = s.child q
  rw [child_reap, if_neg]
  rintro rfl
  exact hpid hq

/-- `waitpid` takes the workload in the inner loop. -/
theorem Inv.reapWorkload (h : Inv s) (hposition : s.position = .reaping) {pid status : Nat}
    (hpid : s.workload = some pid) (hzombie : s.zombie pid = some status) :
    Inv { s.reap pid with workloadStatus := status, workloadExited := true } := by
  obtain ⟨c, hchild, hstatus⟩ := Option.bind_eq_some_iff.mp hzombie
  have hborn : s.workload ≠ none := by
    rw [hpid]
    exact Option.some_ne_none pid
  -- a zombie is not reaped yet, so its status is the one of the workload's end
  have hstored : ∃ e, s.ending = some e ∧ status = e.status := by
    cases hexited : s.workloadExited with
    | true =>
      obtain ⟨pid', e, hs⟩ := h.stored hexited
      obtain rfl : pid' = pid := Option.some.inj (hs.workload.symm.trans hpid)
      rw [hs.child] at hchild
      cases hchild
    | false =>
      rcases h.watched pid hpid hexited with ⟨hrunning, -⟩ | ⟨e, hdead, hending, -⟩
      · rw [hrunning] at hchild
        cases hchild
        cases hstatus
      · rw [hdead] at hchild
        cases hchild
        exact ⟨e, hending, (Option.some.inj hstatus).symm⟩
  obtain ⟨e, hending, rfl⟩ := hstored
  have hreaped : (s.reap pid).child pid = none := by rw [child_reap, if_pos rfl]
  have hne : ∀ p, p ≠ .reaping → s.position ≠ p := fun p hp heq => hp (heq.symm.trans hposition)
  exact
    { unborn := fun hnone => absurd hnone hborn
      born := fun _ => ⟨hne _ (by decide), hne _ (by decide)⟩
      watched := fun _ _ hexited => nomatch hexited
      stored := fun _ => ⟨pid, e, hpid, hreaped, hending, rfl⟩
      left := fun _ => rfl
      aborting := fun heq => absurd heq (hne _ (by decide))
      returned := fun v heq => absurd heq (hne _ nofun) }

/-! ## Steps -/

/-- Outside the start of the function there is a workload. -/
theorem Inv.workload_ne_none (h : Inv s) {p : Position} (hposition : s.position = p)
    (hp : p ≠ .blocking ∧ p ≠ .forking ∧ p ≠ .returned 125) : s.workload ≠ none := by
  intro hnone
  rcases (h.unborn hnone).2.2 with heq | heq | heq
  · exact hp.1 (hposition.symm.trans heq)
  · exact hp.2.1 (hposition.symm.trans heq)
  · exact hp.2.2 (hposition.symm.trans heq)

/-- A failed call in front of the fork. -/
theorem Inv.refused (h : Inv s) (hnone : s.workload = none) :
    Inv { s with position := .returned 125, failed := true } where
  unborn _ := ⟨(h.unborn hnone).1, (h.unborn hnone).2.1, .inr (.inr rfl)⟩
  born hborn := absurd hnone hborn
  watched _ hpid := by simp [hnone] at hpid
  stored hexited := absurd ((h.unborn hnone).2.1.symm.trans hexited) (by decide)
  left hpos := by simp at hpos
  aborting _ := rfl
  returned v hv := .inr ⟨rfl, by simpa [eq_comm] using hv⟩

/-- The fork. -/
theorem Inv.forked (h : Inv s) (hposition : s.position = .forking) (pid : Nat) :
    Inv { s with
      position := .waiting, workload := some pid, children := { pid } :: s.children } := by
  have hnone : s.workload = none := by
    by_contra hborn
    exact (h.born hborn).2 hposition
  obtain ⟨hending, hexited, -⟩ := h.unborn hnone
  exact
    { unborn := fun hnot => nomatch hnot
      born := fun _ => ⟨nofun, nofun⟩
      watched := fun q hq _ => by
        cases hq
        refine .running ?_ hending
        exact (child_cons s pid { pid }).trans (if_pos rfl)
      stored := fun hnot => absurd (hexited.symm.trans hnot) (by decide)
      left := fun hpos => by simp at hpos
      aborting := nofun
      returned := nofun }

/-- `sigwaitinfo` takes a signal; with a `SIGCHLD` the inner loop begins. -/
theorem Inv.received (h : Inv s) (hposition : s.position = .waiting) (received : Signal) :
    Inv { s with
      pending := s.pending.filter (· ≠ received)
      position := if received = sigchld then .reaping else .forwarding received } := by
  have hborn := h.workload_ne_none hposition ⟨nofun, nofun, nofun⟩
  have hpos : ∀ p, (∀ r, p ≠ .forwarding r) → p ≠ .reaping →
      (if received = sigchld then Position.reaping else .forwarding received) ≠ p := by
    intro p hforwarding hreaping
    split
    · exact hreaping.symm
    · exact (hforwarding received).symm
  exact
    { unborn := fun hnone => absurd hnone hborn
      born := fun _ => ⟨hpos _ nofun nofun, hpos _ nofun nofun⟩
      watched := fun pid hpid hexited => by
        rcases h.watched pid hpid hexited with ⟨hchild, hending⟩ | ⟨e, hchild, hending, hfound⟩
        · exact .running hchild hending
        · refine .zombie e hchild hending ?_
          -- either the announcement is the signal taken, or it is still pending
          by_cases hsigchld : received = sigchld
          · exact .inr (if_pos hsigchld)
          · have hmem := hfound.resolve_right (by rw [hposition]; nofun)
            exact .inl (List.mem_filter.mpr ⟨hmem, by simpa using Ne.symm hsigchld⟩)
      stored := fun hexited => by
        obtain ⟨pid, e, hs⟩ := h.stored hexited
        exact ⟨pid, e, hs.1, hs.2, hs.3, hs.4⟩
      left := fun heq => by
        rcases heq with heq | heq
        · exact absurd heq (hpos _ nofun nofun)
        · exact absurd heq (hpos _ nofun nofun)
      aborting := fun heq => absurd heq (hpos _ nofun nofun)
      returned := fun v heq => absurd heq (hpos _ nofun nofun) }

/-- Every call of `supervise` keeps the invariant. -/
theorem Inv.superviseNext (h : Inv s) {answer : Answer} (hs : superviseNext answer s = some s') :
    Inv s' := by
  unfold Supervise.superviseNext at hs
  cases hposition : s.position with
  | blocking =>
    rw [hposition] at hs
    have hnone : s.workload = none := by
      by_contra hborn
      exact (h.born hborn).1 hposition
    dsimp only at hs
    split at hs
    · exact Option.some.inj hs ▸ h.refused hnone
    · cases hs
      exact
        { unborn := fun _ => ⟨(h.unborn hnone).1, (h.unborn hnone).2.1, .inr (.inl rfl)⟩
          born := fun hborn => absurd hnone hborn
          watched := fun _ hpid => by simp [hnone] at hpid
          stored := fun hexited => absurd ((h.unborn hnone).2.1.symm.trans hexited) (by decide)
          left := fun hpos => by simp at hpos
          aborting := nofun
          returned := nofun }
  | forking =>
    rw [hposition] at hs
    have hnone : s.workload = none := by
      by_contra hborn
      exact (h.born hborn).2 hposition
    dsimp only at hs
    split at hs
    · exact Option.some.inj hs ▸ h.refused hnone
    · split at hs
      · cases hs
      · exact Option.some.inj hs ▸ h.forked hposition answer.pid
  | waiting =>
    rw [hposition] at hs
    have hborn := h.workload_ne_none hposition ⟨nofun, nofun, nofun⟩
    dsimp only at hs
    split at hs
    · cases hs
      exact h.move hborn ⟨nofun, nofun⟩ (by simp [hposition]) (by simp) (fun _ => rfl) nofun
    · split at hs
      · exact Option.some.inj hs ▸ h
      · split at hs
        · exact Option.some.inj hs ▸ h.received hposition _
        · cases hs
  | reaping =>
    rw [hposition] at hs
    have hborn := h.workload_ne_none hposition ⟨nofun, nofun, nofun⟩
    dsimp only at hs
    split at hs
    · rename_i hall
      cases hs
      split
      · rename_i hexited
        exact h.move hborn ⟨nofun, nofun⟩ (fun _ => hall) (fun _ => hexited) nofun nofun
      · exact h.move hborn ⟨nofun, nofun⟩ (fun _ => hall) (by simp) nofun nofun
    · split at hs
      · cases hs
      · rename_i hzombie
        split at hs
        · rename_i hpid
          exact Option.some.inj hs ▸ h.reapWorkload hposition hpid hzombie
        · rename_i hpid
          exact Option.some.inj hs ▸ h.reap hpid
  | forwarding received =>
    rw [hposition] at hs
    cases hs
    have hborn := h.workload_ne_none hposition ⟨nofun, nofun, nofun⟩
    exact h.move hborn ⟨nofun, nofun⟩ (by simp [hposition]) (by simp) nofun nofun
  | aborting =>
    rw [hposition] at hs
    cases hs
    have hborn := h.workload_ne_none hposition ⟨nofun, nofun, nofun⟩
    refine h.move hborn ⟨nofun, nofun⟩ (by simp [hposition]) (by simp) nofun fun v hv => ?_
    exact .inr ⟨h.aborting hposition, by simpa [eq_comm] using hv⟩
  | killing =>
    rw [hposition] at hs
    cases hs
    have hborn := h.workload_ne_none hposition ⟨nofun, nofun, nofun⟩
    exact h.move hborn ⟨nofun, nofun⟩ (by simp [hposition]) (fun _ => h.left (.inl hposition))
      nofun nofun
  | draining =>
    rw [hposition] at hs
    have hborn := h.workload_ne_none hposition ⟨nofun, nofun, nofun⟩
    have hexited := h.left (.inr hposition)
    dsimp only at hs
    split at hs
    · cases hs
      refine h.move hborn ⟨nofun, nofun⟩ (by simp [hposition]) (by simp) nofun fun v hv => ?_
      exact .inl ⟨hexited, by simpa [eq_comm] using hv⟩
    · split at hs
      · cases hs
      · rename_i hzombie
        cases hs
        refine h.reap fun hpid => ?_
        -- the workload has been reaped before
        obtain ⟨pid, e, hstored⟩ := h.stored hexited
        obtain rfl := Option.some.inj (hstored.workload.symm.trans hpid)
        simp [State.zombie, hstored.child] at hzombie
  | returned v =>
    rw [hposition] at hs
    cases hs

/-- Every step keeps the invariant. -/
theorem Inv.next (h : Inv s) {e : Event} (hs : next e s = some s') : Inv s' := by
  cases e with
  | supervise answer => exact h.superviseNext hs
  | workloadExits ending =>
    simp only [Supervise.next] at hs
    split at hs
    · cases hs
    · rename_i pid hpid
      split at hs
      · rename_i hruns
        exact Option.some.inj hs ▸ h.workloadExits hpid (eq_of_beq hruns) ending
      · cases hs
  | adopted pid =>
    simp only [Supervise.next] at hs
    split at hs
    · cases hs
    · rename_i hfresh
      simp only [not_or] at hfresh
      cases hs
      refine h.others fun q hq => ?_
      rw [child_cons, if_neg]
      rintro rfl
      exact hfresh.2.2 hq
  | orphanExits pid ending =>
    simp only [Supervise.next] at hs
    split at hs
    · rename_i hruns
      cases hs
      refine Inv.deliver (h.others fun q hq => ?_) sigchld
      have hne : q ≠ pid := by
        rintro rfl
        exact hruns.2 hq
      have hchild := child_exit s pid q ending.status
      rw [if_neg hne] at hchild
      rw [← hchild]
      exact (child_deliver _ _ _).symm
    · cases hs
  | signal number => exact Option.some.inj hs ▸ h.deliver number

/-- The invariant holds in every reachable state. -/
theorem inv_of_reached (h : Reached s) : Inv s := by
  induction h with
  | start children => exact inv_start children
  | step _ hnext ih => exact ih.next hnext

/-! ## The init of the signal model -/

/-- Where the signal model has the init. -/
def State.init (s : State) : Signals.Init :=
  match s.position with
  | .blocking => .announced
  | .forking => .blocked
  | .waiting => .waiting
  | .reaping => .reaping s.workloadExited
  | .forwarding received => .forwarding received
  | .aborting | .killing | .draining => .leaving
  | .returned _ => .gone

/-- The signal model is in the same place. Behind the loop the workload does not matter. -/
structure Describes (x : Signals.State) (s : State) : Prop where
  init : x.init = s.init
  pending : x.pending = s.pending
  looping : s.init = .leaving ∨ s.init = .gone ∨
    ((x.workload = .zombie ↔ ∃ pid, s.workload = some pid ∧ s.zombie pid ≠ none) ∧
      (s.workloadExited = true → s.position = .reaping))

/-- Inside the loop. -/
theorem Describes.running {x : Signals.State} (hinit : x.init = s.init)
    (hpending : x.pending = s.pending)
    (hlooping : (x.workload = .zombie ↔ ∃ pid, s.workload = some pid ∧ s.zombie pid ≠ none) ∧
      ¬ s.workloadExited = true) : Describes x s :=
  ⟨hinit, hpending, .inr (.inr ⟨hlooping.1, fun h => absurd h hlooping.2⟩)⟩

/-- In every state that `supervise` can reach, the workload is running, or a zombie while a
    `SIGCHLD` is pending or the inner loop is active, or `workload_exited` is set. A call that
    returns returns the exit status of the workload itself or 128 and its signal, unless a
    system call has failed; then it returns 125. -/
theorem supervise_exit (h : Reached s) :
    (∀ pid, s.workload = some pid →
      (s.child pid = some { pid } ∧ s.ending = none) ∨
      (∃ e, s.child pid = some { pid, status := some e.status } ∧ s.ending = some e ∧
        (sigchld ∈ s.pending ∨ s.position = .reaping)) ∨
      s.workloadExited = true) ∧
    ∀ v, s.position = .returned v →
      (∃ e, s.ending = some e ∧ v = e.value) ∨ (s.failed = true ∧ v = 125) := by
  have hi := inv_of_reached h
  constructor
  · intro pid hpid
    cases hexited : s.workloadExited with
    | true => exact .inr (.inr rfl)
    | false =>
      rcases hi.watched pid hpid hexited with ⟨hchild, hending⟩ | ⟨e, hchild, hending, hfound⟩
      · exact .inl ⟨hchild, hending⟩
      · exact .inr (.inl ⟨e, hchild, hending, hfound⟩)
  · intro v hv
    rcases hi.returned v hv with ⟨hexited, rfl⟩ | hfailed
    · obtain ⟨pid, e, hstored⟩ := hi.stored hexited
      exact .inl ⟨e, hstored.ending, by rw [hstored.status, exitValue_status]⟩
    · exact .inr hfailed

/-- Run a whole schedule. -/
def run (es : List Event) (s : State) : Option State := es.foldlM (fun s e => next e s) s

/-- A schedule that runs ends in a reachable state. -/
theorem reached_of_run {es : List Event} (hs : Reached s) (h : run es s = some s') :
    Reached s' := by
  induction es generalizing s with
  | nil => exact Option.some.inj h ▸ hs
  | cons e es ih =>
    obtain ⟨s₁, hnext, hrun⟩ := Option.bind_eq_some_iff.mp h
    exact ih (hs.step hnext) hrun

/-- The workload exits with 3 and an orphan with 7 while one `SIGCHLD` is pending, and the
    orphan is reaped last. -/
def coalesced : List Event :=
  [.supervise {}, .supervise { pid := 2 }, .adopted 9, .workloadExits (.exited 3),
    .orphanExits 9 (.exited 7), .supervise { received := some sigchld }, .supervise { pid := 2 },
    .supervise { pid := 9 }, .supervise {}, .supervise {}, .supervise {}]

/-- The value is the one of the workload. -/
theorem supervise_exit_coalesced :
    ∃ s, Reached s ∧ s.position = .returned 3 ∧
      ((∃ e, s.ending = some e ∧ 3 = e.value) ∨ (s.failed = true ∧ 3 = 125)) := by
  have hrun : (run coalesced {}).any (·.position == .returned 3) = true := by decide +kernel
  cases hs : run coalesced {} with
  | none => simp [hs] at hrun
  | some s =>
    have hreached := reached_of_run (.start []) hs
    have hreturned : s.position = .returned 3 := by simpa [hs] using hrun
    exact ⟨s, hreached, hreturned, (supervise_exit hreached).2 3 hreturned⟩

end MiniContainer.Supervise
