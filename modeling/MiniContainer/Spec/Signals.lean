import MiniContainer.Native.Signals

/-!
# Acknowledged signals

The shim answers `ok: true` once it has signalled the init. From there the signal is on its
way: pending at the init, in the hands of the init, or sent to the workload's process group.

It gets lost in two places of the start-up, and when `sigwaitinfo` fails. The init announces
that it is ready before it blocks its signals, so one that comes in between is dropped; and
it waits for signals before the workload has called `setsid`, so there may be no process
group to forward one to. `acknowledged_kept` says that nothing else loses a signal.
-/

namespace MiniContainer.Signals

/-! ## Runs -/

/-- The states reachable by events that all satisfy `ok`. -/
inductive Reached (ok : State → Event → Prop) : State → Prop where
  | start (cgroupActive : Bool) : Reached ok { cgroupActive }
  | step {s s' : State} {e : Event} :
      Reached ok s → ok s e → next e s = some s' → Reached ok s'

/-- Run a whole schedule as long as its events pass a test. -/
def runWhile (test : State → Event → Bool) : List Event → State → Option State
  | [], s => some s
  | e :: es, s => if test s e then (next e s).bind (runWhile test es) else none

/-- A schedule whose events pass the test. -/
theorem reached_of_runWhile {test : State → Event → Bool} {es : List Event} {s s' : State}
    (hs : Reached (fun s e => test s e = true) s) (h : runWhile test es s = some s') :
    Reached (fun s e => test s e = true) s' := by
  induction es generalizing s with
  | nil => exact Option.some.inj h ▸ hs
  | cons e es ih =>
    rw [runWhile] at h
    split at h
    · rename_i hok
      obtain ⟨s₁, hnext, hrun⟩ := Option.bind_eq_some_iff.mp h
      exact ih (hs.step hok hnext) hrun
    · exact nomatch h

/-- A schedule whose events pass a test and whose last state passes another one. -/
theorem exists_reached_of_runWhile {test : State → Event → Bool} {es : List Event}
    {last : State → Bool} (h : (runWhile test es {}).any last = true) :
    ∃ s, Reached (fun s e => test s e = true) s ∧ last s = true := by
  cases hs : runWhile test es {} with
  | none => simp [hs] at h
  | some s => exact ⟨s, reached_of_runWhile (.start true) hs, by simpa [hs] using h⟩

theorem Reached.mono {ok ok' : State → Event → Prop} {s : State} (h : Reached ok s)
    (hok : ∀ s e, ok s e → ok' s e) : Reached ok' s := by
  induction h with
  | start cgroupActive => exact .start cgroupActive
  | step _ ho hnext ih => exact ih.step (hok _ _ ho) hnext

/-! ## Where a signal is -/

/-- The signal has been sent to a process group with the workload in it, or the init will
    still forward it, or the workload has exited. -/
def Kept (s : State) (r : Sent) : Prop :=
  r.arrived = true ∨ (r.signal ∈ s.pending ∧ s.init ≠ .leaving) ∨ s.init = .forwarding r.signal ∨
    s.isOver = true

/-- The events that lose no signal: the shim signals an init that blocks its signals, the init
    forwards to a workload that has its process group, and `sigwaitinfo` is at most
    interrupted. -/
def timely (s : State) : Event → Bool
  | .init answer =>
    match s.init with
    | .waiting => !answer.fault
    | .forwarding _ => s.workload = .session || s.isOver
    | _ => true
  | .shim answer =>
    match s.shim with
    | .handling r => answer.fault || s.masked || s.isOver ||
        !(r.signal.any (·.any fun number => forwardedSignals.contains number.toNat))
    | _ => true
  | _ => true

/-! ## The invariant -/

/-- The signals that were sent are kept. -/
structure Inv (s : State) : Prop where
  kept : ∀ r ∈ s.sent, r.signal ∈ forwardedSignals → Kept s r
  /-- There is no workload before the fork. -/
  unborn : s.init = .settingUp ∨ s.init = .announced ∨ s.init = .blocked → s.workload = .unborn
  reaped : s.init = .reaping true → s.workload = .reaped
  left : s.init = .leaving → s.isOver = true

variable {s s' : State} {answer : Answer}

theorem inv_start (cgroupActive : Bool) : Inv { cgroupActive } where
  kept _ hr := nomatch hr
  unborn _ := rfl
  reaped h := nomatch h
  left h := nomatch h

/-- Nothing is to be shown behind the end of the workload and the init. -/
theorem inv_endNamespace (s : State) (shim : Shim) (sent : List Sent) :
    Inv { s.endNamespace with shim, sent } where
  kept _ _ _ := .inr (.inr (.inr (by simp [State.isOver, State.endNamespace])))
  unborn h := by simp [State.endNamespace] at h
  reaped h := by simp [State.endNamespace] at h
  left h := by simp [State.endNamespace] at h

/-- The init stays where it is, and at most more signals get pending. -/
theorem Kept.grow {r : Sent} (h : Kept s r) (hinit : s'.init = s.init)
    (hpending : ∀ x ∈ s.pending, x ∈ s'.pending) (hover : s.isOver = true → s'.isOver = true) :
    Kept s' r := by
  rcases h with h | ⟨h, hleaving⟩ | h | h
  · exact .inl h
  · exact .inr (.inl ⟨hpending _ h, hinit ▸ hleaving⟩)
  · exact .inr (.inr (.inl (hinit.trans h)))
  · exact .inr (.inr (.inr (hover h)))

/-- What the shim does beside signalling concerns no signal. -/
theorem Inv.shim (h : Inv s) (shim : Shim) : Inv { s with shim } :=
  ⟨h.kept, h.unborn, h.reaped, h.left⟩

section Deliver

variable (s) (signal : Signal)

@[simp] theorem init_deliver : (s.deliver signal).init = s.init := by
  unfold State.deliver
  split <;> rfl

@[simp] theorem workload_deliver : (s.deliver signal).workload = s.workload := by
  unfold State.deliver
  split <;> rfl

@[simp] theorem sent_deliver : (s.deliver signal).sent = s.sent := by
  unfold State.deliver
  split <;> rfl

theorem pending_deliver {x : Signal} (h : x ∈ s.pending) : x ∈ (s.deliver signal).pending := by
  unfold State.deliver
  split
  · exact List.mem_insert_of_mem h
  · exact h

end Deliver

/-- A signal for the init. -/
theorem Inv.deliver (h : Inv s) (signal : Signal) : Inv (s.deliver signal) where
  kept r hr hsignal := by
    rw [sent_deliver] at hr
    exact (h.kept r hr hsignal).grow (init_deliver s signal) (fun x => pending_deliver s signal)
      (by simp [State.isOver])
  unborn := by simpa using h.unborn
  reaped := by simpa using h.reaped
  left := by simpa [State.isOver] using h.left

/-! ## The init -/

/-- The init goes on without forwarding anything. -/
theorem Kept.advance {r : Sent} (h : Kept s r) (hinit : s.init ≠ .forwarding r.signal)
    (hinit' : s'.init ≠ .leaving) (hpending : r.signal ∈ s.pending → r.signal ∈ s'.pending)
    (hover : s.isOver = true → s'.isOver = true) : Kept s' r := by
  rcases h with h | ⟨h, -⟩ | h | h
  · exact .inl h
  · exact .inr (.inl ⟨hpending h, hinit'⟩)
  · exact absurd h hinit
  · exact .inr (.inr (.inr (hover h)))

/-- Before the fork nothing is over. -/
theorem Inv.not_over (h : Inv s)
    (hinit : s.init = .settingUp ∨ s.init = .announced ∨ s.init = .blocked) : s.isOver ≠ true := by
  have hworkload := h.unborn hinit
  rcases hinit with hinit | hinit | hinit <;> simp [State.isOver, hinit, hworkload]

/-- `sigwaitinfo` takes a pending signal. -/
theorem Inv.take (h : Inv s) (hinit : s.init = .waiting) {received : Signal} :
    Inv { s with
      pending := s.pending.filter (· ≠ received)
      init := if received = sigchld then .reaping false else .forwarding received } where
  kept r hr hsignal := by
    have hkept := h.kept r hr hsignal
    by_cases heq : received = r.signal
    · -- it is not `SIGCHLD`, so it is forwarded next
      have hne : received ≠ sigchld := by
        rintro rfl
        exact absurd (heq ▸ hsignal) (by decide)
      exact .inr (.inr (.inl (by rw [if_neg hne, heq])))
    · refine hkept.advance (by simp [hinit]) ?_ (fun hmem => ?_) (fun hover => ?_)
      · dsimp only
        split <;> exact fun hne => nomatch hne
      · exact List.mem_filter.mpr ⟨hmem, by simpa using Ne.symm heq⟩
      · have hworkload : s.workload = .zombie ∨ s.workload = .reaped := by
          simpa [State.isOver, hinit] using hover
        simp [State.isOver, hworkload, or_assoc]
  unborn := by
    dsimp only
    split <;> simp
  reaped := by
    dsimp only
    split <;> simp
  left := by
    dsimp only
    split <;> simp

/-- The process group gets the signal. -/
theorem sent_killGroup (hworkload : s.workload = .session) (received : Signal) :
    (s.killGroup received).sent = s.sent.map fun r =>
      if r.signal = received then { r with arrived := true } else r := by
  rw [State.killGroup, if_pos hworkload]

/-- `kill` for a workload that has its process group, or that is gone. -/
theorem Inv.forward (h : Inv s) {received : Signal} (hinit : s.init = .forwarding received)
    (hworkload : s.workload = .session ∨ s.isOver = true) :
    Inv { s.killGroup received with init := .waiting } where
  kept r hr hsignal := by
    by_cases hsession : s.workload = .session
    · have hsame : s.killGroup received = { s with sent := (s.killGroup received).sent } := by
        simp [State.killGroup, hsession]
      rw [hsame, sent_killGroup hsession] at hr ⊢
      obtain ⟨r₀, hr₀, rfl⟩ := List.mem_map.mp hr
      by_cases heq : r₀.signal = received
      · exact .inl (by simp [heq])
      · rw [if_neg heq] at hsignal ⊢
        refine (h.kept r₀ hr₀ hsignal).advance ?_ (fun hne => nomatch hne) id (fun hover => ?_)
        · simpa [hinit] using Ne.symm heq
        · simp [State.isOver, hinit, hsession] at hover
    · have hover := hworkload.resolve_left hsession
      refine .inr (.inr (.inr ?_))
      simp only [State.isOver, State.killGroup, if_neg hsession, hinit] at hover ⊢
      simpa using hover
  unborn h := by simp at h
  reaped h := nomatch h
  left h := nomatch h

/-- A timely call of the init keeps the signals, -/
theorem Inv.initNext (h : Inv s) (htimely : timely s (.init answer) = true)
    (hnext : initNext answer s = some s') : Inv s' := by
  unfold Signals.initNext at hnext
  cases hinit : s.init with
  | settingUp =>
    simp only [hinit] at hnext
    split at hnext <;> cases hnext
    · exact inv_endNamespace s s.shim s.sent
    · refine ⟨fun r hr hsignal => ?_, fun _ => h.unborn (.inl hinit), nofun, nofun⟩
      exact (h.kept r hr hsignal).advance (by simp [hinit]) nofun id
        fun hover => absurd hover (h.not_over (.inl hinit))
  | announced =>
    simp only [hinit] at hnext
    split at hnext <;> cases hnext
    · exact inv_endNamespace s s.shim s.sent
    · refine ⟨fun r hr hsignal => ?_, fun _ => h.unborn (.inr (.inl hinit)), nofun, nofun⟩
      exact (h.kept r hr hsignal).advance (by simp [hinit]) nofun id
        fun hover => absurd hover (h.not_over (.inr (.inl hinit)))
  | blocked =>
    simp only [hinit] at hnext
    split at hnext <;> cases hnext
    · exact inv_endNamespace s s.shim s.sent
    · refine ⟨fun r hr hsignal => ?_, by simp, nofun, nofun⟩
      exact (h.kept r hr hsignal).advance (by simp [hinit]) nofun id
        fun hover => absurd hover (h.not_over (.inr (.inr hinit)))
  | waiting =>
    have hfault : answer.fault = false := by simpa [timely, hinit] using htimely
    simp only [hinit, hfault] at hnext
    cases hreceived : answer.received with
    | none =>
      simp only [hreceived, Bool.false_eq_true, if_false] at hnext
      exact Option.some.inj hnext ▸ h
    | some received =>
      simp only [hreceived, Bool.false_eq_true, if_false] at hnext
      split at hnext
      · exact Option.some.inj hnext ▸ h.take hinit
      · exact nomatch hnext
  | reaping exited =>
    simp only [hinit] at hnext
    split at hnext
    · split at hnext
      · cases hnext
        exact ⟨fun _ _ _ => .inr (.inr (.inr (by simp [State.isOver]))), by simp,
          fun _ => rfl, nofun⟩
      · exact nomatch hnext
    · exact Option.some.inj hnext ▸ h
    · split at hnext
      · exact nomatch hnext
      · cases hnext
        cases exited with
        | true =>
          -- the workload is reaped
          have hover : State.isOver { s with init := .leaving } = true := by
            simp [State.isOver, h.reaped hinit]
          exact ⟨fun _ _ _ => .inr (.inr (.inr hover)), by simp, nofun, fun _ => hover⟩
        | false =>
          refine ⟨fun r hr hsignal => ?_, by simp, nofun, nofun⟩
          refine (h.kept r hr hsignal).advance (by simp [hinit]) nofun id fun hover => ?_
          simp only [State.isOver, hinit] at hover ⊢
          simpa using hover
  | forwarding received =>
    have hworkload : s.workload = .session ∨ s.isOver = true := by
      simpa [timely, hinit] using htimely
    simp only [hinit] at hnext
    exact Option.some.inj hnext ▸ h.forward hinit hworkload
  | leaving =>
    simp only [hinit] at hnext
    cases hnext
    exact inv_endNamespace s s.shim s.sent
  | gone =>
    simp only [hinit] at hnext
    exact nomatch hnext

/-! ## The other processes -/

/-- so does a call of the workload. -/
theorem Inv.workloadNext (h : Inv s) (hnext : workloadNext answer s = some s') : Inv s' := by
  have hborn (hworkload : s.workload ≠ .unborn) :
      ¬(s.init = .settingUp ∨ s.init = .announced ∨ s.init = .blocked) :=
    fun hinit => hworkload (h.unborn hinit)
  have hreaped (hworkload : s.workload ≠ .reaped) : s.init ≠ .reaping true :=
    fun hinit => hworkload (h.reaped hinit)
  -- an exit ends the matter; the calls before it change nothing that counts
  have hexit (hworkload : s.workload ≠ .unborn) (hworkload' : s.workload ≠ .reaped) :
      Inv { s.deliver sigchld with workload := .zombie } :=
    ⟨fun _ _ _ => .inr (.inr (.inr (by simp [State.isOver]))),
      fun hinit => absurd (by simpa using hinit) (hborn hworkload),
      fun hinit => absurd (by simpa using hinit) (hreaped hworkload'),
      fun _ => by simp [State.isOver]⟩
  have hmove {workload : Workload} (hworkload : s.workload = .forked ∨ s.workload = .unmasked) :
      Inv { s with workload } := by
    have hover : s.isOver = true → s.init = .gone := by
      rcases hworkload with hworkload | hworkload <;> simp [State.isOver, hworkload]
    refine ⟨fun r hr hsignal => ?_, fun hinit => ?_, fun hinit => ?_, fun hinit => ?_⟩
    · exact (h.kept r hr hsignal).grow rfl (fun _ => id) fun ho => by simp [State.isOver, hover ho]
    · exact absurd hinit (hborn (by rcases hworkload with hw | hw <;> simp [hw]))
    · exact absurd hinit (hreaped (by rcases hworkload with hw | hw <;> simp [hw]))
    · exact absurd (hover (h.left hinit)) (by simpa using hinit ▸ nofun)
  unfold Signals.workloadNext at hnext
  cases hworkload : s.workload with
  | forked =>
    simp only [hworkload] at hnext
    split at hnext <;> cases hnext
    · exact hexit (by simp [hworkload]) (by simp [hworkload])
    · exact hmove (.inl hworkload)
  | unmasked =>
    simp only [hworkload] at hnext
    split at hnext <;> cases hnext
    · exact hexit (by simp [hworkload]) (by simp [hworkload])
    · exact hmove (.inr hworkload)
  | session =>
    simp only [hworkload] at hnext
    cases hnext
    exact hexit (by simp [hworkload]) (by simp [hworkload])
  | unborn | zombie | reaped =>
    simp only [hworkload] at hnext
    exact nomatch hnext

/-- The shim signals an init that blocks its signals, or a workload that is gone. -/
theorem Inv.send (h : Inv s) (shim : Shim) {signal : Signal}
    (hmasked : signal ∈ forwardedSignals → s.masked = true ∨ s.isOver = true) :
    Inv { s.deliver signal with sent := { signal } :: s.sent, shim } where
  kept r hr hsignal := by
    rcases List.mem_cons.mp hr with rfl | hr
    · rcases hmasked hsignal with hmasked | hover
      · have hsupervised : supervisedSignals.contains signal = true := by
          rw [List.contains_iff_mem]
          exact List.mem_cons_of_mem _ hsignal
        by_cases hleaving : s.init = .leaving
        · refine .inr (.inr (.inr ?_))
          simpa [State.isOver] using h.left hleaving
        · refine .inr (.inl ⟨?_, by simpa using hleaving⟩)
          simp only [State.deliver, hmasked, hsupervised, Bool.and_self, if_true]
          exact List.mem_insert_self
      · exact .inr (.inr (.inr (by simpa [State.isOver] using hover)))
    · exact (h.kept r hr hsignal).grow (init_deliver s signal) (fun x => pending_deliver s signal)
        (by simp [State.isOver])
  unborn := by simpa using h.unborn
  reaped := by simpa using h.reaped
  left := by simpa [State.isOver] using h.left

/-- A reply sends nothing. -/
theorem Inv.acknowledge (h : Inv s) (shim : Shim) :
    Inv { s with sent := acknowledge s.sent, shim } where
  kept r hr hsignal := by
    change r ∈ Signals.acknowledge s.sent at hr
    cases hsent : s.sent with
    | nil =>
      rw [hsent] at hr
      exact nomatch hr
    | cons r₀ rs =>
      rw [hsent] at hr
      rcases List.mem_cons.mp hr with rfl | hr
      · exact h.kept r₀ (by simp [hsent]) hsignal
      · exact h.kept r (by simp [hsent, hr]) hsignal
  unborn := h.unborn
  reaped := h.reaped
  left := h.left

/-- A request is served in time or asks for no forwarded signal. -/
theorem Inv.handleControl (h : Inv s) {r : Request}
    (htimely : answer.fault = true ∨ s.masked = true ∨ s.isOver = true ∨
      ∀ number, r.signal = some (some number) → number.toNat ∉ forwardedSignals) :
    Inv (handleControl answer r s) := by
  unfold Signals.handleControl
  dsimp only
  split
  · exact h.shim _
  split
  · exact h.shim _
  split
  · exact inv_endNamespace s _ s.sent
  · exact h.shim _
  · rename_i number hnumber
    split
    · exact h.shim _
    split
    · split
      · exact h.shim _
      · exact inv_endNamespace s _ _
    · split
      · exact h.shim _
      · rename_i hfault
        refine h.send _ fun hsignal => ?_
        rcases htimely with hf | hmasked | hover | hother
        · exact absurd hf hfault
        · exact .inl hmasked
        · exact .inr hover
        · exact absurd hsignal (hother number hnumber)

/-- A timely call of the shim keeps the signals. -/
theorem Inv.shimNext (h : Inv s) (htimely : timely s (.shim answer) = true)
    (hnext : shimNext answer s = some s') : Inv s' := by
  unfold Signals.shimNext at hnext
  split at hnext
  · split at hnext
    · exact Option.some.inj hnext ▸ h.shim _
    · split at hnext
      · exact Option.some.inj hnext ▸ h.shim _
      · exact nomatch hnext
  iterate 4
    · split at hnext <;> cases hnext
      · exact inv_endNamespace s _ s.sent
      · exact h.shim _
  · split at hnext <;> exact Option.some.inj hnext ▸ h.shim _
  · split at hnext <;> exact Option.some.inj hnext ▸ h.shim _
  · rename_i r hshim
    refine Option.some.inj hnext ▸ h.handleControl ?_
    simp only [timely, hshim, Bool.or_eq_true, or_assoc] at htimely
    refine htimely.imp_right (Or.imp_right (Or.imp_right fun hother number hnumber => ?_))
    simpa [hnumber] using hother
  · split at hnext
    · exact Option.some.inj hnext ▸ h.acknowledge _
    · exact Option.some.inj hnext ▸ h.shim _
  · exact nomatch hnext

/-- Every timely event does. -/
theorem Inv.next (h : Inv s) {e : Event} (htimely : timely s e = true)
    (hnext : next e s = some s') : Inv s' := by
  cases e with
  | init answer => exact h.initNext htimely hnext
  | workload answer => exact h.workloadNext hnext
  | orphan => exact Option.some.inj hnext ▸ h.deliver sigchld
  | shim answer => exact h.shimNext htimely hnext
  | forward signal =>
    simp only [Signals.next, forwardSignal] at hnext
    split at hnext
    iterate 4
      · split at hnext
        · exact Option.some.inj hnext ▸ h.deliver signal
        · exact nomatch hnext
    · exact nomatch hnext

/-! ## Acknowledged signals -/

/-- The invariant of timely runs. -/
theorem inv_of_reached (h : Reached (fun s e => timely s e = true) s) : Inv s := by
  induction h with
  | start cgroupActive => exact inv_start cgroupActive
  | step _ htimely hnext ih => exact ih.next htimely hnext

/-- In every run whose events are timely, an acknowledged signal has been sent to the
    workload's process group, or the init will still forward it, or the workload has exited. -/
theorem acknowledged_kept (hreached : Reached (fun s e => timely s e = true) s) {r : Sent}
    (hr : r ∈ s.sent) (hsignal : r.signal ∈ forwardedSignals) (_hack : r.acknowledged = true) :
    Kept s r := by
  exact (inv_of_reached hreached).kept r hr hsignal

/-- The message with which `stop` asks for `SIGTERM`. -/
def stopRequest : Request where
  root := some (.obj [("version", .int 1), ("operation", .str "signal".toList),
    ("signal", .int sigterm)])

/-- The shim reads the ready byte, opens its socket, records `running`, installs its handlers
    and serves one `SIGTERM`. -/
def servesTerm : List Event :=
  [.shim {}, .shim {}, .shim {}, .shim {}, .shim {}, .shim {},
    .shim { request := some stopRequest }, .shim {}, .shim {}]

/-- The workload is in its session when the `SIGTERM` comes. -/
theorem acknowledged_kept_running : ∃ s, Reached (fun s e => timely s e = true) s ∧
    s.sent = [⟨sigterm, true, false⟩] ∧ Kept s ⟨sigterm, true, false⟩ := by
  have hrun : ((runWhile timely ([.init {}, .init {}, .init {}, .workload {}, .workload {}] ++
      servesTerm) {}).any fun s => s.sent = [⟨sigterm, true, false⟩]) = true := by
    decide +kernel
  obtain ⟨s, hs, hlast⟩ := exists_reached_of_runWhile hrun
  have hsent : s.sent = [⟨sigterm, true, false⟩] := of_decide_eq_true hlast
  exact ⟨s, hs, hsent, acknowledged_kept hs (by simp [hsent]) (by decide) rfl⟩

/-- The shim has sent and acknowledged a `SIGTERM`, and it is lost. -/
def losesTerm (s : State) : Bool :=
  s.sent = [⟨sigterm, true, false⟩] && !s.pending.contains sigterm &&
    s.init ≠ .forwarding sigterm && !s.isOver

/-- A lost signal is not kept. -/
private theorem not_kept_of_losesTerm {s : State} (h : losesTerm s = true) :
    ∃ r ∈ s.sent, r.signal ∈ forwardedSignals ∧ r.acknowledged = true ∧ ¬ Kept s r := by
  simp only [losesTerm, Bool.and_eq_true, decide_eq_true_eq, Bool.not_eq_true',
    List.contains_eq_mem, decide_eq_false_iff_not, ne_eq] at h
  obtain ⟨⟨⟨hsent, hpending⟩, hinit⟩, hover⟩ := h
  refine ⟨⟨sigterm, true, false⟩, by simp [hsent], by decide, rfl, ?_⟩
  rintro (h | ⟨h, -⟩ | h | h)
  · exact nomatch h
  · exact hpending h
  · exact hinit h
  · exact Bool.false_ne_true (hover.symm.trans h)

/-- Sent between the ready byte and `sigprocmask`, the signal is dropped and acknowledged. -/
theorem announced_loses_term : ∃ s, Reached (fun _ _ => True) s ∧
    ∃ r ∈ s.sent, r.signal ∈ forwardedSignals ∧ r.acknowledged = true ∧ ¬ Kept s r := by
  have hrun : (runWhile (fun _ _ => true) (.init {} :: servesTerm) {}).any losesTerm = true := by
    decide +kernel
  obtain ⟨s, hs, hlast⟩ := exists_reached_of_runWhile hrun
  exact ⟨s, hs.mono fun _ _ _ => trivial, not_kept_of_losesTerm hlast⟩

end MiniContainer.Signals
