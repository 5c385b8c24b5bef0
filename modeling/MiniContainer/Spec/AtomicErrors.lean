import MiniContainer.Spec.AtomicWrite

/-!
# Failing and interrupted writers

`mc_write_atomic` removes its temporary file on the error paths up to the rename. A call that
fails behind the rename is reported in the same way, although the new data is in place
(`writeAtomic_error_iff`).

A writer that is interrupted leaves its temporary file, which is created exclusively. So whether
a later call succeeds depends on whether its own temporary name is free
(`writeAtomic_unblocked_iff`).
-/

namespace MiniContainer.AtomicWrite

open CString (Text)
open Function (update update_of_ne update_self)

variable {r : Request} {fs₀ fs : Fs} {s s' : State}

/-! ## Failing calls -/

/-- The function alone, for so many calls or until it returns. -/
def runFor (r : Request) (answers : Nat → Answer) (s : State) : Nat → State
  | 0 => s
  | n + 1 => (next r (answers n) (runFor r answers s n)).getD (runFor r answers s n)

/-- A reader of any path finds what was found before. -/
def Unchanged (fs₀ fs : Fs) : Prop := ∀ path, fs.observe path = fs₀.observe path

/-- The call fails when the new data is in place: it is one of those on the directory, or the
    rename works and its path is too long for the buffer of the directory. -/
def FailsLate (r : Request) (answer : Answer) : Stage → Prop
  | .rename => answer.fault = false ∧ pathMax ≤ r.path.length
  | .openDirectory | .syncDirectory | .closeDirectory => answer.fault = true
  | _ => False

/-- From the rename on, an error is returned where a call fails late. -/
theorem failsLate_of_next {answer : Answer} {e : McError} {stage : Stage}
    (hstage : stage = .rename ∨ stage.Replaced)
    (h : next r answer ⟨fs, stage⟩ = some s') (he : s'.stage = .returned (.error e)) :
    FailsLate r answer stage := by
  unfold next at h
  cases stage with
  | rename =>
    dsimp only at h
    split_ifs at h with hfail hlong
    · exact nomatch (Option.some.inj h ▸ he)
    · exact ⟨by simpa using (not_or.mp hfail).1, hlong⟩
    · exact nomatch (Option.some.inj h ▸ he)
  | openDirectory | syncDirectory | closeDirectory =>
    dsimp only at h
    split_ifs at h with hfault
    · exact hfault
    · exact nomatch (Option.some.inj h ▸ he)
  | _ => exact hstage.elim (fun h => nomatch h) False.elim

/-- The new file stands at the temporary name, and nothing else has changed. -/
structure Staged (r : Request) (fs₀ fs : Fs) : Prop where
  free : fs₀.entries r.temporary = none
  entries : fs.entries = update fs₀.entries r.temporary (some fs₀.nextFile)
  contents : ∀ file, file ≠ fs₀.nextFile → fs.contents file = fs₀.contents file

/-- The new data is at the path, and nothing else has changed. -/
structure Placed (r : Request) (fs₀ fs : Fs) : Prop where
  path : fs.observe r.path = some r.data
  others : ∀ other, other ≠ r.path → fs.observe other = fs₀.observe other

/-- What is known at each stage as long as no call has failed late and `unlink` succeeds. -/
def Intact (r : Request) (fs₀ fs : Fs) : Stage → Prop
  | .create => fs = fs₀
  | .write file written =>
    file = fs₀.nextFile ∧ Staged r fs₀ fs ∧ fs.contents file = r.data.take written
  | .syncFile file => file = fs₀.nextFile ∧ Staged r fs₀ fs ∧ fs.contents file = r.data
  | .close _ | .rename => Staged r fs₀ fs ∧ fs.contents fs₀.nextFile = r.data
  | .openDirectory | .syncDirectory | .closeDirectory | .returned (.ok ()) => Placed r fs₀ fs
  | .discard _ => Staged r fs₀ fs
  | .returned (.error _) => Unchanged fs₀ fs

/-- No name is bound to a file that does not exist. -/
def Fs.Valid (fs : Fs) : Prop := ∀ path file, fs.entries path = some file → file < fs.nextFile

/-- A file that was there before is found with its old contents. -/
theorem observe_of_entries (hvalid : fs₀.Valid) {path : Text}
    (hentries : fs.entries path = fs₀.entries path)
    (hcontents : ∀ file, file ≠ fs₀.nextFile → fs.contents file = fs₀.contents file) :
    fs.observe path = fs₀.observe path := by
  unfold Fs.observe
  rw [hentries]
  cases hfile : fs₀.entries path with
  | none => rfl
  | some file =>
    have hlt := hvalid path file hfile
    exact congrArg some (hcontents file (Nat.ne_of_lt hlt))

theorem staged_create (hfree : fs₀.entries r.temporary = none) :
    Staged r fs₀ (fs₀.create r.temporary) where
  free := hfree
  entries := rfl
  contents _ hfile := update_of_ne hfile _ _

theorem Staged.append (h : Staged r fs₀ fs) (bytes : Bytes) :
    Staged r fs₀ (fs.append fs₀.nextFile bytes) where
  free := h.free
  entries := h.entries
  contents file hfile := (update_of_ne hfile _ _).trans (h.contents file hfile)

/-- Removing the temporary file undoes everything. -/
theorem Staged.unlink (hvalid : fs₀.Valid) (h : Staged r fs₀ fs) :
    Unchanged fs₀ (fs.bind r.temporary none) := by
  intro path
  refine observe_of_entries hvalid ?_ h.contents
  show update fs.entries r.temporary none path = fs₀.entries path
  rw [h.entries, Function.update_idem]
  by_cases heq : path = r.temporary
  · rw [heq, update_self, h.free]
  · rw [update_of_ne heq]

theorem Staged.rename (hvalid : fs₀.Valid) (h : Staged r fs₀ fs)
    (hdata : fs.contents fs₀.nextFile = r.data) : Placed r fs₀ (fs.rename r.temporary r.path) := by
  have hsource : fs.entries r.temporary = some fs₀.nextFile := by
    rw [h.entries, update_self]
  have hother : ∀ other, other ≠ r.temporary → fs.entries other = fs₀.entries other := by
    intro other hne
    rw [h.entries, update_of_ne hne]
  unfold Fs.rename
  split
  · -- the temporary name is the path: a file that was there before is not the new one
    rename_i heq
    have hnames : r.path = r.temporary := by
      by_contra hne
      have hold := (hother r.path hne).symm.trans (heq.symm.trans hsource)
      exact absurd (hvalid _ _ hold) (Nat.lt_irrefl _)
    refine ⟨?_, fun other hne => observe_of_entries hvalid (hother other ?_) h.contents⟩
    · rw [Fs.observe, hnames, hsource, Option.map_some, hdata]
    · rwa [← hnames]
  · rename_i hne
    refine ⟨?_, fun other hother' => observe_of_entries hvalid ?_ h.contents⟩
    · show (update (update fs.entries r.temporary none) r.path (fs.entries r.temporary)
        r.path).map fs.contents = some r.data
      rw [update_self, hsource, Option.map_some, hdata]
    · show update (update fs.entries r.temporary none) r.path (fs.entries r.temporary) other =
        fs₀.entries other
      rw [update_of_ne hother']
      by_cases heq : other = r.temporary
      · rw [heq, update_self, h.free]
      · rw [update_of_ne heq, hother other heq]

/-- What the file system is left with when the temporary file is given up. -/
theorem next_discard {answer : Answer} {e : McError} (hanswer : answer.fault = false)
    (h : next r answer ⟨fs, .discard e⟩ = some s') :
    s' = ⟨fs.bind r.temporary none, .returned (.error e)⟩ := by
  have hfault : ¬answer.fault = true := by simp [hanswer]
  unfold next at h
  dsimp only at h
  rw [if_neg hfault] at h
  exact (Option.some.inj h).symm

/-- Calls that do not fail late: an error path takes everything back. -/
theorem Intact.next (hvalid : fs₀.Valid) {answer : Answer} (h : Intact r fs₀ s.fs s.stage)
    (hnext : AtomicWrite.next r answer s = some s')
    (hunlink : ∀ e, s.stage = .discard e → answer.fault = false)
    (hlate : ¬FailsLate r answer s.stage) :
    Intact r fs₀ s'.fs s'.stage := by
  cases move_of_next hnext with
  | refuse =>
    obtain rfl : _ = fs₀ := h
    exact fun path => rfl
  | create hfree =>
    obtain rfl : _ = fs₀ := h
    exact ⟨rfl, staged_create hfree, by simp [Fs.create]⟩
  | @write fs file written count hmore =>
    obtain ⟨rfl, hstaged, hdata⟩ := h
    refine ⟨rfl, hstaged.append _, ?_⟩
    have htaken : fs.contents fs₀.nextFile = r.data.take written := hdata
    simp only [Fs.append, update_self]
    rw [htaken, List.take_add, List.length_take]
    congr 1
    rw [List.take_eq_take_iff]
    omega
  | written hdone =>
    obtain ⟨hfile, hstaged, hdata⟩ := h
    exact ⟨hfile, hstaged, by rw [hdata, List.take_of_length_le hdone]⟩
  | sync =>
    obtain ⟨rfl, hstaged, hdata⟩ := h
    exact ⟨⟨hstaged.free, hstaged.entries, hstaged.contents⟩, hdata⟩
  | close => exact h
  | rename hstage =>
    rcases hstage with rfl | ⟨e, rfl⟩
    · exact h.1.rename hvalid h.2
    · exact absurd (failsLate_of_next (.inl rfl) hnext rfl) hlate
  | @fail fs stage e hstage =>
    cases stage with
    | write file written | syncFile file => exact h.2.1
    | close file | rename => exact h.1
    | _ => exact hstage.elim
  | openDirectory => exact h
  | syncDirectory => exact ⟨h.path, h.others⟩
  | finish => exact h
  | report hstage => exact absurd (failsLate_of_next (.inr hstage) hnext rfl) hlate
  | @keep fs e =>
    -- the temporary name was free all the same
    have hfs : fs = fs.bind r.temporary none :=
      congrArg State.fs (next_discard (hunlink e rfl) hnext)
    have hstaged : Staged r fs₀ fs := h
    have hunchanged := hstaged.unlink hvalid
    rwa [← hfs] at hunchanged
  | unlink => exact Staged.unlink hvalid h

/-- A call that fails late leaves the new data where it is, and the function returns. -/
theorem Intact.late (hvalid : fs₀.Valid) {answer : Answer} (h : Intact r fs₀ s.fs s.stage)
    (hlate : FailsLate r answer s.stage) :
    ∃ s', AtomicWrite.next r answer s = some s' ∧ Placed r fs₀ s'.fs ∧
      ∃ e, s'.stage = .returned (.error e) := by
  obtain ⟨fs, stage⟩ := s
  cases stage with
  | rename =>
    obtain ⟨hstaged, hdata⟩ : Staged r fs₀ fs ∧ fs.contents fs₀.nextFile = r.data := h
    have hthere : fs.entries r.temporary ≠ none := by
      rw [hstaged.entries, update_self]
      exact Option.some_ne_none _
    unfold AtomicWrite.next
    dsimp only
    rw [if_neg (by simp [hlate.1, hthere]), if_pos hlate.2]
    exact ⟨_, rfl, hstaged.rename hvalid hdata, _, rfl⟩
  | openDirectory | syncDirectory | closeDirectory => exact ⟨_, if_pos hlate, h, _, rfl⟩
  | _ => exact hlate.elim

/-- A run either has no late failure and is intact, or has returned from one. -/
theorem intact_or_placed (hvalid : fs₀.Valid) {answers : Nat → Answer}
    (hunlink : ∀ n e, (runFor r answers (called fs₀) n).stage = .discard e →
      (answers n).fault = false) (n : Nat) :
    let s := runFor r answers (called fs₀) n
    let late := ∃ m < n, FailsLate r (answers m) (runFor r answers (called fs₀) m).stage
    (¬late ∧ Intact r fs₀ s.fs s.stage) ∨
      (late ∧ Placed r fs₀ s.fs ∧ ∃ e, s.stage = .returned (.error e)) := by
  induction n with
  | zero => exact .inl ⟨fun ⟨_, hm, _⟩ => absurd hm (Nat.not_lt_zero _), rfl⟩
  | succ n ih =>
    dsimp only at ih ⊢
    rcases ih with ⟨hnot, hintact⟩ | ⟨⟨m, hm, hlate⟩, hplaced, e, he⟩
    · by_cases hlate : FailsLate r (answers n) (runFor r answers (called fs₀) n).stage
      · obtain ⟨s', hnext, hplaced⟩ := hintact.late hvalid hlate
        rw [runFor, hnext, Option.getD_some]
        exact .inr ⟨⟨n, Nat.lt_succ_self n, hlate⟩, hplaced⟩
      · have hnot' : ¬∃ m < n + 1, FailsLate r (answers m)
            (runFor r answers (called fs₀) m).stage := by
          rintro ⟨m, hm, hfails⟩
          rcases Nat.lt_succ_iff_lt_or_eq.mp hm with hlt | rfl
          · exact hnot ⟨m, hlt, hfails⟩
          · exact hlate hfails
        refine .inl ⟨hnot', ?_⟩
        rw [runFor]
        cases hnext : next r (answers n) (runFor r answers (called fs₀) n) with
        | none => exact hintact
        | some s' => exact hintact.next hvalid hnext (hunlink n) hlate
    · have hstop : next r (answers n) (runFor r answers (called fs₀) n) = none := by
        unfold AtomicWrite.next
        rw [he]
      rw [runFor, hstop, Option.getD_none]
      exact .inr ⟨⟨m, Nat.lt_succ_of_lt hm, hlate⟩, hplaced, e, he⟩

/-- After an error, nothing has changed if and only if no call has failed late, or the old content
    was the same as the new data. -/
theorem writeAtomic_error_iff {r : Request} {fs₀ : Fs} {e : McError} (hvalid : fs₀.Valid)
    (answers : Nat → Answer)
    (hunlink : ∀ n e, (runFor r answers (called fs₀) n).stage = .discard e →
      (answers n).fault = false)
    (n : Nat) (herror : (runFor r answers (called fs₀) n).stage = .returned (.error e)) :
    Unchanged fs₀ (runFor r answers (called fs₀) n).fs ↔
      (¬∃ m < n, FailsLate r (answers m) (runFor r answers (called fs₀) m).stage) ∨
        fs₀.observe r.path = some r.data := by
  rcases intact_or_placed hvalid hunlink n with ⟨hnot, hintact⟩ | ⟨hlate, hplaced, -⟩
  · rw [herror] at hintact
    exact iff_of_true hintact (.inl hnot)
  · constructor
    · intro hunchanged
      exact .inr ((hunchanged r.path).symm.trans hplaced.path)
    · intro h path
      by_cases heq : path = r.path
      · rw [heq, hplaced.path, h.resolve_left (not_not.mpr hlate)]
      · exact hplaced.others path heq

theorem valid_recordFs : recordFs.Valid := by
  intro path file h
  change update (fun _ => none) "state.json".toList (some 0) path = some file at h
  rw [Function.update_apply] at h
  split at h
  · exact Option.some.inj h ▸ Nat.one_pos
  · exact nomatch h

/-- A full disk: the temporary file is removed again, and the old record is found. -/
theorem writeAtomic_error_full :
    let r : Request := ⟨"state.json".toList, [123, 125], 7⟩
    let answers : Nat → Answer := fun n => { fault := n == 1 }
    (runFor r answers (called recordFs) 3).stage =
      .returned (.error (writeError r "write failed")) ∧
      Unchanged recordFs (runFor r answers (called recordFs) 3).fs := by
  refine ⟨rfl, (writeAtomic_error_iff valid_recordFs _ ?_ 3 rfl).mpr (.inl ?_)⟩
  · rintro (- | - | n) e h
    · cases h
    · cases h
    · rfl
  · rintro ⟨- | - | - | m, hm, hlate⟩
    · exact hlate
    · exact hlate
    · exact hlate
    · omega

/-- The directory cannot be opened: the call returns an error, and the new data is in place. -/
theorem writeAtomic_error_replaced :
    let r : Request := ⟨"state.json".toList, [123, 125], 7⟩
    let s := runFor r (fun n => { fault := n == 6, count := 2 }) (called recordFs) 7
    s.stage = .returned (.error (directoryError r)) ∧
      recordFs.observe r.path = some [91, 93] ∧ s.fs.observe r.path = some [123, 125] :=
  ⟨rfl, rfl, rfl⟩

/-! ## Leftovers -/

/-- What a directory can look like after calls that were interrupted at any point, and after
    reboots. -/
inductive Reachable : Fs → Prop where
  | empty : Reachable emptyFs
  | call {fs : Fs} {r : Request} {s : State} (h : Reachable fs) (hrun : Reaches r (called fs) s) :
      Reachable s.fs
  | reboot {fs fs' : Fs} (h : Reachable fs) (hcrash : fs.Recovers fs') : Reachable fs'

/-- An answer without a failure; a `write` takes at least one byte. -/
def Smooth (answer : Answer) : Prop := answer.fault = false ∧ 0 < answer.count

/-- Alone and without failures, the function returns and the new data is at the path. -/
def Succeeds (r : Request) (fs : Fs) : Prop :=
  ∀ answers : Nat → Answer, (∀ n, Smooth (answers n)) →
    ∃ n, (runFor r answers (called fs) n).stage = .returned (.ok ()) ∧
      (runFor r answers (called fs) n).fs.observe r.path = some r.data

/-- What is known at each stage of a call that is not disturbed. -/
def AloneInv (r : Request) (fs : Fs) : Stage → Prop
  | .create => fs.entries r.temporary = none
  | .write file written =>
    fs.entries r.temporary = some file ∧ fs.contents file = r.data.take written ∧
      written ≤ r.data.length
  | .syncFile file | .close file =>
    fs.entries r.temporary = some file ∧ fs.contents file = r.data
  | .rename => ∃ file, fs.entries r.temporary = some file ∧ fs.contents file = r.data
  | .openDirectory | .syncDirectory | .closeDirectory | .returned (.ok ()) =>
    fs.observe r.path = some r.data
  | .discard _ | .returned (.error _) => False

/-- The calls that are left at most. -/
def remaining (r : Request) : Stage → Nat
  | .create => r.data.length + 8
  | .write _ written => r.data.length - written + 7
  | .syncFile _ => 6
  | .close _ => 5
  | .rename => 4
  | .openDirectory => 3
  | .syncDirectory => 2
  | .closeDirectory => 1
  | .discard _ | .returned _ => 0

theorem length_temporary (r : Request) : r.temporary.length < pathMax := by
  unfold Request.temporary CString.snprintf
  rw [List.length_take]
  have : 0 < pathMax := by decide
  omega

theorem observe_rename {file : Nat} (hfile : fs.entries r.temporary = some file)
    (hdata : fs.contents file = r.data) :
    (fs.rename r.temporary r.path).observe r.path = some r.data := by
  unfold Fs.rename
  split
  · rename_i heq
    rw [Fs.observe, ← heq, hfile, Option.map_some, hdata]
  · show (update (update fs.entries r.temporary none) r.path (fs.entries r.temporary)
      r.path).map fs.contents = some r.data
    rw [update_self, hfile, Option.map_some, hdata]

/-- Without a failure, each call leads on. -/
theorem AloneInv.next {answer : Answer} (hlen : r.path.length < pathMax) (hsmooth : Smooth answer)
    (h : AloneInv r s.fs s.stage) :
    s.stage = .returned (.ok ()) ∨ ∃ s', next r answer s = some s' ∧
      AloneInv r s'.fs s'.stage ∧ remaining r s'.stage < remaining r s.stage := by
  obtain ⟨fs, stage⟩ := s
  have hfault : ¬answer.fault = true := by simp [hsmooth.1]
  unfold AtomicWrite.next
  cases stage with
  | create =>
    right
    have hfree : fs.entries r.temporary = none := h
    dsimp only
    rw [if_neg (Nat.not_le.mpr (length_temporary r)), if_neg (by simp [hfault, hfree])]
    refine ⟨_, rfl, ⟨?_, ?_, Nat.zero_le _⟩, ?_⟩
    · simp [Fs.create, Fs.bind]
    · simp [Fs.create]
    · simp [remaining]
  | write file written =>
    right
    obtain ⟨hfile, hdata, hle⟩ := h
    dsimp only
    -- a short write leaves less to write
    by_cases hmore : written < r.data.length
    · rw [if_pos hmore, if_neg hfault]
      have hcount := hsmooth.2
      have hlength : ((r.data.drop written).take answer.count).length =
          min answer.count (r.data.length - written) := by
        rw [List.length_take, List.length_drop]
      refine ⟨_, rfl, ⟨hfile, ?_, by omega⟩, ?_⟩
      · have htaken : fs.contents file = r.data.take written := hdata
        simp only [Fs.append, update_self]
        rw [htaken, List.take_add, List.length_take]
        congr 1
        rw [List.take_eq_take_iff]
        omega
      · simp only [remaining]
        omega
    · rw [if_neg hmore]
      refine ⟨_, rfl, ⟨hfile, ?_⟩, ?_⟩
      · rw [hdata, List.take_of_length_le (Nat.le_of_not_lt hmore)]
      · simp only [remaining]
        omega
  | syncFile file =>
    right
    dsimp only
    rw [if_neg hfault]
    exact ⟨_, rfl, h, by simp [remaining]⟩
  | close file =>
    right
    dsimp only
    rw [if_neg hfault]
    exact ⟨_, rfl, ⟨file, h⟩, by simp [remaining]⟩
  | rename =>
    right
    obtain ⟨file, hfile, hdata⟩ := h
    have hfile' : fs.entries r.temporary = some file := hfile
    dsimp only
    rw [if_neg (by simp [hfault, hfile']), if_neg (Nat.not_le.mpr hlen)]
    exact ⟨_, rfl, observe_rename hfile hdata, by simp [remaining]⟩
  | openDirectory | syncDirectory | closeDirectory =>
    right
    dsimp only
    rw [if_neg hfault]
    exact ⟨_, rfl, h, by simp [remaining]⟩
  | discard e => exact h.elim
  | returned result =>
    cases result with
    | error e => exact h.elim
    | ok _ => exact .inl rfl

/-- Undisturbed calls get to the end, one after another. -/
theorem exists_returned {answers : Nat → Answer} (hlen : r.path.length < pathMax)
    (hsmooth : ∀ n, Smooth (answers n)) (m k : Nat)
    (h : AloneInv r (runFor r answers s k).fs (runFor r answers s k).stage)
    (hm : remaining r (runFor r answers s k).stage ≤ m) :
    ∃ n, (runFor r answers s n).stage = .returned (.ok ()) ∧
      (runFor r answers s n).fs.observe r.path = some r.data := by
  induction m generalizing k with
  | zero =>
    rcases h.next hlen (hsmooth k) with hdone | ⟨s', -, -, hless⟩
    · exact ⟨k, hdone, by rwa [hdone] at h⟩
    · omega
  | succ m ih =>
    rcases h.next hlen (hsmooth k) with hdone | ⟨s', hnext, hinv, hless⟩
    · exact ⟨k, hdone, by rwa [hdone] at h⟩
    · have hstep : runFor r answers s (k + 1) = s' := by rw [runFor, hnext, Option.getD_some]
      exact ih (k + 1) (by rwa [hstep]) (by rw [hstep]; omega)

/-- The call does not succeed any more: its temporary name is taken, or the path is too long for
    the directory to be found. -/
def Blocked (r : Request) (s : State) : Prop :=
  match s.stage with
  | .create => pathMax ≤ r.path.length ∨ s.fs.entries r.temporary ≠ none
  | .write _ _ | .syncFile _ | .close _ | .rename => pathMax ≤ r.path.length
  | .openDirectory | .syncDirectory | .closeDirectory | .returned (.ok _) => False
  | .discard _ | .returned (.error _) => True

theorem Blocked.next {answer : Answer} (h : Blocked r s) (hnext : next r answer s = some s') :
    Blocked r s' := by
  obtain ⟨fs, stage⟩ := s
  unfold AtomicWrite.next at hnext
  cases stage with
  | create =>
    dsimp only at hnext
    split_ifs at hnext with hlong hfail
    · exact Option.some.inj hnext ▸ trivial
    · exact Option.some.inj hnext ▸ trivial
    · cases hnext
      exact h.resolve_right (not_or.mp hfail).2
  | write file written =>
    dsimp only at hnext
    split_ifs at hnext
    · exact Option.some.inj hnext ▸ trivial
    · exact Option.some.inj hnext ▸ h
    · exact Option.some.inj hnext ▸ h
  | syncFile file | close file =>
    dsimp only at hnext
    split_ifs at hnext
    · exact Option.some.inj hnext ▸ trivial
    · exact Option.some.inj hnext ▸ h
  | rename =>
    have hlong : pathMax ≤ r.path.length := h
    dsimp only at hnext
    rw [if_pos hlong] at hnext
    split_ifs at hnext
    · exact Option.some.inj hnext ▸ trivial
    · exact Option.some.inj hnext ▸ trivial
  | openDirectory | syncDirectory | closeDirectory => exact h.elim
  | discard e =>
    dsimp only at hnext
    split_ifs at hnext
    · exact Option.some.inj hnext ▸ trivial
    · exact Option.some.inj hnext ▸ trivial
  | returned result => exact nomatch hnext

theorem Blocked.runFor (h : Blocked r s) (answers : Nat → Answer) (n : Nat) :
    Blocked r (runFor r answers s n) := by
  induction n with
  | zero => exact h
  | succ n ih =>
    rw [AtomicWrite.runFor]
    cases hnext : AtomicWrite.next r (answers n) (AtomicWrite.runFor r answers s n) with
    | none => exact ih
    | some s' => exact ih.next hnext

theorem Blocked.not_succeeds (h : Blocked r (called fs)) : ¬Succeeds r fs := by
  intro hsucceeds
  obtain ⟨n, hdone, -⟩ := hsucceeds (fun _ => ⟨false, 1⟩) fun _ => ⟨rfl, Nat.one_pos⟩
  have hstill := h.runFor (fun _ => ⟨false, 1⟩) n
  unfold Blocked at hstill
  rw [hdone] at hstill
  exact hstill

/-- In every directory, a call that is not disturbed succeeds if and only if its temporary name is
    free, on a path shorter than `PATH_MAX`. -/
theorem writeAtomic_unblocked_iff (r : Request) (fs : Fs) :
    Succeeds r fs ↔ r.path.length < pathMax ∧ fs.entries r.temporary = none := by
  constructor
  · intro hsucceeds
    by_contra hcond
    have hblocked : Blocked r (called fs) := by
      show pathMax ≤ r.path.length ∨ fs.entries r.temporary ≠ none
      rwa [← Nat.not_lt, ← not_and_or]
    exact hblocked.not_succeeds hsucceeds
  · rintro ⟨hlen, hfree⟩ answers hsmooth
    exact exists_returned hlen hsmooth _ 0 hfree (Nat.le_refl _)

/-- A writer is killed behind its `open`, and a later one has the same process ID. -/
theorem writeAtomic_blocked :
    ∃ fs, Reachable fs ∧ ¬Succeeds ⟨"state.json".toList, [123, 125], 7⟩ fs ∧
      next ⟨"state.json".toList, [123, 125], 7⟩ ⟨false, 1⟩ (called fs) =
        some ⟨fs, .returned (.error (writeError ⟨"state.json".toList, [123, 125], 7⟩
          "cannot create temporary file"))⟩ := by
  have hrun : Reaches ⟨"state.json".toList, [123, 125], 7⟩ (called emptyFs)
      ⟨emptyFs.create (Request.temporary ⟨"state.json".toList, [123, 125], 7⟩), .write 0 0⟩ :=
    .single ⟨{}, rfl⟩
  refine ⟨_, .call .empty hrun, Blocked.not_succeeds (.inr ?_), rfl⟩
  simp [called, Fs.create, Fs.bind]

end MiniContainer.AtomicWrite
