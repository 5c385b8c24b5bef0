import Mathlib.Logic.Relation
import MiniContainer.Native.AtomicWrite

/-!
# Replacing a file is atomic

At every stage of `mc_write_atomic`, whatever the path may be found bound to is its old file
or a complete and synchronised new one (`Inv`). So a reader and a crash find nothing else,
and after a successful return only the new data (`Atomic`).

This needs the temporary file to have another name. The buffer for that name cuts off what
does not fit, so a path of the greatest length is its own temporary file
(`temporary_eq_path_iff`).
-/

namespace MiniContainer.AtomicWrite

open CString (Text)
open Function (update update_of_ne update_self)
open Relation (ReflTransGen)

variable {r : Request} {fs₀ fs : Fs} {s s' : State}

/-! ## Runs -/

/-- The function gets from one state to another one. -/
def Reaches (r : Request) : State → State → Prop :=
  ReflTransGen fun s s' => ∃ answer, next r answer s = some s'

/-- The function is called. -/
def called (fs : Fs) : State := ⟨fs, .create⟩

/-- The stages whose failure removes the temporary file. -/
def Stage.Undone : Stage → Prop
  | .write _ _ | .syncFile _ | .close _ | .rename => True
  | _ => False

/-- The stages behind the replacement. -/
def Stage.Replaced : Stage → Prop
  | .openDirectory | .syncDirectory | .closeDirectory => True
  | _ => False

/-- What one call can do. -/
inductive Move (r : Request) : State → State → Prop where
  | refuse {fs : Fs} {e : McError} : Move r ⟨fs, .create⟩ ⟨fs, .returned (.error e)⟩
  | create {fs : Fs} (hfree : fs.entries r.temporary = none) :
      Move r ⟨fs, .create⟩ ⟨fs.create r.temporary, .write fs.nextFile 0⟩
  | write {fs : Fs} {file written count : Nat} (hmore : written < r.data.length) :
      Move r ⟨fs, .write file written⟩
        ⟨fs.append file ((r.data.drop written).take count),
          .write file (written + ((r.data.drop written).take count).length)⟩
  | written {fs : Fs} {file written : Nat} (hdone : r.data.length ≤ written) :
      Move r ⟨fs, .write file written⟩ ⟨fs, .syncFile file⟩
  | sync {fs : Fs} {file : Nat} : Move r ⟨fs, .syncFile file⟩ ⟨fs.sync file, .close file⟩
  | close {fs : Fs} {file : Nat} : Move r ⟨fs, .close file⟩ ⟨fs, .rename⟩
  | rename {fs : Fs} {stage : Stage}
      (hstage : stage = .openDirectory ∨ ∃ e, stage = .returned (.error e)) :
      Move r ⟨fs, .rename⟩ ⟨fs.rename r.temporary r.path, stage⟩
  | fail {fs : Fs} {stage : Stage} {e : McError} (hstage : stage.Undone) :
      Move r ⟨fs, stage⟩ ⟨fs, .discard e⟩
  | openDirectory {fs : Fs} : Move r ⟨fs, .openDirectory⟩ ⟨fs, .syncDirectory⟩
  | syncDirectory {fs : Fs} :
      Move r ⟨fs, .syncDirectory⟩ ⟨fs.syncDirectory (Fs.directory r.path), .closeDirectory⟩
  | finish {fs : Fs} : Move r ⟨fs, .closeDirectory⟩ ⟨fs, .returned (.ok ())⟩
  | report {fs : Fs} {stage : Stage} {e : McError} (hstage : stage.Replaced) :
      Move r ⟨fs, stage⟩ ⟨fs, .returned (.error e)⟩
  | keep {fs : Fs} {e : McError} : Move r ⟨fs, .discard e⟩ ⟨fs, .returned (.error e)⟩
  | unlink {fs : Fs} {e : McError} :
      Move r ⟨fs, .discard e⟩ ⟨fs.bind r.temporary none, .returned (.error e)⟩

/-- Every step is a move. -/
theorem move_of_next {answer : Answer} (h : next r answer s = some s') : Move r s s' := by
  obtain ⟨fs, stage⟩ := s
  unfold next at h
  cases stage with
  | create =>
    dsimp only at h
    split_ifs at h with hlong hfail
    · exact Option.some.inj h ▸ .refuse
    · exact Option.some.inj h ▸ .refuse
    · exact Option.some.inj h ▸ .create (not_not.mp (not_or.mp hfail).2)
  | write file written =>
    dsimp only at h
    split_ifs at h with hmore hfault
    · exact Option.some.inj h ▸ .fail trivial
    · exact Option.some.inj h ▸ .write hmore
    · exact Option.some.inj h ▸ .written (Nat.le_of_not_lt hmore)
  | syncFile file =>
    dsimp only at h
    split_ifs at h
    · exact Option.some.inj h ▸ .fail trivial
    · exact Option.some.inj h ▸ .sync
  | close file =>
    dsimp only at h
    split_ifs at h
    · exact Option.some.inj h ▸ .fail trivial
    · exact Option.some.inj h ▸ .close
  | rename =>
    dsimp only at h
    split_ifs at h
    · exact Option.some.inj h ▸ .fail trivial
    · exact Option.some.inj h ▸ .rename (.inr ⟨_, rfl⟩)
    · exact Option.some.inj h ▸ .rename (.inl rfl)
  | openDirectory =>
    dsimp only at h
    split_ifs at h
    · exact Option.some.inj h ▸ .report trivial
    · exact Option.some.inj h ▸ .openDirectory
  | syncDirectory =>
    dsimp only at h
    split_ifs at h
    · exact Option.some.inj h ▸ .report trivial
    · exact Option.some.inj h ▸ .syncDirectory
  | closeDirectory =>
    dsimp only at h
    split_ifs at h
    · exact Option.some.inj h ▸ .report trivial
    · exact Option.some.inj h ▸ .finish
  | discard e =>
    dsimp only at h
    split_ifs at h
    · exact Option.some.inj h ▸ .keep
    · exact Option.some.inj h ▸ .unlink
  | returned result => exact nomatch h

/-! ## The name of the temporary file -/

/-- A path is its own temporary file when the buffer has no room for more. -/
theorem temporary_eq_path_iff (hlen : r.path.length < pathMax) :
    r.temporary = r.path ↔ r.path.length + 1 = pathMax := by
  unfold Request.temporary CString.snprintf
  rw [List.append_assoc]
  constructor
  · intro h
    by_contra hne
    have hlength := congrArg List.length h
    rw [List.length_take, List.length_append, List.length_append] at hlength
    have : ".tmp.".toList.length = 5 := rfl
    omega
  · intro h
    rw [show pathMax - 1 = r.path.length by omega, List.take_left]

/-! ## The invariant -/

/-- A file with the new data on the disk. -/
structure Complete (r : Request) (fs : Fs) (file : Nat) : Prop where
  used : file < fs.nextFile
  contents : fs.contents file = r.data
  synced : fs.synced file = true

/-- The file that the function has created. It is not the old one; it stands at the path
    itself only where nothing stood. -/
structure Ours (r : Request) (fs₀ fs : Fs) (file : Nat) : Prop where
  named : fs.entries r.temporary = some file
  used : file < fs.nextFile
  fresh : fs₀.entries r.path ≠ some file
  separate : r.temporary = r.path → fs₀.entries r.path = none

/-- What is known at each stage, behind a call with the file system `fs₀`. -/
def StageInv (r : Request) (fs₀ fs : Fs) : Stage → Prop
  | .create => fs = fs₀
  | .write file written =>
    Ours r fs₀ fs file ∧ written ≤ r.data.length ∧ fs.contents file = r.data.take written ∧
      (written < r.data.length → some file ∉ fs.history r.path)
  | .syncFile file => Ours r fs₀ fs file ∧ fs.contents file = r.data
  | .close file => Ours r fs₀ fs file ∧ Complete r fs file
  | .rename => ∃ file, Ours r fs₀ fs file ∧ Complete r fs file
  | .openDirectory | .syncDirectory => ∃ file, fs.entries r.path = some file ∧ Complete r fs file
  | .closeDirectory | .returned (.ok ()) =>
    ∃ file, fs.history r.path = [some file] ∧ Complete r fs file
  | .discard _ => r.temporary = r.path → fs₀.entries r.path = none
  | .returned (.error _) => True

/-- Whatever the path may be bound to is the old file, unchanged, or a complete new one. -/
structure Inv (r : Request) (fs₀ : Fs) (s : State) : Prop where
  old : ∀ file, fs₀.entries r.path = some file →
    file < s.fs.nextFile ∧ s.fs.contents file = fs₀.contents file ∧ s.fs.synced file = true
  current : s.fs.entries r.path ∈ s.fs.history r.path
  bindings : ∀ entry ∈ s.fs.history r.path, entry = fs₀.entries r.path ∨
    ∃ file, entry = some file ∧ Complete r s.fs file
  stage : StageInv r fs₀ s.fs s.stage

/-- The path and its old file are on the disk. -/
structure Settled (fs : Fs) (path : Text) : Prop where
  history : fs.history path = [fs.entries path]
  synced : ∀ file, fs.entries path = some file → file < fs.nextFile ∧ fs.synced file = true

/-- The invariant holds at the call. -/
theorem inv_called (h : Settled fs₀ r.path) : Inv r fs₀ (called fs₀) where
  old file hfile := ⟨(h.synced file hfile).1, rfl, (h.synced file hfile).2⟩
  current := by
    show fs₀.entries r.path ∈ fs₀.history r.path
    rw [h.history]
    exact List.mem_singleton.mpr rfl
  bindings entry hentry := by
    have hmem : entry ∈ fs₀.history r.path := hentry
    rw [h.history] at hmem
    exact .inl (List.mem_singleton.mp hmem)
  stage := rfl

/-- A step that leaves the names of the path and the data of its files alone. -/
theorem Inv.same {fs' : Fs} {stage stage' : Stage} (h : Inv r fs₀ ⟨fs, stage⟩)
    (hentries : fs'.entries r.path = fs.entries r.path)
    (hhistory : fs'.history r.path = fs.history r.path) (hnext : fs.nextFile ≤ fs'.nextFile)
    (hfiles : ∀ file, file < fs.nextFile →
      (fs₀.entries r.path = some file ∨ some file ∈ fs.history r.path) →
      fs'.contents file = fs.contents file ∧
        (fs.synced file = true → fs'.synced file = true))
    (hstage : StageInv r fs₀ fs' stage') : Inv r fs₀ ⟨fs', stage'⟩ where
  old file hfile := by
    obtain ⟨hused, hcontents, hsynced⟩ := h.old file hfile
    obtain ⟨hc, hs⟩ := hfiles file hused (.inl hfile)
    exact ⟨Nat.lt_of_lt_of_le hused hnext, hc.trans hcontents, hs hsynced⟩
  current := by
    show fs'.entries r.path ∈ fs'.history r.path
    rw [hentries, hhistory]
    exact h.current
  bindings entry hentry := by
    have hmem : entry ∈ fs.history r.path := hhistory ▸ hentry
    rcases h.bindings entry hmem with hold | ⟨file, rfl, hcomplete⟩
    · exact .inl hold
    · obtain ⟨hc, hs⟩ := hfiles file hcomplete.used (.inr hmem)
      exact .inr ⟨file, rfl, Nat.lt_of_lt_of_le hcomplete.used hnext,
        hc.trans hcomplete.contents, hs hcomplete.synced⟩
  stage := hstage

theorem Complete.bind {file : Nat} (h : Complete r fs file) (path : Text) (entry : Option Nat) :
    Complete r (fs.bind path entry) file :=
  ⟨h.used, h.contents, h.synced⟩

/-- A step that binds the path anew, to the old file or to a complete one. -/
theorem Inv.bound {stage stage' : Stage} {entry : Option Nat} (h : Inv r fs₀ ⟨fs, stage⟩)
    (hentry : entry = fs₀.entries r.path ∨ ∃ file, entry = some file ∧ Complete r fs file)
    (hstage : StageInv r fs₀ (fs.bind r.path entry) stage') :
    Inv r fs₀ ⟨fs.bind r.path entry, stage'⟩ where
  old := h.old
  current := by simp [Fs.bind]
  bindings entry' hmem := by
    have hcons : entry' ∈ entry :: fs.history r.path := by simpa [Fs.bind] using hmem
    have hfound : entry' = fs₀.entries r.path ∨ ∃ file, entry' = some file ∧
        Complete r fs file := by
      rcases List.mem_cons.mp hcons with rfl | hold
      · exact hentry
      · exact h.bindings entry' hold
    exact hfound.imp_right fun ⟨file, heq, hcomplete⟩ => ⟨file, heq, hcomplete.bind _ _⟩
  stage := hstage

/-- Binding another name leaves the path alone. -/
theorem Inv.bindOther {stage stage' : Stage} {path : Text} {entry : Option Nat}
    (h : Inv r fs₀ ⟨fs, stage⟩) (hpath : path ≠ r.path)
    (hstage : StageInv r fs₀ (fs.bind path entry) stage') :
    Inv r fs₀ ⟨fs.bind path entry, stage'⟩ := by
  refine h.same ?_ ?_ (Nat.le_refl _) (fun file _ _ => ⟨rfl, id⟩) hstage
  · exact update_of_ne (Ne.symm hpath) _ _
  · exact update_of_ne (Ne.symm hpath) _ _

/-! ## One call keeps the invariant -/

/-- The path is not written in place: it has another temporary name, or it exists, so that the
    call is refused, or there is nothing to write. -/
def Separate (r : Request) (fs₀ : Fs) : Prop :=
  r.temporary = r.path → fs₀.entries r.path ≠ none ∨ r.data = []

theorem Inv.create (hsep : Separate r fs₀) (h : Inv r fs₀ ⟨fs, .create⟩)
    (hfree : fs.entries r.temporary = none) :
    Inv r fs₀ ⟨fs.create r.temporary, .write fs.nextFile 0⟩ := by
  obtain rfl : fs = fs₀ := h.stage
  -- no file that the path may be bound to is the new one
  have hnew : ∀ file, file < fs.nextFile → file ≠ fs.nextFile := fun file => Nat.ne_of_lt
  have hold : fs.entries r.path ≠ some fs.nextFile :=
    fun heq => hnew _ (h.old _ heq).1 rfl
  have hours : Ours r fs (fs.create r.temporary) fs.nextFile :=
    { named := by simp [Fs.create, Fs.bind]
      used := Nat.lt_succ_self _
      fresh := hold
      separate := fun heq => heq ▸ hfree }
  have hcontents : (fs.create r.temporary).contents fs.nextFile = r.data.take 0 := by
    simp [Fs.create]
  by_cases heq : r.temporary = r.path
  · -- the path itself is created, and what is to be written is already there
    have hdata : r.data = [] := (hsep heq).resolve_left fun hne => hne (heq ▸ hfree)
    have hcomplete : Complete r (fs.create r.temporary) fs.nextFile :=
      ⟨Nat.lt_succ_self _, by rw [hcontents, hdata]; rfl, by simp [Fs.create]⟩
    refine ⟨fun file hfile => ?_, ?_, fun entry hentry => ?_, ?_⟩
    · rw [← heq, hfree] at hfile
      exact nomatch hfile
    · simp [Fs.create, Fs.bind, heq]
    · have hcons : entry ∈ some fs.nextFile :: fs.history r.path := by
        simpa [Fs.create, Fs.bind, heq] using hentry
      rcases List.mem_cons.mp hcons with rfl | hmem
      · exact .inr ⟨fs.nextFile, rfl, hcomplete⟩
      · rcases h.bindings entry hmem with hentry' | ⟨file, rfl, hfile⟩
        · exact .inl hentry'
        · have hne := hnew file hfile.used
          exact .inr ⟨file, rfl, Nat.lt_succ_of_lt hfile.used,
            by simpa [Fs.create, update_of_ne hne] using hfile.contents,
            by simpa [Fs.create, update_of_ne hne] using hfile.synced⟩
    · exact ⟨hours, Nat.zero_le _, hcontents, fun hpos => absurd hpos (by simp [hdata])⟩
  · have hhistory : (fs.create r.temporary).history r.path = fs.history r.path :=
      update_of_ne (Ne.symm heq) _ _
    refine h.same (update_of_ne (Ne.symm heq) _ _) hhistory (Nat.le_succ _) ?_ ?_
    · intro file hused _
      have hne := hnew file hused
      exact ⟨update_of_ne hne _ _, fun hs => by
        simpa [Fs.create, update_of_ne hne] using hs⟩
    · refine ⟨hours, Nat.zero_le _, hcontents, fun _ hmem => ?_⟩
      rw [hhistory] at hmem
      rcases h.bindings _ hmem with heq' | ⟨file, heq', hfile⟩
      · exact hold heq'.symm
      · exact hnew file hfile.used (Option.some.inj heq').symm

theorem Inv.write {file written count : Nat} (h : Inv r fs₀ ⟨fs, .write file written⟩)
    (hmore : written < r.data.length) :
    Inv r fs₀ ⟨fs.append file ((r.data.drop written).take count),
      .write file (written + ((r.data.drop written).take count).length)⟩ := by
  obtain ⟨hours, hle, hcontents, hnot⟩ := h.stage
  have hlength : ((r.data.drop written).take count).length ≤ r.data.length - written := by
    rw [List.length_take, List.length_drop]
    exact Nat.min_le_right _ _
  refine h.same rfl rfl (Nat.le_refl _) ?_ ?_
  · -- neither the old file nor a complete one is being written
    intro other _ hother
    have hne : other ≠ file := by
      rintro rfl
      exact hother.elim hours.fresh (hnot hmore)
    exact ⟨update_of_ne hne _ _, fun hs => by
      simpa [Fs.append, update_of_ne hne] using hs⟩
  · refine ⟨⟨hours.named, hours.used, hours.fresh, hours.separate⟩, by omega, ?_,
      fun _ => hnot hmore⟩
    have htaken : fs.contents file = r.data.take written := hcontents
    simp only [Fs.append, update_self]
    rw [htaken, List.take_add, List.length_take]
    congr 1
    rw [List.take_eq_take_iff]
    omega

theorem Inv.sync {file : Nat} (h : Inv r fs₀ ⟨fs, .syncFile file⟩) :
    Inv r fs₀ ⟨fs.sync file, .close file⟩ := by
  obtain ⟨hours, hcontents⟩ := h.stage
  refine h.same rfl rfl (Nat.le_refl _) (fun other _ _ => ⟨rfl, fun hs => ?_⟩) ?_
  · by_cases hother : other = file
    · simp [Fs.sync, hother]
    · simpa [Fs.sync, update_of_ne hother] using hs
  · exact ⟨⟨hours.named, hours.used, hours.fresh, hours.separate⟩, hours.used, hcontents,
      by simp [Fs.sync]⟩

theorem Inv.rename {stage : Stage} (h : Inv r fs₀ ⟨fs, .rename⟩)
    (hstage : stage = .openDirectory ∨ ∃ e, stage = .returned (.error e)) :
    Inv r fs₀ ⟨fs.rename r.temporary r.path, stage⟩ := by
  obtain ⟨file, hours, hcomplete⟩ := h.stage
  have hend : ∀ fs' : Fs, fs'.entries r.path = some file → Complete r fs' file →
      StageInv r fs₀ fs' stage := by
    intro fs' hentry hfile
    rcases hstage with rfl | ⟨e, rfl⟩
    · exact ⟨file, hentry, hfile⟩
    · trivial
  unfold Fs.rename
  split
  · -- both names are names of the file
    rename_i heq
    have hentry : fs.entries r.path = some file := heq.symm.trans hours.named
    exact { h with stage := hend fs hentry hcomplete }
  · rename_i hne
    have hnames : r.temporary ≠ r.path := fun heq => hne (by rw [heq])
    have hmiddle : Inv r fs₀ ⟨fs.bind r.temporary none, .discard (writeError r "")⟩ :=
      h.bindOther hnames fun heq => absurd heq hnames
    rw [hours.named]
    refine hmiddle.bound (.inr ⟨file, rfl, hcomplete.bind _ _⟩) (hend _ ?_ ?_)
    · simp [Fs.bind]
    · exact (hcomplete.bind _ _).bind _ _

theorem Inv.unlink {e : McError} (h : Inv r fs₀ ⟨fs, .discard e⟩) :
    Inv r fs₀ ⟨fs.bind r.temporary none, .returned (.error e)⟩ := by
  by_cases heq : r.temporary = r.path
  · rw [heq]
    exact h.bound (.inl (h.stage heq).symm) trivial
  · exact h.bindOther heq trivial

theorem Inv.syncDirectory (h : Inv r fs₀ ⟨fs, .syncDirectory⟩) :
    Inv r fs₀ ⟨fs.syncDirectory (Fs.directory r.path), .closeDirectory⟩ := by
  obtain ⟨file, hentry, hcomplete⟩ := h.stage
  have hhistory : (fs.syncDirectory (Fs.directory r.path)).history r.path = [some file] := by
    rw [← hentry]
    exact if_pos rfl
  have hfile : Complete r (fs.syncDirectory (Fs.directory r.path)) file :=
    ⟨hcomplete.used, hcomplete.contents, hcomplete.synced⟩
  refine ⟨h.old, ?_, fun entry hmem => ?_, file, hhistory, hfile⟩
  · show fs.entries r.path ∈ (fs.syncDirectory (Fs.directory r.path)).history r.path
    rw [hhistory, hentry]
    exact List.mem_singleton.mpr rfl
  · have hmem' : entry ∈ (fs.syncDirectory (Fs.directory r.path)).history r.path := hmem
    rw [hhistory] at hmem'
    exact .inr ⟨file, List.mem_singleton.mp hmem', hfile⟩

/-- Every move keeps the invariant, -/
theorem Inv.move (hsep : Separate r fs₀) (h : Inv r fs₀ s) (hmove : Move r s s') :
    Inv r fs₀ s' := by
  cases hmove with
  | refuse => exact { h with stage := trivial }
  | create hfree => exact h.create hsep hfree
  | write hmore => exact h.write hmore
  | @written fs file n hdone =>
    obtain ⟨hours, -, hcontents, -⟩ := h.stage
    exact { h with stage := ⟨hours, by rw [hcontents, List.take_of_length_le hdone]⟩ }
  | sync => exact h.sync
  | close => exact { h with stage := ⟨_, h.stage⟩ }
  | rename hstage => exact h.rename hstage
  | @fail fs stage e hstage =>
    refine { h with stage := ?_ }
    have hinv := h.stage
    cases stage with
    | write file written | syncFile file | close file => exact hinv.1.separate
    | rename =>
      obtain ⟨file, hours, -⟩ := hinv
      exact hours.separate
    | _ => exact hstage.elim
  | openDirectory => exact { h with stage := h.stage }
  | syncDirectory => exact h.syncDirectory
  | finish => exact { h with stage := h.stage }
  | report _ | keep => exact { h with stage := trivial }
  | unlink => exact h.unlink

/-- and so does every run. -/
theorem Inv.reaches (hsep : Separate r fs₀) (h : Inv r fs₀ s) (hreach : Reaches r s s') :
    Inv r fs₀ s' := by
  induction hreach with
  | refl => exact h
  | tail _ hnext ih =>
    obtain ⟨answer, hstep⟩ := hnext
    exact ih.move hsep (move_of_next hstep)

/-! ## Readers and crashes -/

/-- The old contents of the path, or the new data. -/
def OldOrNew (r : Request) (fs₀ : Fs) (found : Option Bytes) : Prop :=
  found = fs₀.observe r.path ∨ found = some r.data

/-- The replacement is atomic and durable.

    * whoever opens the path at some point and reads at that point or later, finds the old
      contents or the new data
    * so does whoever opens it after a crash at any point
    * after a crash behind a successful return, the new data is found -/
structure Atomic (r : Request) (fs₀ : Fs) : Prop where
  readers : ∀ s s', Reaches r (called fs₀) s → Reaches r s s' →
    OldOrNew r fs₀ ((s.fs.entries r.path).map s'.fs.contents)
  crashes : ∀ s fs', Reaches r (called fs₀) s → s.fs.Recovers fs' →
    OldOrNew r fs₀ (fs'.observe r.path)
  durable : ∀ s fs', Reaches r (called fs₀) s → s.stage = .returned (.ok ()) →
    s.fs.Recovers fs' → fs'.observe r.path = some r.data

/-- A file that is not being written keeps its contents. -/
structure Still (r : Request) (file : Nat) (contents : Bytes) (s : State) : Prop where
  used : file < s.fs.nextFile
  contents_eq : s.fs.contents file = contents
  unwritten : ∀ other written, s.stage = .write other written → written < r.data.length →
    other ≠ file

theorem Still.move {file : Nat} {contents : Bytes} (h : Still r file contents s)
    (hmove : Move r s s') : Still r file contents s' := by
  cases hmove with
  | create hfree =>
    refine ⟨Nat.lt_succ_of_lt h.used, ?_, ?_⟩
    · have hne := Nat.ne_of_lt h.used
      exact (update_of_ne hne _ _).trans h.contents_eq
    · intro other written heq _
      obtain ⟨rfl, -⟩ := Stage.write.inj heq
      exact (Nat.ne_of_lt h.used).symm
  | @write fs other written count hmore =>
    have hne := h.unwritten other written rfl hmore
    refine ⟨h.used, (update_of_ne hne.symm _ _).trans h.contents_eq, ?_⟩
    intro other' written' heq _
    obtain ⟨rfl, -⟩ := Stage.write.inj heq
    exact hne
  | @rename fs stage hstage =>
    have hused : (fs.rename r.temporary r.path).nextFile = fs.nextFile := by
      unfold Fs.rename
      split <;> rfl
    have hcontents : (fs.rename r.temporary r.path).contents = fs.contents := by
      unfold Fs.rename
      split <;> rfl
    refine ⟨hused ▸ h.used, (congrFun hcontents file).trans h.contents_eq,
      fun other written heq => ?_⟩
    rcases hstage with rfl | ⟨e, rfl⟩ <;> exact nomatch heq
  | _ => exact ⟨h.used, h.contents_eq, fun other written heq => nomatch heq⟩

theorem Still.reaches {file : Nat} {contents : Bytes} (h : Still r file contents s)
    (hreach : Reaches r s s') : Still r file contents s' := by
  induction hreach with
  | refl => exact h
  | tail _ hnext ih =>
    obtain ⟨answer, hstep⟩ := hnext
    exact ih.move (move_of_next hstep)

/-- What the path is bound to is not being written. -/
theorem Inv.still {file : Nat} (h : Inv r fs₀ s) (hentry : s.fs.entries r.path = some file) :
    Still r file (s.fs.contents file) s where
  used := by
    rcases h.bindings _ h.current with hold | ⟨file', heq, hfile⟩
    · exact (h.old file (hold ▸ hentry)).1
    · rw [hentry] at heq
      exact Option.some.inj heq ▸ hfile.used
  contents_eq := rfl
  unwritten other written hstage hmore := by
    rintro rfl
    have hinv := h.stage
    rw [hstage] at hinv
    exact hinv.2.2.2 hmore (hentry ▸ h.current)

/-- A binding of the path, read where the data of its file is unchanged. -/
theorem Inv.oldOrNew {entry : Option Nat} {contents : Nat → Bytes} (h : Inv r fs₀ s)
    (hentry : entry ∈ s.fs.history r.path)
    (hsame : ∀ file, entry = some file → s.fs.synced file = true →
      contents file = s.fs.contents file) :
    OldOrNew r fs₀ (entry.map contents) := by
  rcases h.bindings entry hentry with rfl | ⟨file, rfl, hfile⟩
  · left
    unfold Fs.observe
    cases hold : fs₀.entries r.path with
    | none => rfl
    | some file =>
      obtain ⟨-, hcontents, hsynced⟩ := h.old file hold
      rw [Option.map_some, Option.map_some, hsame file hold hsynced, hcontents]
  · right
    rw [Option.map_some, hsame file rfl hfile.synced, hfile.contents]

/-- A path that the temporary file is not in the way of. -/
theorem atomic_of_separate (hsettled : Settled fs₀ r.path) (hsep : Separate r fs₀) :
    Atomic r fs₀ where
  readers s s' hs hs' := by
    have hinv := (inv_called hsettled).reaches hsep hs
    refine hinv.oldOrNew hinv.current fun file hentry _ => ?_
    exact ((hinv.still hentry).reaches hs').contents_eq
  crashes s fs' hs hcrash := by
    have hinv := (inv_called hsettled).reaches hsep hs
    exact hinv.oldOrNew (hcrash.entries r.path) fun file _ hsynced => hcrash.contents file hsynced
  durable s fs' hs hstage hcrash := by
    have hinv := ((inv_called hsettled).reaches hsep hs).stage
    rw [hstage] at hinv
    obtain ⟨file, hhistory, hfile⟩ := hinv
    have hentry := hcrash.entries r.path
    rw [hhistory] at hentry
    rw [Fs.observe, List.mem_singleton.mp hentry, Option.map_some,
      hcrash.contents file hfile.synced, hfile.contents]

/-- The first call, where the path is its own temporary file and does not exist. -/
theorem create_in_place (hlen : r.path.length < pathMax) (heq : r.temporary = r.path)
    (hfree : fs₀.entries r.path = none) :
    Reaches r (called fs₀) ⟨fs₀.create r.path, .write fs₀.nextFile 0⟩ := by
  refine .single ⟨{}, ?_⟩
  unfold next called
  dsimp only
  rw [heq, if_neg (Nat.not_le.mpr hlen), if_neg (by simp [hfree])]

/-- `mc_write_atomic` replaces a file atomically exactly when the path leaves room for a
    temporary name, or exists already, or nothing is to be written. -/
theorem writeAtomic_atomic_iff {r : Request} {fs₀ : Fs} (hlen : r.path.length < pathMax)
    (hsettled : Settled fs₀ r.path) :
    Atomic r fs₀ ↔
      r.path.length + 1 < pathMax ∨ fs₀.entries r.path ≠ none ∨ r.data = [] := by
  constructor
  · intro hatomic
    by_contra hcond
    obtain ⟨hlong, hexists, hdata⟩ : ¬r.path.length + 1 < pathMax ∧
        ¬fs₀.entries r.path ≠ none ∧ r.data ≠ [] := by
      simpa only [not_or] using hcond
    have hfree : fs₀.entries r.path = none := not_not.mp hexists
    have heq : r.temporary = r.path := (temporary_eq_path_iff hlen).mpr (by omega)
    -- a reader behind the first call finds an empty file
    rcases hatomic.readers _ _ (create_in_place hlen heq hfree) .refl with hold | hnew
    · simp [Fs.create, Fs.bind, Fs.observe, hfree] at hold
    · simp only [Fs.create, Fs.bind, update_self, Option.map_some,
        Option.some.injEq] at hnew
      exact hdata hnew.symm
  · intro hcond
    refine atomic_of_separate hsettled fun heq => ?_
    have hlong := (temporary_eq_path_iff hlen).mp heq
    exact hcond.resolve_left (by omega)

/-- A file system without files. -/
def emptyFs : Fs where
  entries _ := none
  history _ := [none]
  contents _ := []
  synced _ := true
  nextFile := 0

theorem settled_emptyFs (path : Text) : Settled emptyFs path :=
  ⟨rfl, fun _ h => nomatch h⟩

/-- A file system with one record, `[]`. -/
def recordFs : Fs where
  entries := update (fun _ => none) "state.json".toList (some 0)
  history path := [update (fun _ => none) "state.json".toList (some 0) path]
  contents _ := [91, 93]
  synced _ := true
  nextFile := 1

/-- The record is replaced. -/
theorem writeAtomic_atomic_state :
    recordFs.observe "state.json".toList = some [91, 93] ∧
      Atomic ⟨"state.json".toList, [123, 125], 7⟩ recordFs := by
  refine ⟨rfl, (writeAtomic_atomic_iff (by decide) ⟨rfl, fun file h => ?_⟩).mpr (.inl (by decide))⟩
  obtain rfl : 0 = file := Option.some.inj h
  exact ⟨Nat.one_pos, rfl⟩

/-- A reader of a new file whose path fills the buffer finds it empty before the data is
    there. -/
theorem exists_empty_in_place {path : Text} (hlen : path.length + 1 = pathMax) (data : Bytes)
    (pid : Nat) : ∃ s, Reaches ⟨path, data, pid⟩ (called emptyFs) s ∧
      s.fs.observe path = some [] := by
  have hlt : path.length < pathMax := by omega
  have heq : Request.temporary ⟨path, data, pid⟩ = path :=
    (temporary_eq_path_iff (r := ⟨path, data, pid⟩) hlt).mpr hlen
  refine ⟨_, create_in_place (r := ⟨path, data, pid⟩) hlt heq rfl, ?_⟩
  simp [Fs.observe, Fs.create, Fs.bind]

/-- A path of 273 directories, one character short of `PATH_MAX`. -/
def longPath : Text := (List.replicate 273 "/aaaaaaaaaaaaaa".toList).flatten

theorem length_longPath : longPath.length + 1 = pathMax := by
  have hlen : "/aaaaaaaaaaaaaa".toList.length = 15 := by decide
  unfold longPath
  rw [List.length_flatten, List.map_replicate, List.sum_replicate_nat, hlen]
  rfl

theorem writeAtomic_in_place :
    longPath.length < pathMax ∧ Settled emptyFs longPath ∧
      ∃ s, Reaches ⟨longPath, [123, 125], 7⟩ (called emptyFs) s ∧
        emptyFs.observe longPath = none ∧ s.fs.observe longPath = some [] := by
  obtain ⟨s, hreach, hempty⟩ := exists_empty_in_place length_longPath [123, 125] 7
  exact ⟨by have := length_longPath; omega, settled_emptyFs _, s, hreach, rfl, hempty⟩

end MiniContainer.AtomicWrite
