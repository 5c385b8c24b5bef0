import MiniContainer.Spec.ImageMoves

/-!
# Imports

An import beside other imports and resolutions, each call of which may fail. What it
knows about the store between two of its system calls is stated as an assertion that
the others do not disturb; from these follow the specifications of `mc_write_atomic`,
of the extraction, of the publication and of the whole import.
-/

namespace MiniContainer.Image

open Contract
open CString (Text)
open Function (update update_self)

/-! ## The runs under consideration -/

/-- The answers that the runs under consideration allow. -/
structure Admits (terms : Terms) (w : World) (t : Tid) (o : Op) (r : Res o) : Prop where
  calm : terms.calm t → ∃ ch : Choice, ch.fault = false ∧ (effect ch w t o).1 = r
  apart : terms.apart → ∀ source target, o = .rename source target → target.folder = .names →
    ∀ i, w.entry target = some i → w.placed i = false → w.alive (w.creator i) = false
  missing : terms.exclusive → ∀ digest, o = .accessMarker digest →
    w.folders (.image digest) = false →
      ∀ u, w.builder digest = some u → u = t ∨ w.alive u = false
  free : terms.exclusive → terms.calm t → ∀ p, o = .create p → w.entry p = none

/-- The contract of imports and resolutions. -/
def contract (lib : Libraries) (terms : Terms) : Contract Op Res World where
  inv := Inv lib terms
  rely t _ w w' := ∃ u, u ≠ t ∧ Moves terms u w w'
  guar t _ w w' := Moves terms t w w'
  admits := Admits terms

section Rules

variable {lib : Libraries} {terms : Terms} {t : Tid} {c : Cmd} {pid : Nat}

/-- The assertion of process `t` survives the steps of the others. -/
def Steady (lib : Libraries) (terms : Terms) (t : Tid) (P : World → Prop) : Prop :=
  ∀ u w w', u ≠ t → Inv lib terms w → Moves terms u w w' → P w → P w'

theorem Steady.stable {P : World → Prop} (h : Steady lib terms t P) (o : Op) :
    (contract lib terms).Stable t o P := fun w w' hi _ ⟨u, hu, hm⟩ => h u w w' hu hi hm

/-- The rule for a call. -/
theorem triple_perform {P : World → Prop} {o : Op} {Q : Res o → World → Prop}
    (hP : Steady lib terms t P)
    (ho : ∀ ch w, Inv lib terms w → P w → Admits terms w t o (effect ch w t o).1 →
      Inv lib terms (effect ch w t o).2 ∧ Moves terms t w (effect ch w t o).2 ∧
        Q (effect ch w t o).1 (effect ch w t o).2) :
    (contract lib terms).Triple (machine lib) t P (perform o) Q := by
  refine Triple.perform (hP.stable o) fun ch w r w' hi hw hs ha => ?_
  obtain ⟨rfl, rfl⟩ := Prod.mk.inj (Option.some.inj hs)
  exact ho ch w hi hw ha

/-- A call that leaves the store alone. -/
theorem triple_idle {P : World → Prop} {o : Op} {Q : Res o → World → Prop}
    (hP : Steady lib terms t P) (hidle : ∀ ch w, (effect ch w t o).2 = w)
    (hQ : ∀ ch w, Inv lib terms w → P w → Admits terms w t o (effect ch w t o).1 →
      Q (effect ch w t o).1 w) :
    (contract lib terms).Triple (machine lib) t P (perform o) Q := by
  refine triple_perform hP fun ch w hi hw ha => ?_
  rw [hidle]
  exact ⟨hi, Moves.refl w, hQ ch w hi hw ha⟩

theorem triple_check {P R E : World → Prop} {p : Action Bool} {e : McError}
    (hp : (contract lib terms).Triple (machine lib) t P p fun ok w => if ok then R w else E w) :
    (contract lib terms).Triple (machine lib) t P (check p e).run (Ends (fun _ => R) E) := by
  refine Triple.exceptLift hp fun ok => ?_
  cases ok with
  | true => exact Triple.exceptPure fun _ _ h => h
  | false => exact Triple.exceptThrow fun _ _ h => h

end Rules

/-! ## What an import knows -/

section Import

variable (lib : Libraries) (terms : Terms) (t : Tid) (pid : Nat) (name : Text)
  (archive : ArchiveFile)

/-- Nothing can make the import fail. -/
structure Smooth : Prop where
  exclusive : terms.exclusive
  calm : terms.calm t
  name : validName name = true
  archive : Acceptable lib archive.bytes

/-- The import runs, and there was a reason for it to fail. -/
def Failed (w : World) : Prop :=
  w.Running t (.imageImport name archive) pid ∧ ¬Smooth lib terms t name archive

/-- The import has not found its image. -/
structure Building (w : World) : Prop where
  running : w.Running t (.imageImport name archive) pid
  names : w.folders .names = true
  builds : terms.exclusive → w.folders (.image (lib.digest archive.bytes).text) = true ∨
    w.builder (lib.digest archive.bytes).text = some t
  absent : terms.exclusive → terms.calm t →
    w.folders (.image (lib.digest archive.bytes).text) = false

/-- It puts the image together and has extracted these entries so far. -/
structure Staging (tree : List Entry) (w : World) : Prop where
  building : Building lib terms t pid name archive w
  folder : w.folders (.staging (lib.digest archive.bytes).text pid) = true
  rootfs : w.rootfs (.staging (lib.digest archive.bytes).text pid) = some tree
  source : FromDigest lib (lib.digest archive.bytes).text tree

/-- The import has found or published its image. -/
structure Recording (w : World) : Prop where
  running : w.Running t (.imageImport name archive) pid
  names : w.folders .names = true
  image : w.folders (.image (lib.digest archive.bytes).text) = true

/-- A path that the import writes to: its marker, or its name record. -/
structure Writes (path : Path) (text : Text) (F : World → Prop) : Prop where
  usedBy : path.usedBy pid
  steady : Steady lib terms t F
  running : ∀ w, F w → w.Running t (.imageImport name archive) pid
  folder : ∀ w, F w → w.folders path.folder = true
  /-- What is known besides does not depend on files. -/
  frame : ∀ w w', SameProcs w w' → w'.folders = w.folders → w'.rootfs = w.rootfs →
    w'.builder = w.builder → F w → F w'
  record : path.folder = .names → path.leaf = name ∧
    text = record (lib.digest archive.bytes).text ∧
    ∀ w, F w → w.folders (.image (lib.digest archive.bytes).text) = true

variable {lib terms t pid name archive}

theorem steady_running {c : Cmd} : Steady lib terms t fun w => w.Running t c pid :=
  fun _ _ _ hu _ hm h => h.move hm hu.symm

theorem steady_failed : Steady lib terms t (Failed lib terms t pid name archive) :=
  fun _ _ _ hu _ hm h => ⟨h.1.move hm hu.symm, h.2⟩

theorem World.Running.other {w : World} {c : Cmd} (h : w.Running t c pid) {u : Tid} (hu : u ≠ t) :
    w.live pid ≠ some u := by
  rw [h.live]
  exact fun heq => hu (Option.some.inj heq).symm

theorem steady_building : Steady lib terms t (Building lib terms t pid name archive) := by
  intro u w w' hu hi hm h
  refine ⟨h.running.move hm hu.symm, hm.shared _ (.inl rfl) h.names, fun hexclusive => ?_,
    fun hexclusive hcalm => ?_⟩
  · rcases h.builds hexclusive with himage | hbuilder
    · exact .inl (hm.image _ himage).1
    · cases himage : w.folders (.image (lib.digest archive.bytes).text) with
      | true => exact .inl (hm.image _ himage).1
      | false =>
        exact .inr (hm.builder hexclusive _ t hu.symm himage hbuilder h.running.alive)
  · -- whoever publishes the image is the one that puts it together
    have habsent := h.absent hexclusive hcalm
    by_contra himage
    have hbuilder := hm.published hexclusive _ habsent (Bool.eq_true_of_not_eq_false himage)
    rcases h.builds hexclusive with himage' | hbuilder'
    · exact nomatch habsent.symm.trans himage'
    · exact hu (Option.some.inj (hbuilder.symm.trans hbuilder'))

theorem steady_staging (tree : List Entry) :
    Steady lib terms t (Staging lib terms t pid name archive tree) := by
  intro u w w' hu hi hm h
  obtain ⟨hfolder, -, hrootfs⟩ := hm.staging (lib.digest archive.bytes).text pid
    (h.building.running.other hu)
  exact ⟨steady_building u w w' hu hi hm h.building, hfolder.trans h.folder, hrootfs.trans h.rootfs,
    h.source⟩

theorem steady_recording : Steady lib terms t (Recording lib t pid name archive) :=
  fun _ _ _ hu _ hm h =>
    ⟨h.running.move hm hu.symm, hm.shared _ (.inl rfl) h.names, (hm.image _ h.image).1⟩

/-- A call that leaves the store alone and answers whether it succeeded. -/
theorem triple_call (name : Text) (archive : ArchiveFile) {P : World → Prop} {o : Op}
    (f : Res o → Bool) (hP : Steady lib terms t P)
    (hidle : ∀ ch w, (effect ch w t o).2 = w) (hf : ∀ ch w, f (effect ch w t o).1 = !ch.fault) :
    (contract lib terms).Triple (machine lib) t P (perform o)
      (fun r w => P w ∧ (f r = false → ¬Smooth lib terms t name archive)) := by
  refine triple_idle hP hidle fun ch w _ hw ha => ⟨hw, fun hfault hsmooth => ?_⟩
  obtain ⟨ch', hcalm, heq⟩ := ha.calm hsmooth.calm
  rw [← heq, hf, hcalm] at hfault
  exact nomatch hfault

/-- The same for a call that must succeed. -/
theorem triple_check_call {P : World → Prop} {p : Action Bool} {e : McError}
    (hrun : ∀ w, P w → w.Running t (.imageImport name archive) pid)
    (hp : (contract lib terms).Triple (machine lib) t P p
      (fun ok w => P w ∧ (ok = false → ¬Smooth lib terms t name archive))) :
    (contract lib terms).Triple (machine lib) t P (check p e).run
      (Ends (fun _ => P) (Failed lib terms t pid name archive)) := by
  refine triple_check (hp.conseq (fun _ _ h => h) fun ok w _ h => ?_)
  cases ok with
  | true => exact h.1
  | false => exact ⟨hrun w h.1, h.2 rfl⟩

theorem triple_getpid {P : World → Prop} {c : Cmd} (hP : Steady lib terms t P)
    (hrun : ∀ w, P w → w.Running t c pid) :
    (contract lib terms).Triple (machine lib) t P (perform .getpid) (fun r w => r = pid ∧ P w) :=
  triple_idle hP (fun _ _ => rfl) fun _ w _ hw _ => ⟨(hrun w hw).pidOf, hw⟩

/-! ## Replacing a file -/

/-- The file was put into its place. Only a record can be replaced there. -/
def InPlace (terms : Terms) (t : Tid) (path : Path) (text : Text) (w : World) : Prop :=
  (path.folder = .names → w.Recorded terms t path.leaf) ∧
  (path.folder ≠ .names → ∃ i, i < w.nextFile ∧ w.entry path = some i ∧ w.placed i = true ∧
    w.contents i = text)

section WriteAtomic

variable {path : Path} {text : Text} {F : World → Prop}
  (hw : Writes lib terms t pid name archive path text F)

include hw

theorem Writes.steady_opened (i : Nat) (data : Text) :
    Steady lib terms t fun w => F w ∧ Opened terms t pid path i data w :=
  fun u w w' hu hi hm ⟨hF, ho⟩ => ⟨hw.steady u w w' hu hi hm hF,
    ho.move hw.usedBy hm hu.symm (hw.running w hF)⟩

theorem Writes.steady_inPlace : Steady lib terms t fun w => F w ∧ InPlace terms t path text w := by
  rintro u w w' hu hi hm ⟨hF, hplace⟩
  refine ⟨hw.steady u w w' hu hi hm hF, fun hf => (hplace.1 hf).move hi hm (hm.before t hu.symm),
    fun hf => ?_⟩
  obtain ⟨i, hlt, hi, hplaced, hcontents⟩ := hplace.2 hf
  obtain ⟨digest, hfolder⟩ := hw.usedBy.resolve_left hf
  refine ⟨i, hlt.trans_le hm.nextFile, ?_, hm.placed i hplaced, ?_⟩
  · have hfiles := (hm.staging digest pid ((hw.running w hF).other hu)).2.1
    rw [World.entry, hfolder, hfiles, ← hfolder]
    exact hi
  · rw [hm.contents i hlt (.inr hplaced), hcontents]

/-- The ways out that remove the temporary file. -/
theorem Writes.triple_discard {i : Nat} {data : Text} {e : McError}
    (hnot : ¬Smooth lib terms t name archive) :
    (contract lib terms).Triple (machine lib) t (fun w => F w ∧ Opened terms t pid path i data w)
      (discard (path.temporary pid) e).run
      (Ends (fun _ w => F w ∧ InPlace terms t path text w)
        (Failed lib terms t pid name archive)) := by
  refine Triple.exceptLift (R := fun _ => Failed lib terms t pid name archive)
    (triple_perform (hw.steady_opened i data) fun ch w hi ⟨hF, ho⟩ _ => ?_)
    fun _ => Triple.exceptThrow fun _ _ h => h
  have hrun := hw.running w hF
  simp only [effect]
  split
  · exact ⟨hi, Moves.refl w, hrun, hnot⟩
  · obtain ⟨hi', hm⟩ := keeps_unlink hi hrun hw.usedBy ho
    exact ⟨hi', hm, hrun.same ⟨rfl, rfl, rfl, rfl, rfl⟩, hnot⟩

/-- The rename. -/
theorem Writes.triple_rename (i : Nat) :
    (contract lib terms).Triple (machine lib) t (fun w => F w ∧ Opened terms t pid path i text w)
      (perform (.rename (path.temporary pid) path)) (fun renamed w => if renamed
        then F w ∧ InPlace terms t path text w
        else (F w ∧ Opened terms t pid path i text w) ∧ ¬Smooth lib terms t name archive) := by
  refine triple_perform (hw.steady_opened i text) fun ch w hi ⟨hF, ho⟩ ha => ?_
  obtain ⟨j, hj, hfile⟩ := ho.entry
  have hrun := hw.running w hF
  have heffect : ∀ ch : Choice, effect ch w t (.rename (path.temporary pid) path) =
      if ch.fault then (false, w) else (true, w.rename t (path.temporary pid) path j) := by
    intro ch
    simp only [effect, hj]
  have hcalm := ha.calm
  rw [heffect ch] at hcalm ⊢
  split
  · refine ⟨hi, Moves.refl w, ⟨hF, ho⟩, fun hsmooth => ?_⟩
    obtain ⟨ch', hfault, heq⟩ := hcalm hsmooth.calm
    rw [heffect ch', hfault] at heq
    rename_i hfault'
    rw [if_pos hfault'] at heq
    exact nomatch heq
  · obtain ⟨hi', hm⟩ := keeps_rename hi hrun hw.usedBy ho hj
      (fun hf => ⟨archive, by rw [(hw.record hf).1], (hw.record hf).2.1, (hw.record hf).2.2 w hF⟩)
      (fun hapart hf => ha.apart hapart _ path rfl hf)
    refine ⟨hi', hm, hw.frame w _ ⟨rfl, rfl, rfl, rfl, rfl⟩ rfl rfl rfl hF, fun hf => ?_,
      fun hf => ?_⟩
    · refine ⟨t, ?_, fun _ => ?_⟩
      · show (if path.folder = .names then update w.installed path.leaf (some t)
          else w.installed) path.leaf = some t
        rw [if_pos hf, update_self]
      · by_contra hnot
        exact hi.results.before t t (Bool.eq_true_of_not_eq_false hnot) hrun.unfinished
    obtain rfl := hfile.resolve_right fun h => hf h.1
    exact ⟨j, ho.lt, by rw [World.entry_rename, if_pos rfl], update_self .., ho.contents⟩

/-- The part behind the data. -/
theorem Writes.triple_end (i : Nat) :
    (contract lib terms).Triple (machine lib) t (fun w => F w ∧ Opened terms t pid path i text w)
      (writeAtomicEnd path (path.temporary pid)).run
      (Ends (fun _ w => F w ∧ InPlace terms t path text w)
        (Failed lib terms t pid name archive)) := by
  refine Triple.exceptLift (triple_call name archive id (hw.steady_opened i text)
    (fun _ _ => rfl) fun _ _ => rfl) fun synced => ?_
  cases synced with
  | false => exact fun w hi h => hw.triple_discard (h.2 rfl) w hi h.1
  | true =>
    refine Triple.exceptLift ((hw.triple_rename i).conseq (fun _ _ h => h.1)
      fun _ _ _ h => h) fun renamed => ?_
    cases renamed with
    | false => exact fun w hi h => hw.triple_discard h.2 w hi h.1
    | true =>
      exact triple_check_call (P := fun w => F w ∧ InPlace terms t path text w)
        (fun w h => hw.running w h.1)
        (triple_call name archive (o := .syncDirectory) id hw.steady_inPlace (fun _ _ => rfl)
          fun _ _ => rfl)

/-- The temporary file is created. -/
theorem Writes.triple_create :
    (contract lib terms).Triple (machine lib) t F (perform (.create (path.temporary pid)))
      (fun r w => match r with
        | some i => F w ∧ Opened terms t pid path i [] w
        | none => Failed lib terms t pid name archive w) := by
  refine triple_perform hw.steady fun ch w hi hF ha => ?_
  have hrun := hw.running w hF
  have hfolder : w.folders (path.temporary pid).folder = true := hw.folder w hF
  have heffect : ∀ ch : Choice, effect ch w t (.create (path.temporary pid)) =
      if ch.fault || (w.entry (path.temporary pid)).isSome then (none, w)
      else (some w.nextFile, w.created t (path.temporary pid)) := by
    intro ch
    simp only [effect, hfolder, Bool.not_true, Bool.or_false, World.created]
  have hcalm := ha.calm
  rw [heffect ch] at hcalm ⊢
  split
  · rename_i hrefused
    refine ⟨hi, Moves.refl w, hrun, fun hsmooth => ?_⟩
    obtain ⟨ch', hfault, heq⟩ := hcalm hsmooth.calm
    have hfree := ha.free hsmooth.exclusive hsmooth.calm _ rfl
    rw [heffect ch', hfault, if_pos hrefused, hfree] at heq
    exact nomatch heq
  · rename_i hgranted
    have hfree : w.entry (path.temporary pid) = none := by
      cases h : w.entry (path.temporary pid) with
      | none => rfl
      | some j => simp [h] at hgranted
    obtain ⟨hi', hm, ho⟩ := keeps_create hi hrun hw.usedBy hfree
    exact ⟨hi', hm, hw.frame w _ ⟨rfl, rfl, rfl, rfl, rfl⟩ rfl rfl rfl hF, ho⟩

/-- The data is written. -/
theorem Writes.triple_write (i : Nat) :
    (contract lib terms).Triple (machine lib) t (fun w => F w ∧ Opened terms t pid path i [] w)
      (perform (.write i text)) (fun written w => if written
        then F w ∧ Opened terms t pid path i text w
        else (∃ data, F w ∧ Opened terms t pid path i data w) ∧
          ¬Smooth lib terms t name archive) := by
  refine triple_perform (hw.steady_opened i []) fun ch w hi ⟨hF, ho⟩ ha => ?_
  have hrun := hw.running w hF
  have hdata : ∀ data,
      Inv lib terms { w with contents := update w.contents i (w.contents i ++ data) } ∧
      Moves terms t w { w with contents := update w.contents i (w.contents i ++ data) } ∧
      F { w with contents := update w.contents i (w.contents i ++ data) } ∧
      Opened terms t pid path i data
        { w with contents := update w.contents i (w.contents i ++ data) } := by
    intro data
    obtain ⟨hi', hm, ho'⟩ := keeps_write hi hrun ho (w.contents i ++ data)
    refine ⟨hi', hm, hw.frame w _ ⟨rfl, rfl, rfl, rfl, rfl⟩ rfl rfl rfl hF, ?_⟩
    rwa [ho.contents] at ho' ⊢
  have hcalm := ha.calm
  by_cases hfault : ch.fault = true
  · simp only [effect, hfault, if_true] at hcalm ⊢
    obtain ⟨hi', hm, hF', ho'⟩ := hdata (text.take ch.written)
    refine ⟨hi', hm, ⟨_, hF', ho'⟩, fun hsmooth => ?_⟩
    obtain ⟨ch', hfault', heq⟩ := hcalm hsmooth.calm
    rw [hfault'] at heq
    exact nomatch heq
  · simp only [effect, hfault]
    exact hdata text

/-- `mc_write_atomic`. -/
theorem Writes.triple_writeAtomic :
    (contract lib terms).Triple (machine lib) t F (writeAtomic path text).run
      (Ends (fun _ w => F w ∧ InPlace terms t path text w)
        (Failed lib terms t pid name archive)) := by
  refine Triple.exceptLift (triple_getpid hw.steady hw.running) fun r => ?_
  by_cases hr : r = pid
  · subst hr
    refine Triple.exceptLift (hw.triple_create.conseq (fun _ _ h => h.2)
      fun _ _ _ h => h) fun created => ?_
    cases created with
    | none => exact Triple.exceptThrow fun _ _ h => h
    | some i =>
      refine Triple.exceptLift (hw.triple_write i) fun written => ?_
      cases written with
      | true => exact hw.triple_end i
      | false =>
        rintro w hi ⟨⟨data, h⟩, hnot⟩
        exact hw.triple_discard hnot w hi h
  · exact fun w _ h => absurd h.1 hr

end WriteAtomic

/-! ## Extracting an archive -/

theorem Building.same {w w' : World} (h : Building lib terms t pid name archive w)
    (hsame : SameProcs w w') (hnames : w'.folders .names = w.folders .names)
    (himage : w'.folders (.image (lib.digest archive.bytes).text) =
      w.folders (.image (lib.digest archive.bytes).text))
    (hbuilder : w'.builder = w.builder) : Building lib terms t pid name archive w' where
  running := h.running.same hsame
  names := hnames.trans h.names
  builds := by
    rw [himage, hbuilder]
    exact h.builds
  absent := by
    rw [himage]
    exact h.absent

theorem Staging.same {tree : List Entry} {w w' : World}
    (h : Staging lib terms t pid name archive tree w) (hsame : SameProcs w w')
    (hfolders : w'.folders = w.folders) (hrootfs : w'.rootfs = w.rootfs)
    (hbuilder : w'.builder = w.builder) : Staging lib terms t pid name archive tree w' where
  building := h.building.same hsame (by rw [hfolders]) (by rw [hfolders]) hbuilder
  folder := by rw [hfolders, h.folder]
  rootfs := by rw [hrootfs, h.rootfs]
  source := h.source

/-- The entry that `validate_entry` puts in the place of an entry. -/
def replacement (range : SubidRange) (e : Entry) : Option Entry :=
  (validateEntry range e).toOption.join

/-- One entry is extracted. -/
theorem triple_extract {tree : List Entry} {range : SubidRange} {e : Entry}
    (he : e ∈ accepted lib range archive.bytes) :
    (contract lib terms).Triple (machine lib) t (Staging lib terms t pid name archive tree)
      (perform (.extract (.staging (lib.digest archive.bytes).text pid) e)) (fun extracted w =>
        if extracted then Staging lib terms t pid name archive (tree ++ [e]) w
        else Failed lib terms t pid name archive w) := by
  refine triple_perform (steady_staging tree) fun ch w hi h ha => ?_
  have hsource : FromDigest lib (lib.digest archive.bytes).text (tree ++ [e]) := by
    intro x hx
    rcases List.mem_append.mp hx with hx | hx
    · exact h.source x hx
    · obtain rfl := List.mem_singleton.mp hx
      exact ⟨archive.bytes, range, rfl, he⟩
  obtain ⟨hi', hm⟩ := keeps_rootfs hi h.building.running hsource
  have hcalm := ha.calm
  simp only [effect, h.rootfs] at hcalm ⊢
  by_cases hfault : ch.fault = true
  · rw [hfault] at hcalm ⊢
    have hnot : ¬Smooth lib terms t name archive := by
      intro hsmooth
      obtain ⟨ch', hfault', heq⟩ := hcalm hsmooth.calm
      rw [hfault'] at heq
      exact nomatch heq
    show Inv lib terms (if ch.written = 0 then w else _) ∧
      Moves terms t w (if ch.written = 0 then w else _) ∧
      Failed lib terms t pid name archive (if ch.written = 0 then w else _)
    split
    · exact ⟨hi, Moves.refl w, h.building.running, hnot⟩
    · exact ⟨hi', hm, h.building.running.same ⟨rfl, rfl, rfl, rfl, rfl⟩, hnot⟩
  · rw [Bool.eq_false_iff.mpr hfault]
    exact ⟨hi', hm, h.building.same ⟨rfl, rfl, rfl, rfl, rfl⟩ rfl rfl rfl, h.folder,
      update_self .., hsource⟩

/-- The loop of `extract_archive`. -/
theorem triple_extractEntries (range : SubidRange) (es : List Entry) (tree : List Entry)
    (hes : ∀ e ∈ es, e ∈ (lib.read archive.bytes).1) :
    (contract lib terms).Triple (machine lib) t (Staging lib terms t pid name archive tree)
      (extractEntries lib archive (.staging (lib.digest archive.bytes).text pid) range
        (lib.read archive.bytes).2 es).run
      (Ends (fun _ w => Staging lib terms t pid name archive
          (tree ++ es.filterMap (replacement range)) w ∧ (lib.read archive.bytes).2 = true ∧
          ∀ e ∈ es, (validateEntry range e).isOk = true)
        (Failed lib terms t pid name archive)) := by
  have hheader : ∀ tree, (contract lib terms).Triple (machine lib) t
      (Staging lib terms t pid name archive tree) (perform .nextHeader) (fun ok w =>
        Staging lib terms t pid name archive tree w ∧
          (ok = false → ¬Smooth lib terms t name archive)) := fun tree =>
    triple_call name archive (o := .nextHeader) id (steady_staging tree) (fun _ _ => rfl)
      fun _ _ => rfl
  induction es generalizing tree with
  | nil =>
    refine Triple.exceptLift (hheader tree) fun ended => ?_
    show Contract.Triple _ _ t _
      (if ended && (lib.read archive.bytes).2 then _ else _ : Attempt Unit) _
    split
    · rename_i h
      refine Triple.exceptPure fun w _ hw => ?_
      rw [List.filterMap_nil, List.append_nil]
      exact ⟨hw.1, (Bool.and_eq_true_iff.mp h).2, nofun⟩
    · rename_i h
      refine Triple.exceptThrow fun w _ hw => ⟨hw.1.building.running, fun hsmooth => h ?_⟩
      cases ended with
      | true => exact hsmooth.archive.ends
      | false => exact absurd hsmooth (hw.2 rfl)
  | cons e es ih =>
    have hes' : ∀ e ∈ es, e ∈ (lib.read archive.bytes).1 := fun e he =>
      hes e (List.mem_cons_of_mem _ he)
    refine Triple.exceptLift (hheader tree) fun read => ?_
    cases read with
    | false =>
      exact Triple.exceptThrow fun w _ hw => ⟨hw.1.building.running, hw.2 rfl⟩
    | true =>
      -- what is left to do behind an entry that is accepted
      have hok : ∀ r, validateEntry range e = .ok r → ∀ tree',
          tree' = tree ++ r.toList → (contract lib terms).Triple (machine lib) t
            (Staging lib terms t pid name archive tree')
            (extractEntries lib archive (.staging (lib.digest archive.bytes).text pid) range
              (lib.read archive.bytes).2 es).run
            (Ends (fun _ w => Staging lib terms t pid name archive
                (tree ++ (e :: es).filterMap (replacement range)) w ∧
                (lib.read archive.bytes).2 = true ∧
                ∀ e' ∈ e :: es, (validateEntry range e').isOk = true)
              (Failed lib terms t pid name archive)) := by
        rintro r hr tree' rfl
        refine (ih (tree ++ r.toList) hes').conseq (fun _ _ h => h) fun result w _ h => ?_
        cases result with
        | error error => exact h
        | ok _ =>
          obtain ⟨hstaging, hends, hall⟩ := h
          have hfilter : tree ++ (e :: es).filterMap (replacement range) =
              tree ++ r.toList ++ es.filterMap (replacement range) := by
            have hreplacement : replacement range e = r := by
              rw [replacement, hr]
              cases r <;> rfl
            rw [List.append_assoc]
            cases r with
            | none => rw [List.filterMap_cons_none hreplacement]; rfl
            | some e' => rw [List.filterMap_cons_some hreplacement]; rfl
          refine ⟨hfilter ▸ hstaging, hends, fun e' he' => ?_⟩
          rcases List.mem_cons.mp he' with rfl | he'
          · rw [hr]
            rfl
          · exact hall e' he'
      cases hv : validateEntry range e with
      | error error =>
        refine Triple.exceptThrow fun w _ hw => ⟨hw.1.building.running, fun hsmooth => ?_⟩
        have hvalid := hsmooth.archive.entries range e (hes e List.mem_cons_self)
        rw [hv] at hvalid
        exact nomatch hvalid
      | ok r =>
        cases r with
        | none =>
          exact (hok none hv tree (List.append_nil _).symm).conseq (fun _ _ h => h.1)
            fun _ _ _ h => h
        | some e' =>
          have he' : e' ∈ accepted lib range archive.bytes :=
            List.mem_filterMap.mpr ⟨e, hes e List.mem_cons_self, by rw [hv]; rfl⟩
          refine Triple.exceptLift ((triple_extract he').conseq (fun _ _ h => h.1)
            fun _ _ _ h => h) fun extracted => ?_
          cases extracted with
          | true => exact hok (some e') hv _ rfl
          | false => exact Triple.exceptThrow fun _ _ h => h

/-- The whole archive is in the root file system. -/
def StagedFully (lib : Libraries) (terms : Terms) (t : Tid) (pid : Nat) (name : Text)
    (archive : ArchiveFile) (w : World) : Prop :=
  ∃ tree, Staging lib terms t pid name archive tree w ∧
    Extracted lib (lib.digest archive.bytes).text tree

theorem steady_stagedFully : Steady lib terms t (StagedFully lib terms t pid name archive) :=
  fun u w w' hu hi hm ⟨tree, h, he⟩ => ⟨tree, steady_staging tree u w w' hu hi hm h, he⟩

/-- `extract_archive`. -/
theorem triple_extractArchive (range : SubidRange) (tree : List Entry) :
    (contract lib terms).Triple (machine lib) t (Staging lib terms t pid name archive tree)
      (extractArchive lib archive (.staging (lib.digest archive.bytes).text pid) range).run
      (Ends (fun _ => StagedFully lib terms t pid name archive)
        (Failed lib terms t pid name archive)) := by
  -- what is known behind the loop, whether it succeeded or not
  have hbody : (contract lib terms).Triple (machine lib) t
      (Staging lib terms t pid name archive tree)
      (extractBody lib archive (.staging (lib.digest archive.bytes).text pid) range).run
      (Ends (fun _ => StagedFully lib terms t pid name archive)
        (Failed lib terms t pid name archive)) := by
    refine Triple.exceptBind (triple_check_call (fun w h => h.building.running)
      (triple_call name archive (o := .openArchive) id (steady_staging tree) (fun _ _ => rfl)
        fun _ _ => rfl)) fun _ => ?_
    refine (triple_extractEntries range (lib.read archive.bytes).1 tree fun _ h => h).conseq
      (fun _ _ h => h) fun result w _ h => ?_
    cases result with
    | error error => exact h
    | ok _ =>
      obtain ⟨hstaging, hends, hall⟩ := h
      exact ⟨_, hstaging, hstaging.source, archive.bytes, range, tree, rfl, hends, hall, rfl⟩
  refine Triple.exceptLift hbody fun result => ?_
  have hsteady : Steady lib terms t
      (Ends (fun _ => StagedFully lib terms t pid name archive)
        (Failed lib terms t pid name archive) result) := by
    cases result with
    | error error => exact steady_failed
    | ok _ => exact steady_stagedFully
  refine Triple.exceptLift (triple_call name archive (o := .restoreDirectory) id hsteady
    (fun _ _ => rfl) fun _ _ => rfl) fun restored => ?_
  cases result with
  | error error => exact Triple.exceptThrow fun _ _ h => h.1
  | ok _ =>
    cases restored with
    | true => exact Triple.exceptPure fun _ _ h => h.1
    | false =>
      refine Triple.exceptThrow fun w _ h => ?_
      obtain ⟨tree, hstaging, -⟩ := h.1
      exact ⟨hstaging.building.running, h.2 rfl⟩

/-! ## Publishing an image -/

/-- The directory in which the image is put together. -/
theorem triple_makeStaging :
    (contract lib terms).Triple (machine lib) t (Building lib terms t pid name archive)
      (makeStaging (.staging (lib.digest archive.bytes).text pid)).run
      (Ends (fun _ w => ∃ tree, Staging lib terms t pid name archive tree w)
        (Failed lib terms t pid name archive)) := by
  have hsteady : Steady lib terms t fun w => Building lib terms t pid name archive w ∧
      w.folders (.staging (lib.digest archive.bytes).text pid) = true :=
    fun u w w' hu hi hm h => ⟨steady_building u w w' hu hi hm h.1,
      (hm.staging _ pid (h.1.running.other hu)).1.trans h.2⟩
  refine Triple.exceptBind (triple_check
    (triple_perform steady_building fun ch w hi h ha => ?_)) fun _ =>
    triple_check (triple_perform hsteady fun ch w hi ⟨h, hfolder⟩ ha => ?_)
  · have hcalm := ha.calm
    by_cases hfault : ch.fault = true
    · simp only [effect, hfault, if_true] at hcalm ⊢
      refine ⟨hi, Moves.refl w, h.running, fun hsmooth => ?_⟩
      obtain ⟨ch', hfault', heq⟩ := hcalm hsmooth.calm
      rw [hfault'] at heq
      exact nomatch heq
    · simp only [effect, hfault]
      obtain ⟨hi', hm⟩ := keeps_mkdir hi h.running
        (f := .staging (lib.digest archive.bytes).text pid) (.inr (.inr ⟨_, rfl⟩))
      exact ⟨hi', hm, h.same ⟨rfl, rfl, rfl, rfl, rfl⟩ rfl rfl rfl, update_self ..⟩
  · have hcalm := ha.calm
    by_cases hfault : ch.fault = true
    · simp only [effect, hfault, hfolder, Bool.true_or, if_true] at hcalm ⊢
      refine ⟨hi, Moves.refl w, h.running, fun hsmooth => ?_⟩
      obtain ⟨ch', hfault', heq⟩ := hcalm hsmooth.calm
      rw [hfault'] at heq
      exact nomatch heq
    · simp only [effect, hfault, hfolder]
      have hsource : FromDigest lib (lib.digest archive.bytes).text
          ((w.rootfs (.staging (lib.digest archive.bytes).text pid)).getD []) := by
        cases hroot : w.rootfs (.staging (lib.digest archive.bytes).text pid) with
        | none => exact nofun
        | some tree => exact hi.tidy.staged _ _ tree hroot
      obtain ⟨hi', hm⟩ := keeps_rootfs hi h.running hsource
      exact ⟨hi', hm, _, h.same ⟨rfl, rfl, rfl, rfl, rfl⟩ rfl rfl rfl, hfolder,
        update_self .., hsource⟩

/-- The marker of the image. -/
theorem writes_marker : Writes lib terms t pid name archive
    ⟨.staging (lib.digest archive.bytes).text pid, markerLeaf⟩ (lib.digest archive.bytes).text
    (StagedFully lib terms t pid name archive) where
  usedBy := .inr ⟨_, rfl⟩
  steady := steady_stagedFully
  running := fun _ ⟨_, h, _⟩ => h.building.running
  folder := fun _ ⟨_, h, _⟩ => h.folder
  frame := fun _ _ hsame hfolders hrootfs hbuilder ⟨tree, h, he⟩ =>
    ⟨tree, h.same hsame hfolders hrootfs hbuilder, he⟩
  record := nofun

/-- The rename that publishes the image. -/
theorem triple_publish :
    (contract lib terms).Triple (machine lib) t
        (fun w => StagedFully lib terms t pid name archive w ∧
        InPlace terms t ⟨.staging (lib.digest archive.bytes).text pid, markerLeaf⟩
          (lib.digest archive.bytes).text w)
      (perform (.publish (lib.digest archive.bytes).text pid)) (fun published w =>
        if published then Recording lib t pid name archive w
        else Failed lib terms t pid name archive w) := by
  refine triple_perform writes_marker.steady_inPlace fun ch w hi ⟨⟨tree, h, he⟩, hplace⟩ ha => ?_
  have hrun := h.building.running
  -- an image that is there is not empty
  have heffect : ∀ ch : Choice, effect ch w t (.publish (lib.digest archive.bytes).text pid) =
      if ch.fault || w.folders (.image (lib.digest archive.bytes).text) then (false, w)
      else (true, w.publish (lib.digest archive.bytes).text pid) := by
    intro ch
    simp only [effect, h.folder, Bool.not_true, Bool.or_false]
    cases hf : ch.fault with
    | true => rfl
    | false =>
      cases himage : w.folders (.image (lib.digest archive.bytes).text) with
      | false => rfl
      | true =>
        obtain ⟨tree, hroot, -⟩ := (hi.tidy.image _ himage).rootfs
        simp [World.isEmpty, hroot]
  have hcalm := ha.calm
  rw [heffect ch] at hcalm ⊢
  split
  · rename_i hrefused
    refine ⟨hi, Moves.refl w, hrun, fun hsmooth => ?_⟩
    obtain ⟨ch', hfault, heq⟩ := hcalm hsmooth.calm
    rw [heffect ch', hfault, if_pos hrefused,
      h.building.absent hsmooth.exclusive hsmooth.calm] at heq
    exact nomatch heq
  · rename_i hgranted
    obtain ⟨-, himage⟩ := Bool.or_eq_false_iff.mp (Bool.eq_false_iff.mpr hgranted)
    obtain ⟨i, -, hi₁, hi₂, hi₃⟩ := hplace.2 nofun
    obtain ⟨hi', hm⟩ := keeps_publish hi hrun himage
      (fun hexclusive => (h.building.builds hexclusive).resolve_left (by rw [himage]; exact nofun))
      ⟨i, hi₁, hi₂, hi₃⟩ ⟨tree, h.rootfs, he⟩
    refine ⟨hi', hm, hrun.same ⟨rfl, rfl, rfl, rfl, rfl⟩, ?_, ?_⟩
    · exact h.building.names
    · exact update_self ..

/-- The image is put together and published. -/
theorem triple_publishImage (range : SubidRange) :
    (contract lib terms).Triple (machine lib) t (Building lib terms t pid name archive)
      (publishImage lib archive range (lib.digest archive.bytes).text).run
      (Ends (fun _ => Recording lib t pid name archive)
        (Failed lib terms t pid name archive)) := by
  refine Triple.exceptLift (triple_getpid steady_building fun _ h => h.running) fun r => ?_
  by_cases hr : r = pid
  swap
  · exact fun w _ h => absurd h.1 hr
  subst hr
  refine Triple.exceptBind (triple_makeStaging.conseq (fun _ _ h => h.2)
    fun _ _ _ h => h) fun _ => ?_
  rintro w hi ⟨tree, hstaging⟩
  refine (Triple.exceptBind (triple_check_call (fun w h => h.building.running)
    (triple_call name archive (o := .chown _) id (steady_staging tree) (fun _ _ => rfl)
      fun _ _ => rfl)) fun _ => ?_) w hi hstaging
  refine Triple.exceptBind (triple_extractArchive range tree) fun _ =>
    Triple.exceptBind writes_marker.triple_writeAtomic fun _ => ?_
  have hchmod : ∀ e, (contract lib terms).Triple (machine lib) t (fun w =>
      StagedFully lib terms t r name archive w ∧
        InPlace terms t ⟨.staging (lib.digest archive.bytes).text r, markerLeaf⟩
          (lib.digest archive.bytes).text w)
      (check (perform (.chmod (.staging (lib.digest archive.bytes).text r))) e).run
      (Ends (fun _ w => StagedFully lib terms t r name archive w ∧
        InPlace terms t ⟨.staging (lib.digest archive.bytes).text r, markerLeaf⟩
          (lib.digest archive.bytes).text w) (Failed lib terms t r name archive)) := fun e =>
    triple_check_call (fun w h => writes_marker.running w h.1)
      (triple_call name archive (o := .chmod _) id writes_marker.steady_inPlace (fun _ _ => rfl)
        fun _ _ => rfl)
  exact Triple.exceptBind (hchmod _) fun _ =>
    Triple.exceptBind (hchmod _) fun _ => triple_check triple_publish

/-- The image is looked for, and put together if it is not there. -/
theorem triple_ensureImage (range : SubidRange) :
    (contract lib terms).Triple (machine lib) t (fun w =>
        w.Running t (.imageImport name archive) pid ∧ w.folders .names = true)
      (ensureImage lib archive range (lib.digest archive.bytes).text).run
      (Ends (fun _ => Recording lib t pid name archive)
        (Failed lib terms t pid name archive)) := by
  have hsteady : Steady lib terms t fun w =>
      w.Running t (.imageImport name archive) pid ∧ w.folders .names = true :=
    fun _ _ _ hu _ hm h => ⟨h.1.move hm hu.symm, hm.shared _ (.inl rfl) h.2⟩
  have hmarker : (contract lib terms).Triple (machine lib) t (fun w =>
        w.Running t (.imageImport name archive) pid ∧ w.folders .names = true)
      (perform (.accessMarker (lib.digest archive.bytes).text)) (fun found w =>
        if found then Recording lib t pid name archive w
        else Building lib terms t pid name archive w) := by
    refine triple_perform hsteady fun ch w hi ⟨hrun, hnames⟩ ha => ?_
    have hcalm := ha.calm
    cases hentry : w.entry ⟨.image (lib.digest archive.bytes).text, markerLeaf⟩ with
    | none =>
      have habsent : w.folders (.image (lib.digest archive.bytes).text) = false := by
        by_contra himage
        obtain ⟨i, hi', -⟩ := (hi.tidy.image _ (Bool.eq_true_of_not_eq_false himage)).marker
        exact nomatch hentry.symm.trans hi'
      simp only [effect, hentry, Option.isNone_none, Bool.or_true, if_true]
      obtain ⟨hi', hm⟩ := keeps_missing hi hrun fun hexclusive _ =>
        ha.missing hexclusive _ rfl habsent
      exact ⟨hi', hm, hrun.same ⟨rfl, rfl, rfl, rfl, rfl⟩, hnames,
        fun _ => .inr (update_self ..), fun _ _ => habsent⟩
    | some i =>
      have himage := hi.tidy.housed _ _ i hentry
      by_cases hfault : ch.fault = true
      · simp only [effect, hentry, hfault, Bool.true_or, if_true] at hcalm ⊢
        obtain ⟨hi', hm⟩ := keeps_missing hi hrun fun _ habsent =>
          nomatch himage.symm.trans habsent
        refine ⟨hi', hm, hrun.same ⟨rfl, rfl, rfl, rfl, rfl⟩, hnames, fun _ => .inl himage,
          fun _ hcalm' => ?_⟩
        obtain ⟨ch', hfault', heq⟩ := hcalm hcalm'
        rw [hfault'] at heq
        exact nomatch heq
      · simp only [effect, hentry, hfault]
        exact ⟨hi, Moves.refl w, hrun, hnames, himage⟩
  have himage : (contract lib terms).Triple (machine lib) t (Building lib terms t pid name archive)
      (perform (.accessImage (lib.digest archive.bytes).text)) (fun found w =>
        if found then Failed lib terms t pid name archive w
        else Building lib terms t pid name archive w) := by
    refine triple_idle steady_building (fun _ _ => rfl) fun ch w _ h _ => ?_
    split
    · rename_i hfound
      refine ⟨h.running, fun hsmooth => ?_⟩
      have hfolder : w.folders (.image (lib.digest archive.bytes).text) = true :=
        (Bool.and_eq_true_iff.mp hfound).2
      exact nomatch hfolder.symm.trans (h.absent hsmooth.exclusive hsmooth.calm)
    · exact h
  refine Triple.exceptLift hmarker fun found => ?_
  cases found with
  | true => exact Triple.exceptPure fun _ _ h => h
  | false =>
    refine Triple.exceptLift himage fun found => ?_
    cases found with
    | true => exact Triple.exceptThrow fun _ _ h => h
    | false => exact triple_publishImage range

/-- The name record. -/
theorem writes_record : Writes lib terms t pid name archive ⟨.names, name⟩
    (record (lib.digest archive.bytes).text) (Recording lib t pid name archive) where
  usedBy := .inl rfl
  steady := steady_recording
  running := fun _ h => h.running
  folder := fun _ h => h.names
  frame := fun _ _ hsame hfolders _ _ h =>
    ⟨h.running.same hsame, by rw [hfolders, h.names], by rw [hfolders, h.image]⟩
  record := fun _ => ⟨rfl, rfl, fun _ h => h.image⟩

/-- A directory that all images share is made. -/
theorem triple_makeShared {f : Folder} (hf : f = .names ∨ f = .digests) {P : World → Prop}
    (hP : Steady lib terms t P) (hrun : ∀ w, P w → w.Running t (.imageImport name archive) pid)
    (hframe : ∀ w, P w → P { w with folders := update w.folders f true }) :
    (contract lib terms).Triple (machine lib) t P (makeShared f).run
      (Ends (fun _ w => P w ∧ w.folders f = true) (Failed lib terms t pid name archive)) := by
  refine triple_check (triple_perform hP fun ch w hi hw ha => ?_)
  have hcalm := ha.calm
  by_cases hfault : ch.fault = true
  · simp only [effect, hfault, if_true] at hcalm ⊢
    refine ⟨hi, Moves.refl w, hrun w hw, fun hsmooth => ?_⟩
    obtain ⟨ch', hfault', heq⟩ := hcalm hsmooth.calm
    rw [hfault'] at heq
    exact nomatch heq
  · simp only [effect, hfault]
    obtain ⟨hi', hm⟩ := keeps_mkdir hi (hrun w hw) (f := f) (hf.elim .inl fun h => .inr (.inl h))
    exact ⟨hi', hm, hframe w hw, update_self ..⟩

/-- `mc_image_import`. -/
theorem triple_imageImport :
    (contract lib terms).Triple (machine lib) t
      (fun w => w.Running t (.imageImport name archive) pid) (imageImport lib name archive).run
      (Ends (fun path w => w.Running t (.imageImport name archive) pid ∧
          w.Recorded terms t name ∧ validName name = true ∧
          path = rootfsPath (lib.digest archive.bytes).text)
        (Failed lib terms t pid name archive)) := by
  have hrun : ∀ w : World, w.Running t (.imageImport name archive) pid →
      w.Running t (.imageImport name archive) pid := fun _ h => h
  rw [imageImport]
  split
  · rename_i hinvalid
    refine Triple.exceptThrow fun w _ h => ⟨h, fun hsmooth => ?_⟩
    rw [hsmooth.name] at hinvalid
    exact nomatch hinvalid
  · rename_i hvalid
    have hvalid : validName name = true := by simpa using hvalid
    have hcall : ∀ {p : Action Bool} {e : McError},
        (contract lib terms).Triple (machine lib) t
          (fun w => w.Running t (.imageImport name archive) pid) p
          (fun ok w => w.Running t (.imageImport name archive) pid ∧
            (ok = false → ¬Smooth lib terms t name archive)) →
        (contract lib terms).Triple (machine lib) t
          (fun w => w.Running t (.imageImport name archive) pid) (check p e).run
          (Ends (fun _ w => w.Running t (.imageImport name archive) pid)
            (Failed lib terms t pid name archive)) := fun hp => triple_check_call hrun hp
    refine Triple.exceptBind (hcall (triple_call name archive (o := .stat) id
      steady_running (fun _ _ => rfl) fun _ _ => rfl)) fun _ => ?_
    refine Triple.exceptBind (R := fun _ w => w.Running t (.imageImport name archive) pid)
      ?_ fun _ => ?_
    · -- the digest
      refine Triple.exceptBind (hcall (triple_call name archive (o := .digest .start) id
        steady_running (fun _ _ => rfl) fun _ _ => rfl)) fun _ => ?_
      refine Triple.exceptBind (hcall (triple_call name archive (o := .digest .data) id
        steady_running (fun _ _ => rfl) fun _ _ => rfl)) fun _ => ?_
      exact hcall (triple_call name archive (o := .digest .final) id steady_running
        (fun _ _ => rfl) fun _ _ => rfl)
    refine Triple.exceptBind (R := fun _ w => w.Running t (.imageImport name archive) pid)
      ?_ fun range => ?_
    · -- the range of subordinate IDs
      refine Triple.exceptLift (triple_call name archive (o := .subidRange) Option.isSome
        steady_running (fun _ _ => rfl) fun ch w => ?_) fun range => ?_
      · simp only [effect]
        cases ch.fault <;> rfl
      · cases range with
        | some range => exact Triple.exceptPure fun _ _ h => h.1
        | none => exact Triple.exceptThrow fun _ _ h => ⟨h.1, h.2 rfl⟩
    refine Triple.exceptBind (triple_makeShared (.inr rfl) steady_running hrun
      fun w h => h.same ⟨rfl, rfl, rfl, rfl, rfl⟩) fun _ => ?_
    refine Triple.exceptBind ((triple_makeShared (.inl rfl) steady_running hrun
      fun w h => h.same ⟨rfl, rfl, rfl, rfl, rfl⟩).conseq (fun _ _ h => h.1) fun _ _ _ h => h)
      fun _ => ?_
    refine Triple.exceptBind (triple_ensureImage range) fun _ =>
      Triple.exceptBind writes_record.triple_writeAtomic fun _ => ?_
    exact Triple.exceptPure fun w _ h => ⟨h.1.running, h.2.1 rfl, hvalid, rfl⟩

end Import

end MiniContainer.Image
