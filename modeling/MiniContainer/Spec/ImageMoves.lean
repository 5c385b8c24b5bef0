import MiniContainer.ForStd.List
import MiniContainer.Native.Image
import MiniContainer.Spec.Rules

/-!
# What an import can do to the image store

The invariant of the image store, and what the others can rely on while a process does
one of its system calls: a published image never changes, a directory in which an image
is put together belongs to one process, and a file is written only by the process that
created it, before it is put into its place.

Two of the guarantees hold only in some runs. A record stays where it was installed as
long as records are not installed over temporary files of running imports, and an import
that found its image missing publishes it as long as no other import has found it missing
too. `Terms` says which of the two is to hold.
-/

namespace MiniContainer.Image

open CString (Text decimal)
open Function (update update_apply update_of_ne update_self)

/-! ## Names and records -/

/-- A temporary file belongs to one process. -/
theorem temporaryName_pid {leaf leaf' : Text} {pid pid' : Nat}
    (h : temporaryName leaf pid = temporaryName leaf' pid') : pid = pid' := by
  have hdigits : ∀ (leaf : Text) (pid : Nat),
      (temporaryName leaf pid).reverse.takeWhile Char.isDigit = (decimal pid).reverse := by
    intro leaf pid
    have hall : ∀ c ∈ (decimal pid).reverse, c.isDigit = true := fun c hc =>
      CString.isDigit_of_mem_decimal (List.mem_reverse.mp hc)
    have hdot : (".tmp.".toList).reverse = '.' :: ['p', 'm', 't', '.'] := by decide
    rw [temporaryName, List.reverse_append, List.takeWhile_append_of_pos hall, List.reverse_append,
      hdot, List.cons_append, List.takeWhile_cons_of_neg (by decide), List.append_nil]
  refine CString.decimal_injective (List.reverse_inj.mp ?_)
  rw [← hdigits leaf pid, h, hdigits leaf' pid']

/-- The line of a record. -/
theorem takeWhile_record {digest : Text} (hhex : ∀ c ∈ digest, isHexDigit c = true) :
    (record digest).takeWhile (fun c => c != '\r' && c != '\n') = "sha256:".toList ++ digest := by
  have hline : ∀ c ∈ "sha256:".toList ++ digest, (c != '\r' && c != '\n') = true := by
    intro c hc
    have hletters : ∀ c ∈ "sha256:".toList, (c != '\r' && c != '\n') = true :=
      List.all_eq_true.mp (by decide)
    rcases List.mem_append.mp hc with hc | hc
    · exact hletters c hc
    · -- a hexadecimal digit is not a line break
      have hc := hhex c hc
      by_contra hne
      have hbreak : c = '\r' ∨ c = '\n' := by
        simpa [or_iff_not_imp_left] using hne
      rcases hbreak with rfl | rfl <;> exact absurd hc (by decide)
  unfold record
  rw [List.takeWhile_append_of_pos hline, List.takeWhile_cons_of_neg (by decide), List.append_nil]

/-- A record reads back. -/
theorem parseRecord_record (d : Digest) : parseRecord (record d.text) = some d.text := by
  obtain ⟨digest, hlength, hhex⟩ := d
  have hseven : "sha256:".toList.length = 7 := by decide
  have hrecord : (record digest).length = 72 := by
    unfold record
    rw [List.length_append, List.length_append, hseven, hlength]
    rfl
  have hline : ("sha256:".toList ++ digest).length = 71 := by
    rw [List.length_append, hseven, hlength]
  unfold parseRecord
  rw [List.take_of_length_le (hrecord ▸ by decide), takeWhile_record hhex]
  rw [if_pos ⟨hline, List.isPrefixOf_iff_prefix.mpr (List.prefix_append ..)⟩]
  rw [List.drop_left' hseven]

/-! ## Files -/

namespace World

variable (w : World)

theorem entry_link (p q : Path) (i : Nat) :
    (w.link p i).entry q = if q = p then some i else w.entry q := by
  obtain ⟨f, leaf⟩ := p
  obtain ⟨f', leaf'⟩ := q
  by_cases hf : f' = f
  · subst hf
    simp [entry, link, AList.lookup_insert_eq_ite]
  · simp [entry, link, hf]

theorem entry_unlink (p q : Path) :
    (w.unlink p).entry q = if q = p then none else w.entry q := by
  obtain ⟨f, leaf⟩ := p
  obtain ⟨f', leaf'⟩ := q
  by_cases hf : f' = f
  · subst hf
    simp [entry, unlink, AList.lookup_erase_eq_ite]
  · simp [entry, unlink, hf]

theorem entry_rename (t : Tid) (source target q : Path) (i : Nat) :
    (w.rename t source target i).entry q =
      if q = target then some i else if q = source then none else w.entry q := by
  rw [← entry_unlink w source q, ← entry_link]
  rfl

theorem folders_publish (digest : Text) (pid : Nat) (f : Folder) :
    (w.publish digest pid).folders f =
      if f = .image digest then true
        else if f = .staging digest pid then false else w.folders f := by
  simp only [publish, update_apply]

theorem files_publish (digest : Text) (pid : Nat) (f : Folder) :
    (w.publish digest pid).files f = if f = .image digest then w.files (.staging digest pid)
      else if f = .staging digest pid then ∅ else w.files f := by
  simp only [publish, update_apply]

theorem rootfs_publish (digest : Text) (pid : Nat) (f : Folder) :
    (w.publish digest pid).rootfs f = if f = .image digest then w.rootfs (.staging digest pid)
      else if f = .staging digest pid then none else w.rootfs f := by
  simp only [publish, update_apply]

end World

/-! ## Images -/

section Images

variable (lib : Libraries)

/-- The entries of an archive that are extracted. -/
def accepted (range : SubidRange) (archive : List UInt8) : List Entry :=
  (lib.read archive).1.filterMap fun e => (validateEntry range e).toOption.join

/-- Every entry comes from an archive with this digest. -/
def FromDigest (digest : Text) (tree : List Entry) : Prop :=
  ∀ e ∈ tree, ∃ archive range, (lib.digest archive).text = digest ∧ e ∈ accepted lib range archive

/-- The archive can be extracted. -/
structure Acceptable (archive : List UInt8) : Prop where
  ends : (lib.read archive).2 = true
  entries : ∀ range, ∀ e ∈ (lib.read archive).1, (validateEntry range e).isOk = true

/-- The last thing that was done with the root file system is a complete extraction of an
    archive with this digest, and nothing else was ever extracted there. -/
def Extracted (digest : Text) (tree : List Entry) : Prop :=
  FromDigest lib digest tree ∧ ∃ archive range earlier, (lib.digest archive).text = digest ∧
    (lib.read archive).2 = true ∧
    (∀ e ∈ (lib.read archive).1, (validateEntry range e).isOk = true) ∧
    tree = earlier ++ accepted lib range archive

/-- The image has its marker and a complete root file system. -/
structure World.Complete (w : World) (digest : Text) : Prop where
  marker : ∃ i, w.entry ⟨.image digest, markerLeaf⟩ = some i ∧ w.placed i = true ∧
    w.contents i = digest
  rootfs : ∃ tree, w.rootfs (.image digest) = some tree ∧ Extracted lib digest tree

end Images

/-! ## The invariant -/

/-- What is to hold in the runs under consideration: no record replaces a temporary file of
    a running import, an import puts an image together only if no other one does so, and the
    calls of some processes succeed. -/
structure Terms where
  apart : Prop
  exclusive : Prop
  calm : Tid → Prop

/-- The process runs. -/
structure World.Running (w : World) (t : Tid) (c : Cmd) (pid : Nat) : Prop where
  request : w.requests t = some c
  pidOf : w.pidOf t = pid
  live : w.live pid = some t
  unfinished : w.finished t = none

/-- A process has this process ID now. -/
def World.alive (w : World) (t : Tid) : Bool := w.live (w.pidOf t) == some t

theorem World.Running.alive {w : World} {t : Tid} {c : Cmd} {pid : Nat} (h : w.Running t c pid) :
    w.alive t = true := by
  simp only [World.alive, h.pidOf, h.live, BEq.rfl]

section Invariant

variable (lib : Libraries) (terms : Terms)

/-- The files and directories of the store. -/
structure Tidy (w : World) : Prop where
  image : ∀ digest, w.folders (.image digest) = true → w.Complete lib digest
  staged : ∀ digest pid tree, w.rootfs (.staging digest pid) = some tree →
    FromDigest lib digest tree
  linked : ∀ p i, w.entry p = some i → i < w.nextFile
  single : ∀ p q i, w.entry p = some i → w.entry q = some i → p = q
  housed : ∀ digest leaf i, w.entry ⟨.image digest, leaf⟩ = some i →
    w.folders (.image digest) = true
  placed : ∀ i, w.placed i = true → i < w.nextFile
  records : ∀ name i, w.entry ⟨.names, name⟩ = some i → w.placed i = true →
    ∃ digest, w.contents i = record digest ∧ w.folders (.image digest) = true

/-- A record is where the import has put it that installed it last. -/
def Installed (w : World) : Prop :=
  ∀ name t, w.installed name = some t → ∃ archive i,
    w.requests t = some (.imageImport name archive) ∧ w.entry ⟨.names, name⟩ = some i ∧
    w.placed i = true ∧ w.contents i = record (lib.digest archive.bytes).text

/-- The record of the name was installed, last by an import that had not returned when `t` was
    started. -/
def World.Recorded (w : World) (t : Tid) (name : Text) : Prop :=
  ∃ v, w.installed name = some v ∧ (terms.apart → w.before t v = false)

/-- What has been returned. -/
structure Results (w : World) : Prop where
  requested : ∀ t, w.finished t ≠ none → w.requests t ≠ none
  imported : ∀ t name archive path, w.requests t = some (.imageImport name archive) →
    w.finished t = some (.ok path) →
    validName name = true ∧ path = rootfsPath (lib.digest archive.bytes).text ∧
    w.Recorded terms t name
  before : ∀ r t, w.before r t = true → w.finished t ≠ none
  succeeds : terms.exclusive → ∀ t name archive e, terms.calm t →
    w.requests t = some (.imageImport name archive) → validName name = true →
    Acceptable lib archive.bytes → w.finished t ≠ some (.error e)
  resolved : terms.apart → ∀ r t name archive path result, terms.calm r →
    w.requests r = some (.imageResolve name) → w.requests t = some (.imageImport name archive) →
    w.finished t = some (.ok path) → w.before r t = true → w.installed name = some t →
    w.finished r = some result → result = .ok path

/-- The invariant. -/
structure Inv (w : World) : Prop where
  tidy : Tidy lib w
  installed : terms.apart → Installed lib w
  results : Results lib terms w

end Invariant

/-! ## What the others rely on -/

/-- What a step of process `u` can do. -/
structure Moves (terms : Terms) (u : Tid) (w w' : World) : Prop where
  requests : ∀ t, t ≠ u → w'.requests t = w.requests t
  pidOf : ∀ t, t ≠ u → w'.pidOf t = w.pidOf t
  live : ∀ t, t ≠ u → ∀ pid, w'.live pid = some t ↔ w.live pid = some t
  finished : ∀ t, t ≠ u → w'.finished t = w.finished t
  before : ∀ t, t ≠ u → w'.before t = w.before t
  nextFile : w.nextFile ≤ w'.nextFile
  creator : ∀ i, i < w.nextFile → w'.creator i = w.creator i
  /-- Only files of its own are written, and only before they are in place. -/
  contents : ∀ i, i < w.nextFile → w.creator i ≠ u ∨ w.placed i = true →
    w'.contents i = w.contents i
  placed : ∀ i, w.placed i = true → w'.placed i = true
  unplaced : ∀ i, i < w.nextFile → w.creator i ≠ u → w.placed i = false → w'.placed i = false
  shared : ∀ f, f = .names ∨ f = .digests → w.folders f = true → w'.folders f = true
  image : ∀ digest, w.folders (.image digest) = true → w'.folders (.image digest) = true ∧
    w'.files (.image digest) = w.files (.image digest) ∧
    w'.rootfs (.image digest) = w.rootfs (.image digest)
  /-- The directories of other processes stay as they are. -/
  staging : ∀ digest pid, w.live pid ≠ some u →
    w'.folders (.staging digest pid) = w.folders (.staging digest pid) ∧
    w'.files (.staging digest pid) = w.files (.staging digest pid) ∧
    w'.rootfs (.staging digest pid) = w.rootfs (.staging digest pid)
  /-- A temporary file of another process can only be replaced by a record. -/
  temporary : ∀ name pid, w.live pid ≠ some u →
    w'.entry ⟨.names, temporaryName name pid⟩ = w.entry ⟨.names, temporaryName name pid⟩ ∨
      ∃ j, w'.entry ⟨.names, temporaryName name pid⟩ = some j ∧ w'.placed j = true
  /-- It is not replaced at all while its process runs. -/
  kept : terms.apart → ∀ name i, w.entry ⟨.names, name⟩ = some i → w.placed i = false →
    w.creator i ≠ u → w.alive (w.creator i) = true → w'.entry ⟨.names, name⟩ = some i
  /-- Where another process has installed a record, it stays. -/
  record : terms.apart → ∀ name t, t ≠ u → w'.installed name = some t →
    w.installed name = some t ∧ w'.entry ⟨.names, name⟩ = w.entry ⟨.names, name⟩
  installed : ∀ name, w.installed name ≠ none → w'.installed name ≠ none
  /-- A process that has returned does nothing any more. -/
  ended : w.finished u ≠ none → w'.requests u = w.requests u ∧ w'.finished u = w.finished u ∧
    ∀ name, w'.installed name = some u →
      w.installed name = some u ∧ w'.entry ⟨.names, name⟩ = w.entry ⟨.names, name⟩
  published : terms.exclusive → ∀ digest, w.folders (.image digest) = false →
    w'.folders (.image digest) = true → w.builder digest = some u
  builder : terms.exclusive → ∀ digest t, t ≠ u → w.folders (.image digest) = false →
    w.builder digest = some t → w.alive t = true → w'.builder digest = some t

section Steps

variable {lib : Libraries} {terms : Terms} {u : Tid} {w w' : World} {c : Cmd} {pid : Nat}

theorem Moves.refl (w : World) : Moves terms u w w where
  requests _ _ := rfl
  pidOf _ _ := rfl
  live _ _ _ := Iff.rfl
  finished _ _ := rfl
  before _ _ := rfl
  nextFile := le_rfl
  creator _ _ := rfl
  contents _ _ _ := rfl
  placed _ h := h
  unplaced _ _ _ h := h
  shared _ _ h := h
  image _ h := ⟨h, rfl, rfl⟩
  staging _ _ _ := ⟨rfl, rfl, rfl⟩
  temporary _ _ _ := .inl rfl
  kept _ _ _ h _ _ _ := h
  record _ _ _ _ h := ⟨h, rfl⟩
  installed _ h := h
  ended _ := ⟨rfl, rfl, fun _ h => ⟨h, rfl⟩⟩
  published _ _ h h' := by
    rw [h] at h'
    exact nomatch h'
  builder _ _ _ _ _ h _ := h

/-- The two worlds have the same processes. -/
structure SameProcs (w w' : World) : Prop where
  requests : w'.requests = w.requests
  live : w'.live = w.live
  pidOf : w'.pidOf = w.pidOf
  finished : w'.finished = w.finished
  before : w'.before = w.before

theorem World.Running.same (h : w.Running u c pid) (hsame : SameProcs w w') :
    w'.Running u c pid where
  request := by rw [hsame.requests, h.request]
  pidOf := by rw [hsame.pidOf, h.pidOf]
  live := by rw [hsame.live, h.live]
  unfinished := by rw [hsame.finished, h.unfinished]

/-- A process that runs is not disturbed by the others. -/
theorem World.Running.move {t : Tid} (h : w.Running t c pid) (hm : Moves terms u w w')
    (ht : t ≠ u) : w'.Running t c pid where
  request := by rw [hm.requests t ht, h.request]
  pidOf := by rw [hm.pidOf t ht, h.pidOf]
  live := (hm.live t ht pid).mpr h.live
  unfinished := by rw [hm.finished t ht, h.unfinished]

theorem World.Recorded.move {t : Tid} {name : Text} (hr : w.Recorded terms t name)
    (h : Inv lib terms w) (hm : Moves terms u w w') (hbefore : w'.before t = w.before t) :
    w'.Recorded terms t name := by
  obtain ⟨v, hv, hv'⟩ := hr
  have hsome : w'.installed name ≠ none := hm.installed name (by rw [hv]; exact nofun)
  obtain ⟨v', hinst⟩ := Option.ne_none_iff_exists'.mp hsome
  refine ⟨v', hinst, fun hapart => ?_⟩
  by_contra hnot
  have hreturned : w.before t v' = true := by
    rw [← hbefore]
    exact Bool.eq_true_of_not_eq_false hnot
  -- who has returned installs nothing
  have hold : w.installed name = some v' := by
    by_cases hvu : v' = u
    · subst hvu
      exact ((hm.ended (h.results.before t v' hreturned)).2.2 name hinst).1
    · exact (hm.record hapart name v' hvu hinst).1
  obtain rfl := Option.some.inj (hv.symm.trans hold)
  exact nomatch hreturned.symm.trans (hv' hapart)

/-- The invariant behind a step that ends no process: the files must be tidy, and the records
    that the process itself has installed must be in place. -/
theorem Inv.keep (h : Inv lib terms w) (hrun : w.Running u c pid) (hm : Moves terms u w w')
    (hsame : SameProcs w w') (htidy : Tidy lib w')
    (hown : terms.apart → ∀ name, w'.installed name = some u → ∃ archive i,
      w'.requests u = some (.imageImport name archive) ∧ w'.entry ⟨.names, name⟩ = some i ∧
      w'.placed i = true ∧ w'.contents i = record (lib.digest archive.bytes).text) :
    Inv lib terms w' where
  tidy := htidy
  installed hapart name t ht := by
    by_cases htu : t = u
    · subst htu
      exact hown hapart name ht
    · obtain ⟨hold, hentry⟩ := hm.record hapart name t htu ht
      obtain ⟨archive, i, hreq, hi, hplaced, hcontents⟩ := h.installed hapart name t hold
      refine ⟨archive, i, ?_, hentry.trans hi, hm.placed i hplaced, ?_⟩
      · rw [hsame.requests, hreq]
      · rw [hm.contents i (h.tidy.placed i hplaced) (.inr hplaced), hcontents]
  results := {
    requested := by
      rw [hsame.finished, hsame.requests]
      exact h.results.requested
    imported := by
      rw [hsame.finished, hsame.requests]
      intro t name archive path hreq hpath
      obtain ⟨hvalid, heq, hinst⟩ := h.results.imported t name archive path hreq hpath
      exact ⟨hvalid, heq, hinst.move h hm (by rw [hsame.before])⟩
    before := by
      rw [hsame.finished, hsame.before]
      exact h.results.before
    succeeds := by
      rw [hsame.finished, hsame.requests]
      exact h.results.succeeds
    resolved := by
      rw [hsame.finished, hsame.requests, hsame.before]
      intro hapart r t name archive path result hcalm hr ht hpath hbefore hinst hresult
      -- the import has ended, so it is another process that moves
      have htu : t ≠ u := by
        rintro rfl
        exact nomatch hpath.symm.trans hrun.unfinished
      exact h.results.resolved hapart r t name archive path result hcalm hr ht hpath hbefore
        (hm.record hapart name t htu hinst).1 hresult }

/-- The same when no record is installed and the installed ones stay. -/
theorem Inv.keep_records (h : Inv lib terms w) (hrun : w.Running u c pid)
    (hm : Moves terms u w w') (hsame : SameProcs w w') (htidy : Tidy lib w')
    (hinst : w'.installed = w.installed)
    (hentry : terms.apart → ∀ name i, w.entry ⟨.names, name⟩ = some i → w.placed i = true →
      w'.entry ⟨.names, name⟩ = some i) : Inv lib terms w' := by
  refine h.keep hrun hm hsame htidy fun hapart name hname => ?_
  rw [hinst] at hname
  obtain ⟨archive, i, hreq, hi, hplaced, hcontents⟩ := h.installed hapart name u hname
  refine ⟨archive, i, ?_, hentry hapart name i hi hplaced, hm.placed i hplaced, ?_⟩
  · rw [hsame.requests, hreq]
  · rw [hm.contents i (h.tidy.placed i hplaced) (.inr hplaced), hcontents]

/-! ### Directories -/

/-- A directory is made that only this process uses, or that stays. -/
theorem keeps_mkdir (h : Inv lib terms w) (hrun : w.Running u c pid) {f : Folder}
    (hf : f = .names ∨ f = .digests ∨ ∃ digest, f = .staging digest pid) :
    Inv lib terms { w with folders := update w.folders f true } ∧
      Moves terms u w { w with folders := update w.folders f true } := by
  have himage : ∀ digest, update w.folders f true (.image digest) = w.folders (.image digest) := by
    intro digest
    rcases hf with rfl | rfl | ⟨_, rfl⟩ <;> rfl
  have hm : Moves terms u w { w with folders := update w.folders f true } :=
    { Moves.refl w with
      shared := fun g _ hg => by
        show update w.folders f true g = true
        rw [update_apply]
        split
        · rfl
        · exact hg
      image := fun digest hd => ⟨(himage digest).trans hd, rfl, rfl⟩
      staging := fun digest pid' hpid => by
        refine ⟨?_, rfl, rfl⟩
        rcases hf with rfl | rfl | ⟨_, rfl⟩
        · rfl
        · rfl
        · refine update_of_ne ?_ _ _
          rintro ⟨⟩
          exact hpid hrun.live
      published := fun _ digest hd hd' =>
        nomatch hd.symm.trans ((himage digest).symm.trans hd') }
  have htidy : Tidy lib { w with folders := update w.folders f true } :=
    { image := fun digest hd =>
        ⟨(h.tidy.image digest ((himage digest).symm.trans hd)).marker,
          (h.tidy.image digest ((himage digest).symm.trans hd)).rootfs⟩
      staged := h.tidy.staged
      linked := h.tidy.linked
      single := h.tidy.single
      housed := fun digest leaf i hi => (himage digest).trans (h.tidy.housed digest leaf i hi)
      placed := h.tidy.placed
      records := fun name i hi hplaced => by
        obtain ⟨digest, hcontents, hd⟩ := h.tidy.records name i hi hplaced
        exact ⟨digest, hcontents, (himage digest).trans hd⟩ }
  exact ⟨h.keep_records hrun hm ⟨rfl, rfl, rfl, rfl, rfl⟩ htidy rfl fun _ _ _ hi _ => hi, hm⟩

/-- The root file system of a directory of this process is made, or an entry is extracted. -/
theorem keeps_rootfs (h : Inv lib terms w) (hrun : w.Running u c pid) {digest : Text}
    {tree : List Entry} (htree : FromDigest lib digest tree) :
    Inv lib terms { w with rootfs := update w.rootfs (.staging digest pid) (some tree) } ∧
      Moves terms u w { w with rootfs := update w.rootfs (.staging digest pid) (some tree) } := by
  have hm : Moves terms u w
      { w with rootfs := update w.rootfs (.staging digest pid) (some tree) } :=
    { Moves.refl w with
      image := fun _ hd => ⟨hd, rfl, rfl⟩
      staging := fun digest' pid' hpid => by
        refine ⟨rfl, rfl, update_of_ne ?_ _ _⟩
        rintro ⟨⟩
        exact hpid hrun.live }
  have htidy : Tidy lib { w with rootfs := update w.rootfs (.staging digest pid) (some tree) } :=
    { image := fun digest hd => ⟨(h.tidy.image digest hd).marker, (h.tidy.image digest hd).rootfs⟩
      staged := fun digest' pid' tree' htree' => by
        change update w.rootfs (.staging digest pid) (some tree) (.staging digest' pid') = _
          at htree'
        rw [update_apply] at htree'
        split at htree'
        · rename_i heq
          cases heq
          exact Option.some.inj htree' ▸ htree
        · exact h.tidy.staged digest' pid' tree' htree'
      linked := h.tidy.linked
      single := h.tidy.single
      housed := h.tidy.housed
      placed := h.tidy.placed
      records := h.tidy.records }
  exact ⟨h.keep_records hrun hm ⟨rfl, rfl, rfl, rfl, rfl⟩ htidy rfl fun _ _ _ hi _ => hi, hm⟩

/-- An import finds its image missing. -/
theorem keeps_missing (h : Inv lib terms w) (hrun : w.Running u c pid) {digest : Text}
    (hfree : terms.exclusive → w.folders (.image digest) = false →
      ∀ t, w.builder digest = some t → t = u ∨ w.alive t = false) :
    Inv lib terms { w with builder := update w.builder digest (some u) } ∧
      Moves terms u w { w with builder := update w.builder digest (some u) } := by
  have hm : Moves terms u w { w with builder := update w.builder digest (some u) } :=
    { Moves.refl w with
      builder := fun hexclusive digest' t ht hd hbuilder halive => by
        show update w.builder digest (some u) digest' = some t
        rw [update_apply]
        split
        · rename_i heq
          subst heq
          rcases hfree hexclusive hd t hbuilder with rfl | hdead
          · exact absurd rfl ht
          · exact nomatch halive.symm.trans hdead
        · exact hbuilder }
  have htidy : Tidy lib { w with builder := update w.builder digest (some u) } :=
    { image := fun digest hd => ⟨(h.tidy.image digest hd).marker, (h.tidy.image digest hd).rootfs⟩
      staged := h.tidy.staged
      linked := h.tidy.linked
      single := h.tidy.single
      housed := h.tidy.housed
      placed := h.tidy.placed
      records := h.tidy.records }
  exact ⟨h.keep_records hrun hm ⟨rfl, rfl, rfl, rfl, rfl⟩ htidy rfl fun _ _ _ hi _ => hi, hm⟩

/-- An image that is not there is published from a directory of this process. -/
theorem keeps_publish (h : Inv lib terms w) (hrun : w.Running u c pid) {digest : Text}
    (hmissing : w.folders (.image digest) = false)
    (hbuilder : terms.exclusive → w.builder digest = some u)
    (hmarker : ∃ i, w.entry ⟨.staging digest pid, markerLeaf⟩ = some i ∧ w.placed i = true ∧
      w.contents i = digest)
    (hrootfs : ∃ tree, w.rootfs (.staging digest pid) = some tree ∧ Extracted lib digest tree) :
    Inv lib terms (w.publish digest pid) ∧ Moves terms u w (w.publish digest pid) := by
  have hne : ∀ {digest' : Text}, w.folders (.image digest') = true → digest' ≠ digest := by
    rintro digest' hd rfl
    exact nomatch hd.symm.trans hmissing
  -- every other directory stays as it is
  have hother : ∀ f, f ≠ .image digest → f ≠ .staging digest pid →
      (w.publish digest pid).folders f = w.folders f ∧
      (w.publish digest pid).files f = w.files f ∧
        (w.publish digest pid).rootfs f = w.rootfs f := by
    intro f hf hf'
    rw [World.folders_publish, World.files_publish, World.rootfs_publish]
    simp only [if_neg hf, if_neg hf', and_self]
  have hold : ∀ digest', w.folders (.image digest') = true →
      (w.publish digest pid).folders (.image digest') = true ∧
      (w.publish digest pid).files (.image digest') = w.files (.image digest') ∧
      (w.publish digest pid).rootfs (.image digest') = w.rootfs (.image digest') := by
    intro digest' hd
    obtain ⟨hfolder, hfiles, hroot⟩ := hother (.image digest') (by simpa using hne hd) (by simp)
    exact ⟨hfolder.trans hd, hfiles, hroot⟩
  have hm : Moves terms u w (w.publish digest pid) :=
    { Moves.refl w with
      shared := fun f hf hfolder => by
        rcases hf with rfl | rfl <;> exact hfolder
      image := hold
      staging := fun digest' pid' hpid => by
        refine hother (.staging digest' pid') (by simp) ?_
        rintro ⟨⟩
        exact hpid hrun.live
      published := fun hexclusive digest' hd hd' => by
        by_cases hdigest : digest' = digest
        · subst hdigest
          exact hbuilder hexclusive
        · have hfolder := (hother (.image digest') (by simpa using hdigest) (by simp)).1
          exact nomatch hd.symm.trans (hfolder.symm.trans hd') }
  have hnew : (w.publish digest pid).Complete lib digest := by
    refine ⟨?_, ?_⟩
    · rw [World.entry, World.files_publish, if_pos rfl]
      exact hmarker
    · rw [World.rootfs_publish, if_pos rfl]
      exact hrootfs
  have htidy : Tidy lib (w.publish digest pid) :=
    { image := fun digest' hd => by
        by_cases hdigest : digest' = digest
        · subst hdigest
          exact hnew
        · obtain ⟨hfolder, hfiles, hroot⟩ := hother (.image digest') (by simpa using hdigest)
            (by simp)
          have hcomplete := h.tidy.image digest' (hfolder.symm.trans hd)
          refine ⟨?_, ?_⟩
          · rw [World.entry, hfiles]
            exact hcomplete.marker
          · rw [hroot]
            exact hcomplete.rootfs
      staged := fun digest' pid' tree htree => by
        by_cases hf : Folder.staging digest' pid' = .staging digest pid
        · rw [World.rootfs_publish, if_neg (by simp), if_pos hf] at htree
          exact nomatch htree
        · rw [(hother _ (by simp) hf).2.2] at htree
          exact h.tidy.staged digest' pid' tree htree
      linked := fun p i hi => by
        rw [World.entry, World.files_publish] at hi
        split at hi
        · exact h.tidy.linked ⟨.staging digest pid, p.leaf⟩ i hi
        · split at hi
          · exact nomatch hi
          · exact h.tidy.linked p i hi
      single := fun p q i hp hq => by
        -- the files of the image come from one directory, which is empty now
        obtain ⟨f, leaf⟩ := p
        obtain ⟨f', leaf'⟩ := q
        rw [World.entry, World.files_publish] at hp hq
        have hone : ∀ g g', w.entry ⟨g, leaf⟩ = some i → w.entry ⟨g', leaf'⟩ = some i →
            g = g' ∧ leaf = leaf' := fun g g' hg hg' => by
          simpa using h.tidy.single _ _ i hg hg'
        split at hp
        · rename_i hf
          change f = _ at hf
          split at hq
          · rename_i hf'
            change f' = _ at hf'
            rw [hf, hf', (hone (.staging digest pid) (.staging digest pid) hp hq).2]
          · split at hq
            · exact nomatch hq
            · rename_i hne
              exact absurd (hone (.staging digest pid) f' hp hq).1.symm hne
        · split at hp
          · exact nomatch hp
          · rename_i hne
            split at hq
            · exact absurd (hone f (.staging digest pid) hp hq).1 hne
            · split at hq
              · exact nomatch hq
              · rw [(hone f f' hp hq).1, (hone f f' hp hq).2]
      housed := fun digest' leaf i hi => by
        by_cases hdigest : digest' = digest
        · subst hdigest
          exact update_self ..
        · obtain ⟨hfolder, hfiles, -⟩ := hother (.image digest') (by simpa using hdigest) (by simp)
          rw [World.entry, hfiles] at hi
          exact hfolder.trans (h.tidy.housed digest' leaf i hi)
      placed := h.tidy.placed
      records := fun name i hi hplaced => by
        obtain ⟨digest', hcontents, hd⟩ := h.tidy.records name i hi hplaced
        exact ⟨digest', hcontents, (hold digest' hd).1⟩ }
  exact ⟨h.keep_records hrun hm ⟨rfl, rfl, rfl, rfl, rfl⟩ htidy rfl fun _ _ _ hi _ => hi, hm⟩

/-! ### Files -/

/-- The path belongs to a process: a record, or a file of the directory in which it puts an
    image together. -/
def Path.usedBy (path : Path) (pid : Nat) : Prop :=
  path.folder = .names ∨ ∃ digest, path.folder = .staging digest pid

/-- The process has opened the temporary file and written a text to it. In its place stands
    the file itself; only in some runs a record may have replaced it. -/
structure Opened (terms : Terms) (u : Tid) (pid : Nat) (path : Path) (i : Nat) (text : Text)
    (w : World) : Prop where
  creator : w.creator i = u
  lt : i < w.nextFile
  unplaced : w.placed i = false
  contents : w.contents i = text
  entry : ∃ j, w.entry (path.temporary pid) = some j ∧
    (j = i ∨ (path.folder = .names ∧ ¬terms.apart ∧ w.placed j = true))

theorem Opened.move {t : Tid} {path : Path} {i : Nat} {text : Text} (hpath : path.usedBy pid)
    (ho : Opened terms t pid path i text w) (hm : Moves terms u w w') (ht : t ≠ u)
    (hrun : w.Running t c pid) : Opened terms t pid path i text w' where
  creator := by rw [hm.creator i ho.lt, ho.creator]
  lt := ho.lt.trans_le hm.nextFile
  unplaced := hm.unplaced i ho.lt (by rw [ho.creator]; exact ht) ho.unplaced
  contents := by rw [hm.contents i ho.lt (.inl (by rw [ho.creator]; exact ht)), ho.contents]
  entry := by
    obtain ⟨j, hj, hcases⟩ := ho.entry
    have hother : w.live pid ≠ some u := by
      rw [hrun.live]
      exact fun h => ht (Option.some.inj h)
    obtain ⟨f, leaf⟩ := path
    rcases hpath with hf | ⟨digest, hf⟩
    · change f = _ at hf
      subst hf
      rcases hcases with rfl | ⟨-, hapart, hplaced⟩
      · by_cases hapart : terms.apart
        · refine ⟨j, hm.kept hapart _ j hj ho.unplaced ?_ ?_, .inl rfl⟩
          · rw [ho.creator]
            exact ht
          · rw [ho.creator, hrun.alive]
        · rcases hm.temporary leaf pid hother with hsame | ⟨k, hk, hplaced⟩
          · exact ⟨j, hsame.trans hj, .inl rfl⟩
          · exact ⟨k, hk, .inr ⟨rfl, hapart, hplaced⟩⟩
      · rcases hm.temporary leaf pid hother with hsame | ⟨k, hk, hplaced'⟩
        · exact ⟨j, hsame.trans hj, .inr ⟨rfl, hapart, hm.placed j hplaced⟩⟩
        · exact ⟨k, hk, .inr ⟨rfl, hapart, hplaced'⟩⟩
    · change f = _ at hf
      subst hf
      rcases hcases with rfl | ⟨hf, -, -⟩
      · refine ⟨j, ?_, .inl rfl⟩
        rw [World.entry, Path.temporary, (hm.staging digest pid hother).2.1]
        exact hj
      · exact nomatch hf

/-- Temporary files of different processes have different names. -/
theorem temporary_ne (hrun : w.Running u c pid) {pid' : Nat} (hpid : w.live pid' ≠ some u)
    (name : Text) (path : Path) :
    (⟨.names, temporaryName name pid'⟩ : Path) ≠ path.temporary pid := by
  intro h
  have hleaf : temporaryName name pid' = temporaryName path.leaf pid := congrArg Path.leaf h
  exact hpid (temporaryName_pid hleaf ▸ hrun.live)

/-- The files that change belong to this process, or they are records. -/
theorem Path.usedBy.others {path : Path} (hpath : path.usedBy pid) (hrun : w.Running u c pid) :
    (∀ digest, Folder.image digest ≠ path.folder) ∧
      ∀ digest pid', w.live pid' ≠ some u → Folder.staging digest pid' ≠ path.folder := by
  refine ⟨fun digest h => ?_, fun digest pid' hpid h => ?_⟩
  · rcases hpath with hf | ⟨_, hf⟩ <;> exact nomatch h.trans hf
  · rcases hpath with hf | ⟨_, hf⟩
    · exact nomatch h.trans hf
    · cases h.trans hf
      exact hpid hrun.live

/-- The world in which a process has created a file. -/
def World.created (w : World) (u : Tid) (p : Path) : World :=
  { w.link p w.nextFile with
    contents := update w.contents w.nextFile []
    creator := update w.creator w.nextFile u
    nextFile := w.nextFile + 1 }

theorem World.entry_created (w : World) (u : Tid) (p q : Path) :
    (w.created u p).entry q = if q = p then some w.nextFile else w.entry q :=
  w.entry_link p q w.nextFile

theorem World.files_created (w : World) (u : Tid) {p : Path} {f : Folder} (hf : f ≠ p.folder) :
    (w.created u p).files f = w.files f := update_of_ne hf ..

/-- A temporary file is created. -/
theorem keeps_create (h : Inv lib terms w) (hrun : w.Running u c pid) {path : Path}
    (hpath : path.usedBy pid) (hfree : w.entry (path.temporary pid) = none) :
    Inv lib terms (w.created u (path.temporary pid)) ∧
      Moves terms u w (w.created u (path.temporary pid)) ∧
      Opened terms u pid path w.nextFile [] (w.created u (path.temporary pid)) := by
  obtain ⟨himage, hstaging⟩ := hpath.others hrun
  -- all other entries stay, and the new file has a number of its own
  have hold : ∀ {q i}, w.entry q = some i →
      (w.created u (path.temporary pid)).entry q = some i := by
    intro q i hq
    rw [World.entry_created, if_neg]
    · exact hq
    · rintro rfl
      exact nomatch hfree.symm.trans hq
  have hfiles : ∀ f, f ≠ path.folder → (w.created u (path.temporary pid)).files f = w.files f :=
    fun f hf => w.files_created u hf
  have hlt : ∀ {i}, i < w.nextFile → i ≠ w.nextFile := fun hi => Nat.ne_of_lt hi
  have hm : Moves terms u w (w.created u (path.temporary pid)) :=
    { Moves.refl w with
      nextFile := Nat.le_succ _
      creator := fun i hi => update_of_ne (hlt hi) ..
      contents := fun i hi _ => update_of_ne (hlt hi) ..
      image := fun digest hd => ⟨hd, hfiles _ (himage digest), rfl⟩
      staging := fun digest pid' hpid => ⟨rfl, hfiles _ (hstaging digest pid' hpid), rfl⟩
      temporary := fun name pid' hpid =>
        .inl ((w.entry_created u _ _).trans (if_neg (temporary_ne hrun hpid name path)))
      kept := fun _ name i hi _ _ _ => hold hi
      record := fun hapart name t _ ht => by
        obtain ⟨archive, i, -, hi, -⟩ := h.installed hapart name t ht
        exact ⟨ht, (hold hi).trans hi.symm⟩
      ended := fun hended => absurd hrun.unfinished hended }
  have htidy : Tidy lib (w.created u (path.temporary pid)) :=
    { image := fun digest hd => by
        obtain ⟨⟨i, hi, hplaced, hcontents⟩, hroot⟩ := h.tidy.image digest hd
        refine ⟨⟨i, hold hi, hplaced, ?_⟩, hroot⟩
        exact (update_of_ne (hlt (h.tidy.placed i hplaced)) ..).trans hcontents
      staged := h.tidy.staged
      linked := fun q i hq => by
        rw [World.entry_created] at hq
        split at hq
        · exact Option.some.inj hq ▸ Nat.lt_succ_self _
        · exact Nat.lt_succ_of_lt (h.tidy.linked q i hq)
      single := fun p q i hp hq => by
        rw [World.entry_created] at hp hq
        split at hp
        · split at hq
          · rename_i hp' hq'
            rw [hp', hq']
          · exact absurd (Option.some.inj hp).symm (hlt (h.tidy.linked q i hq))
        · split at hq
          · exact absurd (Option.some.inj hq).symm (hlt (h.tidy.linked p i hp))
          · exact h.tidy.single p q i hp hq
      housed := fun digest leaf i hi => by
        rw [World.entry, hfiles _ (himage digest)] at hi
        exact h.tidy.housed digest leaf i hi
      placed := fun i hi => Nat.lt_succ_of_lt (h.tidy.placed i hi)
      records := fun name i hi hplaced => by
        have hi' := hlt (h.tidy.placed i hplaced)
        rw [World.entry_created] at hi
        split at hi
        · exact absurd (Option.some.inj hi).symm hi'
        · obtain ⟨digest, hcontents, hd⟩ := h.tidy.records name i hi hplaced
          exact ⟨digest, (update_of_ne hi' ..).trans hcontents, hd⟩ }
  refine ⟨h.keep_records hrun hm ⟨rfl, rfl, rfl, rfl, rfl⟩ htidy rfl
    fun _ _ _ hi _ => hold hi, hm, ?_⟩
  exact
    { creator := update_self ..
      lt := Nat.lt_succ_self _
      unplaced := by
        by_contra hplaced
        exact Nat.lt_irrefl _ (h.tidy.placed _ (Bool.eq_true_of_not_eq_false hplaced))
      contents := update_self ..
      entry := ⟨w.nextFile, (w.entry_created u _ _).trans (if_pos rfl), .inl rfl⟩ }

/-- The process writes to the file that it has opened. -/
theorem keeps_write (h : Inv lib terms w) (hrun : w.Running u c pid) {path : Path} {i : Nat}
    {text : Text} (ho : Opened terms u pid path i text w) (text' : Text) :
    Inv lib terms { w with contents := update w.contents i text' } ∧
      Moves terms u w { w with contents := update w.contents i text' } ∧
      Opened terms u pid path i text' { w with contents := update w.contents i text' } := by
  have hne : ∀ {j}, w.placed j = true → j ≠ i := by
    rintro j hj rfl
    exact nomatch hj.symm.trans ho.unplaced
  have hm : Moves terms u w { w with contents := update w.contents i text' } :=
    { Moves.refl w with
      contents := fun j _ hj => by
        refine update_of_ne ?_ _ _
        rintro rfl
        rcases hj with hcreator | hplaced
        · exact hcreator ho.creator
        · exact hne hplaced rfl }
  have htidy : Tidy lib { w with contents := update w.contents i text' } :=
    { image := fun digest hd => by
        obtain ⟨⟨j, hj, hplaced, hcontents⟩, hroot⟩ := h.tidy.image digest hd
        exact ⟨⟨j, hj, hplaced, (update_of_ne (hne hplaced) ..).trans hcontents⟩, hroot⟩
      staged := h.tidy.staged
      linked := h.tidy.linked
      single := h.tidy.single
      housed := h.tidy.housed
      placed := h.tidy.placed
      records := fun name j hj hplaced => by
        obtain ⟨digest, hcontents, hd⟩ := h.tidy.records name j hj hplaced
        exact ⟨digest, (update_of_ne (hne hplaced) ..).trans hcontents, hd⟩ }
  exact ⟨h.keep_records hrun hm ⟨rfl, rfl, rfl, rfl, rfl⟩ htidy rfl fun _ _ _ hj _ => hj, hm,
    ho.creator, ho.lt, ho.unplaced, update_self .., ho.entry⟩

/-- The file in the place of the temporary one was created by this process or is a record. -/
theorem Opened.file {path : Path} {i j : Nat} {text : Text} (ho : Opened terms u pid path i text w)
    (hj : w.entry (path.temporary pid) = some j) :
    j = i ∨ (path.folder = .names ∧ ¬terms.apart ∧ w.placed j = true) := by
  obtain ⟨k, hk, hcases⟩ := ho.entry
  exact Option.some.inj (hk.symm.trans hj) ▸ hcases

/-- While records are kept apart from temporary files, a record of another process does not
    stand in the place of the temporary file. -/
theorem Opened.not_installed (h : Inv lib terms w) (hapart : terms.apart) {path : Path} {i : Nat}
    {text : Text} (ho : Opened terms u pid path i text w) {name : Text} {t : Tid}
    (ht : w.installed name = some t) : (⟨.names, name⟩ : Path) ≠ path.temporary pid := by
  intro hname
  obtain ⟨archive, k, -, hk, hplaced, -⟩ := h.installed hapart name t ht
  rcases ho.file (hname ▸ hk) with rfl | ⟨-, hnot, -⟩
  · exact nomatch hplaced.symm.trans ho.unplaced
  · exact hnot hapart

/-- The temporary file of another process does not stand there either. -/
theorem Opened.not_other (hapart : terms.apart) {path : Path} {i k : Nat} {text : Text}
    (ho : Opened terms u pid path i text w) {q : Path} (hk : w.entry q = some k)
    (hcreator : w.creator k ≠ u) : q ≠ path.temporary pid := by
  rintro rfl
  rcases ho.file hk with rfl | ⟨-, hnot, -⟩
  · exact hcreator ho.creator
  · exact hnot hapart

/-- The temporary file is given its final name. -/
theorem keeps_rename (h : Inv lib terms w) (hrun : w.Running u c pid) {path : Path} {i j : Nat}
    {text : Text} (hpath : path.usedBy pid) (ho : Opened terms u pid path i text w)
    (hj : w.entry (path.temporary pid) = some j)
    (hrecord : path.folder = .names → ∃ archive, c = .imageImport path.leaf archive ∧
      text = record (lib.digest archive.bytes).text ∧
      w.folders (.image (lib.digest archive.bytes).text) = true)
    (hover : terms.apart → path.folder = .names → ∀ k, w.entry path = some k →
      w.placed k = false → w.alive (w.creator k) = false) :
    Inv lib terms (w.rename u (path.temporary pid) path j) ∧
      Moves terms u w (w.rename u (path.temporary pid) path j) := by
  obtain ⟨himage, hstaging⟩ := hpath.others hrun
  have hfile := ho.file hj
  have hentry := w.entry_rename u (path.temporary pid) path
  have hfiles : ∀ f, f ≠ path.folder →
      (w.rename u (path.temporary pid) path j).files f = w.files f := by
    intro f hf
    show update (update w.files path.folder _) path.folder _ f = w.files f
    rw [update_of_ne hf, update_of_ne hf]
  have hplaced : ∀ k, (w.rename u (path.temporary pid) path j).placed k = true →
      k = j ∨ w.placed k = true := by
    intro k hk
    change update w.placed j true k = true at hk
    rw [update_apply] at hk
    split at hk
    · rename_i hkj
      exact .inl hkj
    · exact .inr hk
  have hplaced_mono : ∀ k, w.placed k = true →
      (w.rename u (path.temporary pid) path j).placed k = true := by
    intro k hk
    show update w.placed j true k = true
    rw [update_apply]
    split
    · rfl
    · exact hk
  have hplaced_new : (w.rename u (path.temporary pid) path j).placed j = true :=
    update_self ..
  have hm : Moves terms u w (w.rename u (path.temporary pid) path j) :=
    { Moves.refl w with
      placed := hplaced_mono
      unplaced := fun k _ hcreator hk => by
        by_contra hnot
        rcases hplaced k (Bool.eq_true_of_not_eq_false hnot) with rfl | hk'
        · rcases hfile with rfl | ⟨-, -, hk'⟩
          · exact hcreator ho.creator
          · exact nomatch hk.symm.trans hk'
        · exact nomatch hk.symm.trans hk'
      image := fun digest hd => ⟨hd, hfiles _ (himage digest), rfl⟩
      staging := fun digest pid' hpid => ⟨rfl, hfiles _ (hstaging digest pid' hpid), rfl⟩
      temporary := fun name pid' hpid => by
        rw [hentry, if_neg (temporary_ne hrun hpid name path)]
        split
        · exact .inr ⟨j, rfl, hplaced_new⟩
        · exact .inl rfl
      kept := fun hapart name k hk hk' hcreator halive => by
        rw [hentry, if_neg (ho.not_other hapart hk hcreator)]
        split
        · rename_i hname
          rw [← hname] at hover
          exact nomatch halive.symm.trans (hover hapart rfl k hk hk')
        · exact hk
      record := fun hapart name t ht hinst => by
        have hold : (⟨.names, name⟩ : Path) ≠ path ∧ w.installed name = some t := by
          change (if path.folder = .names then update w.installed path.leaf (some u)
            else w.installed) name = some t at hinst
          split at hinst
          · rw [update_apply] at hinst
            split at hinst
            · exact absurd (Option.some.inj hinst).symm ht
            · rename_i hname
              refine ⟨?_, hinst⟩
              rintro rfl
              exact hname rfl
          · rename_i hf
            refine ⟨?_, hinst⟩
            rintro rfl
            exact hf rfl
        rw [hentry, if_neg hold.1, if_neg (ho.not_installed h hapart hold.2)]
        exact ⟨hold.2, rfl⟩
      installed := fun name hname => by
        show (if path.folder = .names then update w.installed path.leaf (some u)
          else w.installed) name ≠ none
        split
        · rw [update_apply]
          split
          · exact nofun
          · exact hname
        · exact hname
      ended := fun hended => absurd hrun.unfinished hended }
  have htidy : Tidy lib (w.rename u (path.temporary pid) path j) :=
    { image := fun digest hd => by
        obtain ⟨⟨k, hk, hk', hcontents⟩, hroot⟩ := h.tidy.image digest hd
        refine ⟨⟨k, ?_, hplaced_mono k hk', hcontents⟩, hroot⟩
        rw [World.entry, hfiles _ (himage digest)]
        exact hk
      staged := h.tidy.staged
      linked := fun q k hk => by
        rw [hentry] at hk
        split at hk
        · exact Option.some.inj hk ▸ h.tidy.linked _ j hj
        · split at hk
          · exact nomatch hk
          · exact h.tidy.linked q k hk
      single := fun p q k hp hq => by
        rw [hentry] at hp hq
        split at hp
        · split at hq
          · rename_i hp' hq'
            rw [hp', hq']
          · split at hq
            · exact nomatch hq
            · rename_i hne
              exact absurd (h.tidy.single q _ k hq (Option.some.inj hp ▸ hj)) hne
        · split at hp
          · exact nomatch hp
          · rename_i hne
            split at hq
            · exact absurd (h.tidy.single p _ k hp (Option.some.inj hq ▸ hj)) hne
            · split at hq
              · exact nomatch hq
              · exact h.tidy.single p q k hp hq
      housed := fun digest leaf k hk => by
        rw [World.entry, hfiles _ (himage digest)] at hk
        exact h.tidy.housed digest leaf k hk
      placed := fun k hk => by
        rcases hplaced k hk with rfl | hk'
        · exact h.tidy.linked _ k hj
        · exact h.tidy.placed k hk'
      records := fun name k hk hk' => by
        rw [hentry] at hk
        split at hk
        · -- the record that is installed now
          rename_i hname
          cases hk
          rcases hfile with rfl | ⟨hf, -, hj'⟩
          · obtain ⟨archive, -, htext, hd⟩ := hrecord (by rw [← hname])
            exact ⟨_, ho.contents.trans htext, hd⟩
          · have hj'' : w.entry ⟨.names, temporaryName path.leaf pid⟩ = some j := by
              rw [← hf]
              exact hj
            exact h.tidy.records _ j hj'' hj'
        · split at hk
          · exact nomatch hk
          · rename_i hne
            rcases hplaced k hk' with rfl | hk''
            · exact absurd (h.tidy.single _ _ k hk hj) hne
            · exact h.tidy.records name k hk hk'' }
  refine ⟨h.keep hrun hm ⟨rfl, rfl, rfl, rfl, rfl⟩ htidy fun hapart name hinst => ?_, hm⟩
  -- the record of this process: the one that it installs now, or an earlier one
  have hji : j = i := hfile.resolve_right fun hnot => hnot.2.1 hapart
  by_cases hname : (⟨.names, name⟩ : Path) = path
  · obtain ⟨archive, rfl, htext, -⟩ := hrecord (by rw [← hname])
    subst hji
    have hleaf : path.leaf = name := by rw [← hname]
    refine ⟨archive, j, ?_, ?_, hplaced_new, ho.contents.trans htext⟩
    · exact hleaf ▸ hrun.request
    · rw [hentry, if_pos hname]
  · have hold : w.installed name = some u := by
      change (if path.folder = .names then update w.installed path.leaf (some u)
        else w.installed) name = some u at hinst
      split at hinst
      · rename_i hf
        rwa [update_of_ne] at hinst
        rintro rfl
        exact hname (by rw [← hf])
      · exact hinst
    obtain ⟨archive, k, hreq, hk, hk', hcontents⟩ := h.installed hapart name u hold
    refine ⟨archive, k, hreq, ?_, hplaced_mono k hk', hcontents⟩
    rw [hentry, if_neg hname, if_neg (ho.not_installed h hapart hold)]
    exact hk

/-- The temporary file is removed. -/
theorem keeps_unlink (h : Inv lib terms w) (hrun : w.Running u c pid) {path : Path} {i : Nat}
    {text : Text} (hpath : path.usedBy pid) (ho : Opened terms u pid path i text w) :
    Inv lib terms (w.unlink (path.temporary pid)) ∧
      Moves terms u w (w.unlink (path.temporary pid)) := by
  obtain ⟨himage, hstaging⟩ := hpath.others hrun
  have hentry := w.entry_unlink (path.temporary pid)
  have hfiles : ∀ f, f ≠ path.folder → (w.unlink (path.temporary pid)).files f = w.files f :=
    fun f hf => update_of_ne hf ..
  have hold : ∀ {q k}, (w.unlink (path.temporary pid)).entry q = some k → w.entry q = some k := by
    intro q k hk
    rw [hentry] at hk
    split at hk
    · exact nomatch hk
    · exact hk
  have hm : Moves terms u w (w.unlink (path.temporary pid)) :=
    { Moves.refl w with
      image := fun digest hd => ⟨hd, hfiles _ (himage digest), rfl⟩
      staging := fun digest pid' hpid => ⟨rfl, hfiles _ (hstaging digest pid' hpid), rfl⟩
      temporary := fun name pid' hpid =>
        .inl ((hentry _).trans (if_neg (temporary_ne hrun hpid name path)))
      kept := fun hapart name k hk _ hcreator _ => by
        rw [hentry, if_neg (ho.not_other hapart hk hcreator)]
        exact hk
      record := fun hapart name t _ hinst =>
        ⟨hinst, (hentry _).trans (if_neg (ho.not_installed h hapart hinst))⟩
      ended := fun hended => absurd hrun.unfinished hended }
  have htidy : Tidy lib (w.unlink (path.temporary pid)) :=
    { image := fun digest hd => by
        obtain ⟨⟨k, hk, hplaced, hcontents⟩, hroot⟩ := h.tidy.image digest hd
        refine ⟨⟨k, ?_, hplaced, hcontents⟩, hroot⟩
        rw [World.entry, hfiles _ (himage digest)]
        exact hk
      staged := h.tidy.staged
      linked := fun q k hk => h.tidy.linked q k (hold hk)
      single := fun p q k hp hq => h.tidy.single p q k (hold hp) (hold hq)
      housed := fun digest leaf k hk => h.tidy.housed digest leaf k (hold hk)
      placed := h.tidy.placed
      records := fun name k hk hplaced => h.tidy.records name k (hold hk) hplaced }
  refine ⟨h.keep_records hrun hm ⟨rfl, rfl, rfl, rfl, rfl⟩ htidy rfl
    fun hapart name k hk hplaced => ?_, hm⟩
  rw [hentry, if_neg]
  · exact hk
  · rintro hname
    rcases ho.file (hname ▸ hk) with rfl | ⟨-, hnot, -⟩
    · exact nomatch hplaced.symm.trans ho.unplaced
    · exact hnot hapart

/-! ### Processes -/

/-- The files are tidy whoever runs. -/
theorem Tidy.same (h : Tidy lib w) (hfolders : w'.folders = w.folders) (hfiles : w'.files = w.files)
    (hcontents : w'.contents = w.contents) (hnext : w'.nextFile = w.nextFile)
    (hrootfs : w'.rootfs = w.rootfs) (hplaced : w'.placed = w.placed) : Tidy lib w' := by
  have hentry : w'.entry = w.entry := by
    funext p
    rw [World.entry, hfiles, World.entry]
  refine ⟨fun digest hd => ?_, ?_, ?_, ?_, ?_, ?_, ?_⟩
  · obtain ⟨hmarker, hroot⟩ := h.image digest (hfolders ▸ hd)
    exact ⟨by rw [hentry, hplaced, hcontents]; exact hmarker, by rw [hrootfs]; exact hroot⟩
  · rw [hrootfs]
    exact h.staged
  · rw [hentry, hnext]
    exact h.linked
  · rw [hentry]
    exact h.single
  · rw [hentry, hfolders]
    exact h.housed
  · rw [hplaced, hnext]
    exact h.placed
  · rw [hentry, hplaced, hcontents, hfolders]
    exact h.records

theorem moves_leave (w : World) (u : Tid) : Moves terms u w (w.leave u) :=
  { Moves.refl w with
    live := fun t ht pid => by
      show (if w.live pid = some u then none else w.live pid) = some t ↔ _
      split
      · rename_i hlive
        rw [hlive]
        exact ⟨nofun, fun h => absurd (Option.some.inj h).symm ht⟩
      · exact Iff.rfl }

/-- A process is killed. -/
theorem keeps_kill (h : Inv lib terms w) (u : Tid) : Inv lib terms (w.leave u) :=
  ⟨h.tidy.same rfl rfl rfl rfl rfl rfl, h.installed,
    ⟨h.results.requested, h.results.imported, h.results.before, h.results.succeeds,
      h.results.resolved⟩⟩

/-- A process returns. -/
theorem keeps_finish (h : Inv lib terms w) (hrun : w.Running u c pid)
    {result : Except McError Text}
    (himport : ∀ name archive, c = .imageImport name archive →
      match result with
      | .ok path => validName name = true ∧ path = rootfsPath (lib.digest archive.bytes).text ∧
          w.Recorded terms u name
      | .error _ => ¬(terms.exclusive ∧ terms.calm u ∧ validName name = true ∧
          Acceptable lib archive.bytes))
    (hresolve : terms.apart → terms.calm u → ∀ t name archive path, c = .imageResolve name →
      w.requests t = some (.imageImport name archive) → w.finished t = some (.ok path) →
      w.before u t = true → w.installed name = some t → result = .ok path) :
    Inv lib terms { w.leave u with finished := update w.finished u (some result) } ∧
      Moves terms u w { w.leave u with finished := update w.finished u (some result) } := by
  have hm : Moves terms u w { w.leave u with finished := update w.finished u (some result) } :=
    { moves_leave w u with
      finished := fun t ht => update_of_ne ht ..
      ended := fun hended => absurd hrun.unfinished hended }
  -- what is said of another process was said before
  have hother : ∀ t, t ≠ u → update w.finished u (some result) t = w.finished t :=
    fun t ht => update_of_ne ht ..
  have hself : update w.finished u (some result) u = some result := update_self ..
  have hresults :
      Results lib terms { w.leave u with finished := update w.finished u (some result) } :=
    { requested := fun t ht => by
        by_cases htu : t = u
        · subst htu
          show w.requests t ≠ none
          rw [hrun.request]
          exact nofun
        · exact h.results.requested t (hother t htu ▸ ht)
      imported := fun t name archive path hreq hpath => by
        by_cases htu : t = u
        · subst htu
          obtain rfl := Option.some.inj (hself.symm.trans hpath)
          exact himport name archive (Option.some.inj (hrun.request.symm.trans hreq))
        · exact h.results.imported t name archive path hreq ((hother t htu).symm.trans hpath)
      before := fun r t hbefore => by
        by_cases htu : t = u
        · subst htu
          show update w.finished t (some result) t ≠ none
          rw [hself]
          exact nofun
        · show update w.finished u (some result) t ≠ none
          rw [hother t htu]
          exact h.results.before r t hbefore
      succeeds := fun hexclusive t name archive e hcalm hreq hvalid hacceptable he => by
        by_cases htu : t = u
        · subst htu
          obtain rfl := Option.some.inj (hself.symm.trans he)
          exact himport name archive (Option.some.inj (hrun.request.symm.trans hreq))
            ⟨hexclusive, hcalm, hvalid, hacceptable⟩
        · exact h.results.succeeds hexclusive t name archive e hcalm hreq hvalid hacceptable
            ((hother t htu).symm.trans he)
      resolved := fun hapart r t name archive path out hcalm hr ht hpath hbefore hinst hout => by
        -- the import had returned when the resolution began
        have htu : t ≠ u := by
          rintro rfl
          exact h.results.before r t hbefore hrun.unfinished
        have hpath' : w.finished t = some (.ok path) := (hother t htu).symm.trans hpath
        by_cases hru : r = u
        · subst hru
          obtain rfl := Option.some.inj (hself.symm.trans hout)
          exact hresolve hapart hcalm t name archive path
            (Option.some.inj (hrun.request.symm.trans hr)) ht hpath' hbefore hinst
        · exact h.results.resolved hapart r t name archive path out hcalm hr ht hpath' hbefore hinst
            ((hother r hru).symm.trans hout) }
  exact ⟨⟨h.tidy.same rfl rfl rfl rfl rfl rfl, h.installed, hresults⟩, hm⟩

/-- The world with a new process. -/
def World.entered (w : World) (u : Tid) (c : Cmd) (pid : Nat) : World :=
  { w with
    live := update w.live pid (some u)
    pidOf := update w.pidOf u pid
    requests := update w.requests u (some c)
    before := update w.before u fun t => (w.finished t).isSome }

/-- A process is started. -/
theorem keeps_enter (h : Inv lib terms w) {ch : Choice} (henter : enter ch w u c = some w') :
    Inv lib terms w' ∧ Moves terms u w w' ∧ w'.Running u c ch.pid := by
  unfold enter at henter
  split at henter
  · rename_i hfree
    obtain ⟨hpid, hnew⟩ := hfree
    have hpid := Option.isNone_iff_eq_none.mp hpid
    have hnew := Option.isNone_iff_eq_none.mp hnew
    obtain rfl : w.entered u c ch.pid = w' := Option.some.inj henter
    have hunfinished : w.finished u = none := by
      by_contra hne
      exact h.results.requested u hne hnew
    have hm : Moves terms u w (w.entered u c ch.pid) :=
      { Moves.refl w with
        requests := fun t ht => update_of_ne ht ..
        pidOf := fun t ht => update_of_ne ht ..
        before := fun t ht => update_of_ne ht ..
        ended := fun hended => absurd hunfinished hended
        live := fun t ht pid => by
          show update w.live ch.pid (some u) pid = some t ↔ _
          rw [update_apply]
          split
          · rename_i heq
            rw [heq, hpid]
            exact ⟨fun h => absurd (Option.some.inj h).symm ht, nofun⟩
          · exact Iff.rfl }
    have hreq : ∀ t, t ≠ u → update w.requests u (some c) t = w.requests t :=
      fun t ht => update_of_ne ht ..
    -- who has finished is another process
    have hold : ∀ {t result}, w.finished t = some result → t ≠ u := by
      rintro t result ht rfl
      exact nomatch ht.symm.trans hunfinished
    have hresults : Results lib terms (w.entered u c ch.pid) :=
      { requested := fun t ht => by
          obtain ⟨result, hresult⟩ := Option.ne_none_iff_exists'.mp ht
          show update w.requests u (some c) t ≠ none
          rw [hreq t (hold hresult)]
          exact h.results.requested t ht
        imported := fun t name archive path ht hpath => by
          obtain ⟨hvalid, heq, hinst⟩ := h.results.imported t name archive path
            ((hreq t (hold hpath)).symm.trans ht) hpath
          exact ⟨hvalid, heq, hinst.move h hm (hm.before t (hold hpath))⟩
        before := fun r t hbefore => by
          change update w.before u (fun t => (w.finished t).isSome) r t = true at hbefore
          by_cases hru : r = u
          · subst hru
            rw [update_self] at hbefore
            exact Option.isSome_iff_ne_none.mp hbefore
          · rw [update_of_ne hru] at hbefore
            exact h.results.before r t hbefore
        succeeds := fun hexclusive t name archive e hcalm ht hvalid hacceptable he =>
          h.results.succeeds hexclusive t name archive e hcalm
            ((hreq t (hold he)).symm.trans ht) hvalid hacceptable he
        resolved := fun hapart r t name archive path result hcalm hr ht hpath hbefore
            hinst hout => by
          have hru : r ≠ u := hold hout
          have htu : t ≠ u := hold hpath
          refine h.results.resolved hapart r t name archive path result hcalm
            ((hreq r hru).symm.trans hr) ((hreq t htu).symm.trans ht) hpath ?_ hinst hout
          exact (congrFun (update_of_ne hru ..) t).symm.trans hbefore }
    have hinstalled : terms.apart → Installed lib (w.entered u c ch.pid) := by
      intro hapart name t ht
      obtain ⟨archive, i, hrequest, hrest⟩ := h.installed hapart name t ht
      refine ⟨archive, i, (hreq t ?_).trans hrequest, hrest⟩
      rintro rfl
      exact nomatch hnew.symm.trans hrequest
    refine ⟨⟨h.tidy.same rfl rfl rfl rfl rfl rfl, hinstalled, hresults⟩, hm, ?_⟩
    exact ⟨update_self .., update_self .., update_self .., hunfinished⟩
  · exact nomatch henter

end Steps

end MiniContainer.Image
