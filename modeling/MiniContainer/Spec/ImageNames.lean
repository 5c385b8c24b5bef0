import MiniContainer.ForStd.Protocol
import MiniContainer.Spec.ImageStore

/-!
# Image names

The records of images and the temporary files that replace them share a directory. An import
names two files there, its record and its temporary file (`Op.OfCmd`), so it leaves every other
name alone. A name that is a temporary name of another one is not left alone: the import of `foo`
by process 123 puts a record at `foo.tmp.123` before it renames it.

Among names of which none is a temporary name of another one, imports do not disturb each other's
resolutions, and not each other's temporary files (`image_names_independent`).
-/

namespace MiniContainer.Image

open CString (Text)
open Function (update update_of_ne update_self)

/-! ## The calls of a process -/

/-- The files of `names` that an import of this name has to do with. -/
def Op.OfImport (name : Text) : Op → Prop
  | .create p | .unlink p => p.folder = .names → ∃ pid, p.leaf = temporaryName name pid
  | .rename source target => source.folder = target.folder ∧ (target.folder = .names →
      target.leaf = name ∧ ∃ pid, source.leaf = temporaryName name pid)
  | _ => True

/-- The calls of a process. A resolution only looks. -/
def Op.OfCmd : Cmd → Op → Prop
  | .imageImport name _, o => o.OfImport name
  | .imageResolve _, .openName _ | .imageResolve _, .read _ | .imageResolve _, .accessRecorded _
  | .imageResolve _, .finish _ => True
  | .imageResolve _, _ => False

section Uses

variable {α β : Type} {allowed : Op → Prop}

theorem uses_bind {p : Attempt α} {f : α → Attempt β} (hp : p.run.Uses allowed)
    (hf : ∀ a, (f a).run.Uses allowed) : (p >>= f).run.Uses allowed :=
  Prog.Uses.bind hp fun
    | .ok a => hf a
    | .error _ => trivial

theorem uses_lift {p : Action α} {f : α → Attempt β} (hp : p.Uses allowed)
    (hf : ∀ a, (f a).run.Uses allowed) : (ExceptT.lift p >>= f).run.Uses allowed :=
  uses_bind (Prog.Uses.bind hp fun _ => trivial) hf

theorem uses_perform {o : Op} {f : Res o → Attempt β} (ho : allowed o)
    (hf : ∀ r, (f r).run.Uses allowed) : (ExceptT.lift (perform o) >>= f).run.Uses allowed :=
  uses_lift ⟨ho, fun _ => trivial⟩ hf

theorem uses_check {p : Action Bool} {e : McError} (hp : p.Uses allowed) :
    (check p e).run.Uses allowed :=
  uses_lift hp fun
    | true => trivial
    | false => trivial

end Uses

section Programs

variable {name : Text}

theorem uses_discard {path : Path} {e : McError} {pid : Nat}
    (hpath : path.folder = .names → path.leaf = name) :
    (discard (path.temporary pid) e).run.Uses (Op.OfImport name) :=
  uses_perform (fun hf => ⟨pid, by rw [← hpath hf]; rfl⟩) fun _ => trivial

theorem uses_writeAtomicEnd {path : Path} {pid : Nat}
    (hpath : path.folder = .names → path.leaf = name) :
    (writeAtomicEnd path (path.temporary pid)).run.Uses (Op.OfImport name) := by
  refine uses_perform trivial fun
    | true => uses_perform ⟨rfl, fun hf => ⟨hpath hf, pid, ?_⟩⟩ fun
      | true => uses_check ⟨trivial, fun _ => trivial⟩
      | false => uses_discard hpath
    | false => uses_discard hpath
  rw [← hpath hf]
  rfl

/-- `mc_write_atomic` names the file and its temporary file. -/
theorem uses_writeAtomic {path : Path} {data : Text}
    (hpath : path.folder = .names → path.leaf = name) :
    (writeAtomic path data).run.Uses (Op.OfImport name) := by
  refine uses_perform trivial fun pid => uses_perform (fun hf => ⟨pid, ?_⟩) fun
    | none => trivial
    | some file => uses_perform trivial fun
      | true => uses_writeAtomicEnd hpath
      | false => uses_discard hpath
  rw [← hpath hf]
  rfl

theorem uses_extractEntries {lib : Libraries} {archive : ArchiveFile} {f : Folder}
    {range : SubidRange} {intact : Bool} (es : List Entry) :
    (extractEntries lib archive f range intact es).run.Uses (Op.OfImport name) := by
  induction es with
  | nil =>
    refine uses_perform trivial fun ended => ?_
    split <;> trivial
  | cons e es ih =>
    refine uses_perform trivial fun
      | true => ?_
      | false => trivial
    rw [if_pos rfl]
    split
    · trivial
    · exact ih
    · exact uses_perform trivial fun
        | true => ih
        | false => trivial

theorem uses_publishImage {lib : Libraries} {archive : ArchiveFile} {range : SubidRange}
    {digest : Text} : (publishImage lib archive range digest).run.Uses (Op.OfImport name) := by
  refine uses_perform trivial fun pid => uses_bind ?_ fun _ => ?_
  · exact uses_bind (uses_check ⟨trivial, fun _ => trivial⟩) fun _ =>
      uses_check ⟨trivial, fun _ => trivial⟩
  refine uses_bind (uses_check ⟨trivial, fun _ => trivial⟩) fun _ => uses_bind ?_ fun _ => ?_
  · refine uses_lift ?_ fun result => uses_perform trivial fun restored => ?_
    · exact uses_bind (uses_check ⟨trivial, fun _ => trivial⟩) fun _ => uses_extractEntries _
    · split
      · trivial
      · split <;> trivial
  refine uses_bind (uses_writeAtomic fun hf => nomatch hf) fun _ => ?_
  exact uses_bind (uses_check ⟨trivial, fun _ => trivial⟩) fun _ =>
    uses_bind (uses_check ⟨trivial, fun _ => trivial⟩) fun _ =>
      uses_check ⟨trivial, fun _ => trivial⟩

theorem uses_ensureImage {lib : Libraries} {archive : ArchiveFile} {range : SubidRange}
    {digest : Text} : (ensureImage lib archive range digest).run.Uses (Op.OfImport name) :=
  uses_perform trivial fun
    | true => trivial
    | false => uses_perform trivial fun
      | true => trivial
      | false => uses_publishImage

theorem uses_imageImport (lib : Libraries) (name : Text) (archive : ArchiveFile) :
    (imageImport lib name archive).run.Uses (Op.OfImport name) := by
  have hcall : ∀ {o : Op}, o.OfImport name → (perform o).Uses (Op.OfImport name) :=
    fun ho => ⟨ho, fun _ => trivial⟩
  unfold imageImport
  split
  · trivial
  refine uses_bind (uses_check (hcall trivial)) fun _ => uses_bind ?_ fun _ => ?_
  · exact uses_bind (uses_check (hcall trivial)) fun _ =>
      uses_bind (uses_check (hcall trivial)) fun _ => uses_check (hcall trivial)
  refine uses_bind ?_ fun range => ?_
  · exact uses_perform trivial fun
      | some range => trivial
      | none => trivial
  refine uses_bind (uses_check (hcall trivial)) fun _ =>
    uses_bind (uses_check (hcall trivial)) fun _ => uses_bind uses_ensureImage fun _ => ?_
  exact uses_bind (uses_writeAtomic fun _ => rfl) fun _ => trivial

theorem uses_imageResolve (name : Text) :
    (imageResolve name).run.Uses (Op.OfCmd (.imageResolve name)) := by
  unfold imageResolve
  split
  · trivial
  refine uses_perform trivial fun
    | none => trivial
    | some file => uses_perform trivial fun
      | none => trivial
      | some content => ?_
  dsimp only
  split
  · trivial
  · exact uses_perform trivial fun
      | true => trivial
      | false => trivial

/-- A process makes the calls of what it was started for. -/
theorem uses_prog (lib : Libraries) (c : Cmd) : (prog lib c).Uses (Op.OfCmd c) := by
  cases c with
  | imageImport name archive =>
    exact Prog.Uses.bind (uses_imageImport lib name archive) fun _ => ⟨trivial, fun _ => trivial⟩
  | imageResolve name =>
    exact Prog.Uses.bind (uses_imageResolve name) fun _ => ⟨trivial, fun _ => trivial⟩

end Programs

/-! ## What the processes were started for -/

/-- A process keeps its command, and makes the calls of it. -/
def commands : Protocol Op Res (Option Cmd) where
  allows g o := ∃ c, g = some c ∧ o.OfCmd c
  after g _ _ := g

theorem commands_sound (lib : Libraries) : commands.Sound (machine lib) some none (fun _ => True)
    fun w t g => w.requests t = g where
  prog c :=
    have hfollows : (prog lib c).Follows commands (fun _ g => g = some c) (some c) :=
      Prog.Follows.of_uses (uses_prog lib c) fun _ ho => ⟨⟨c, rfl, ho⟩, fun _ => rfl⟩
    hfollows.mono fun _ _ _ => trivial
  own {ch w t o r w' g} hstep _ _ h := by
    have hw : (effect ch w t o).2 = w' := congrArg Prod.snd (Option.some.inj hstep)
    rw [← hw, requests_effect]
    exact h
  others {ch w t o r w' t' g} hstep _ _ h := by
    have hw : (effect ch w t o).2 = w' := congrArg Prod.snd (Option.some.inj hstep)
    rw [← hw, requests_effect]
    exact h
  spawn _ h := nomatch h
  enter {ch w t c w'} h _ := by
    have henter : enter ch w t c = some w' := h
    unfold enter at henter
    split at henter
    · exact Option.some.inj henter ▸ update_self ..
    · exact nomatch henter
  entered {ch w t c w' t' g} h hne hg := by
    have henter : enter ch w t c = some w' := h
    unfold enter at henter
    split at henter
    · cases henter
      exact (update_of_ne hne ..).trans hg
    · exact nomatch henter
  kill h := ⟨_, trivial, h⟩
  killed _ h := h
  env h := nomatch h

section Reachable

variable {lib : Libraries} {ok : Sys Op Res Unit World → Event Choice Cmd → Prop}
  {S S' : Sys Op Res Unit World}

theorem commands_of_reach (h : (machine lib).Reach ok initialSystem S) (t : Tid) :
    commands.Keeps none (fun _ => True) (fun w t g => w.requests t = g) S t :=
  (commands_sound lib).reach
    (fun _ => ⟨fun _ => rfl, fun _ (hp : none = some _) => nomatch hp⟩) h t

/-- The next call of a process is one of those that it was started for. -/
theorem call_of_reach (h : (machine lib).Reach ok initialSystem S) {t : Tid} {o : Op}
    {k : Res o → Action Unit} (hpool : S.pool t = some (.act o k)) :
    ∃ c, S.world.requests t = some c ∧ o.OfCmd c := by
  obtain ⟨g, hfollows, hagrees⟩ := (commands_of_reach h t).2 _ hpool
  obtain ⟨c, rfl, ho⟩ := hfollows.1
  exact ⟨c, hagrees, ho⟩

end Reachable

/-! ## The directory of names -/

/-- What a call can do to the directory. -/
inductive NamesMove (w : World) (t : Tid) : Op → World → Prop where
  | same {o : Op} {w' : World} (files : w'.files .names = w.files .names)
      (creator : ∀ leaf i, w.entry ⟨.names, leaf⟩ = some i → w'.creator i = w.creator i)
      (placed : ∀ leaf i, w.entry ⟨.names, leaf⟩ = some i → w'.placed i = w.placed i)
      (requests : w'.requests = w.requests) : NamesMove w t o w'
  | create {leaf : Text} : NamesMove w t (.create ⟨.names, leaf⟩) (w.created t ⟨.names, leaf⟩)
  | rename {source target : Text} {i : Nat} (h : w.entry ⟨.names, source⟩ = some i) :
      NamesMove w t (.rename ⟨.names, source⟩ ⟨.names, target⟩)
        (w.rename t ⟨.names, source⟩ ⟨.names, target⟩ i)
  | unlink {leaf : Text} : NamesMove w t (.unlink ⟨.names, leaf⟩) (w.unlink ⟨.names, leaf⟩)

theorem namesMove_same {w w' : World} {t : Tid} {o : Op} (files : w'.files = w.files)
    (creator : w'.creator = w.creator) (placed : w'.placed = w.placed)
    (requests : w'.requests = w.requests) : NamesMove w t o w' :=
  .same (congrFun files _) (fun _ i _ => congrFun creator i) (fun _ i _ => congrFun placed i)
    requests

theorem namesMove_effect {lib : Libraries} {w : World} (hi : Tidy lib w) {c : Cmd} {o : Op}
    (ho : o.OfCmd c) (ch : Choice) (t : Tid) : NamesMove w t o (effect ch w t o).2 := by
  cases o with
  | create p =>
    simp only [effect]
    split
    · exact namesMove_same rfl rfl rfl rfl
    · obtain ⟨folder, leaf⟩ := p
      by_cases hf : folder = .names
      · subst hf
        exact .create
      · refine .same (update_of_ne (Ne.symm hf) ..) (fun leaf' i hentry => ?_)
          (fun _ _ _ => rfl) rfl
        exact update_of_ne (Nat.ne_of_lt (hi.linked _ _ hentry)) ..
  | rename source target =>
    have hfolder : source.folder = target.folder := by
      cases c with
      | imageImport name archive => exact ho.1
      | imageResolve name => exact ho.elim
    obtain ⟨folder, leaf⟩ := source
    obtain ⟨folder', leaf'⟩ := target
    obtain rfl : folder = folder' := hfolder
    simp only [effect]
    split
    · exact namesMove_same rfl rfl rfl rfl
    · rename_i file hfile
      split
      · exact namesMove_same rfl rfl rfl rfl
      · by_cases hf : folder = .names
        · subst hf
          exact .rename hfile
        · refine .same ?_ (fun _ _ _ => rfl) (fun leaf₁ i hentry => ?_) rfl
          · exact (update_of_ne (Ne.symm hf) ..).trans
              (update_of_ne (Ne.symm hf) ..)
          · -- the file that is renamed has no other name
            have hne : i ≠ file := by
              rintro rfl
              exact hf (congrArg Path.folder (hi.single _ _ _ hfile hentry))
            exact update_of_ne hne ..
  | unlink p =>
    simp only [effect]
    split
    · exact namesMove_same rfl rfl rfl rfl
    · obtain ⟨folder, leaf⟩ := p
      by_cases hf : folder = .names
      · subst hf
        exact .unlink
      · exact .same (update_of_ne (Ne.symm hf) ..)
          (fun _ _ _ => rfl) (fun _ _ _ => rfl) rfl
  | publish digest pid =>
    simp only [effect]
    split
    · exact namesMove_same rfl rfl rfl rfl
    · split
      · exact namesMove_same rfl rfl rfl rfl
      · refine .same ?_ (fun _ _ _ => rfl) (fun _ _ _ => rfl) rfl
        rw [w.files_publish, if_neg (by simp), if_neg (by simp)]
  | _ =>
    simp only [effect]
    repeat' split
    all_goals exact namesMove_same rfl rfl rfl rfl

/-- No name of the set is a temporary name of another one. -/
def Unrelated (names : Text → Bool) : Prop :=
  ∀ x y, names x = true → names y = true → ∀ pid, x ≠ temporaryName y pid

/-- The name is no temporary name of a name of the set. -/
def FreeOf (names : Text → Bool) (m : Text) : Prop :=
  ∀ y, names y = true → ∀ pid, m ≠ temporaryName y pid

/-- The imports that are started are imports of these names. -/
def importsIn (names : Text → Bool) : Event Choice Cmd → Bool
  | .enter _ (.imageImport x _) _ => names x
  | _ => true

/-- Every file of the directory was created by an import of a name of the set. It is the record of
    that name if it is in place, and otherwise stands at a temporary name of it. -/
structure NamesInv (names : Text → Bool) (w : World) : Prop where
  requests : ∀ t x archive, w.requests t = some (.imageImport x archive) → names x = true
  entries : ∀ leaf i, w.entry ⟨.names, leaf⟩ = some i → ∃ x archive,
    w.requests (w.creator i) = some (.imageImport x archive) ∧
      if w.placed i then leaf = x else ∃ pid, leaf = temporaryName x pid

theorem temporaryName_injective {x y : Text} {pid pid' : Nat}
    (h : temporaryName x pid = temporaryName y pid') : x = y := by
  obtain rfl := temporaryName_pid h
  unfold temporaryName at h
  exact List.append_cancel_right (List.append_cancel_right h)

section Directory

variable {names : Text → Bool} {lib : Libraries} {w w' : World} {t : Tid} {o : Op}

/-- The file of a name that no import uses as a temporary one is a record. -/
theorem NamesInv.placed_of_free (h : NamesInv names w) {m : Text} (hm : FreeOf names m) {i : Nat}
    (hi : w.entry ⟨.names, m⟩ = some i) : w.placed i = true ∧ names m = true := by
  obtain ⟨x, archive, hx, hleaf⟩ := h.entries m i hi
  have hname := h.requests _ x archive hx
  split at hleaf
  · rename_i hplaced
    exact ⟨hplaced, hleaf ▸ hname⟩
  · obtain ⟨pid, hpid⟩ := hleaf
    exact absurd hpid (hm x hname pid)

/-- Every call keeps the names apart. -/
theorem NamesInv.move (hapart : Unrelated names) (h : NamesInv names w) (hi : Tidy lib w)
    {c : Cmd} (hc : w.requests t = some c) (ho : o.OfCmd c) (hmove : NamesMove w t o w') :
    NamesInv names w' := by
  cases hmove with
  | same hfiles hcreator hplaced hrequests =>
    refine ⟨fun u x archive hu => h.requests u x archive (hrequests ▸ hu), fun leaf i hentry => ?_⟩
    have hentry' : w.entry ⟨.names, leaf⟩ = some i := by
      rw [World.entry, ← hfiles]
      exact hentry
    rw [hcreator leaf i hentry', hplaced leaf i hentry', hrequests]
    exact h.entries leaf i hentry'
  | @create leaf =>
    refine ⟨h.requests, fun leaf' i hentry => ?_⟩
    rw [w.entry_created] at hentry
    split at hentry
    · rename_i hpath
      cases hentry
      obtain rfl : leaf' = leaf := congrArg Path.leaf hpath
      -- only imports create files, temporary ones at first
      cases c with
      | imageImport x archive =>
        obtain ⟨pid, hpid⟩ := ho rfl
        have hplaced : w.placed w.nextFile = false := by
          by_contra hne
          exact absurd (hi.placed _ (Bool.eq_true_of_not_eq_false hne)) (Nat.lt_irrefl _)
        refine ⟨x, archive, ?_, ?_⟩
        · show w.requests (update w.creator w.nextFile t w.nextFile) = _
          rw [update_self, hc]
        · show if w.placed w.nextFile then leaf' = x else ∃ pid, leaf' = temporaryName x pid
          rw [hplaced, if_neg Bool.false_ne_true]
          exact ⟨pid, hpid⟩
      | imageResolve x => exact ho.elim
    · have hne : i ≠ w.nextFile := Nat.ne_of_lt (hi.linked _ _ hentry)
      have hcreator : (w.created t ⟨.names, leaf⟩).creator i = w.creator i :=
        update_of_ne hne ..
      rw [hcreator]
      exact h.entries leaf' i hentry
  | @rename source target file hfile =>
    cases c with
    | imageResolve x => exact ho.elim
    | imageImport x archive =>
      obtain ⟨htarget, pid, hsource⟩ := ho.2 rfl
      have hx := h.requests t x archive hc
      refine ⟨h.requests, fun leaf i hentry => ?_⟩
      rw [w.entry_rename] at hentry
      split at hentry
      · -- the temporary file is one of an import of this name
        rename_i hpath
        cases hentry
        obtain ⟨y, archive', hy, hleaf⟩ := h.entries source file hfile
        have hyname := h.requests _ y archive' hy
        have hxy : x = y := by
          split at hleaf
          · exact absurd (hleaf.symm.trans hsource) (hapart y x hyname hx pid)
          · obtain ⟨pid', hpid'⟩ := hleaf
            exact temporaryName_injective (hsource.symm.trans hpid')
        have hplaced : (w.rename t ⟨.names, source⟩ ⟨.names, target⟩ file).placed file = true :=
          update_self ..
        refine ⟨y, archive', hy, ?_⟩
        rw [if_pos hplaced]
        exact ((congrArg Path.leaf hpath).trans htarget).trans hxy
      · split at hentry
        · cases hentry
        · rename_i hnew hold
          have hne : i ≠ file := by
            rintro rfl
            exact hold (hi.single _ _ _ hentry hfile)
          have hplaced : (w.rename t ⟨.names, source⟩ ⟨.names, target⟩ file).placed i =
              w.placed i := update_of_ne hne ..
          rw [hplaced]
          exact h.entries leaf i hentry
  | @unlink leaf =>
    refine ⟨h.requests, fun leaf' i hentry => ?_⟩
    rw [w.entry_unlink] at hentry
    split at hentry
    · cases hentry
    · exact h.entries leaf' i hentry

/-- An import leaves the names alone that are neither its own nor a temporary name of it. -/
theorem entry_move {m x : Text} {archive : ArchiveFile} (ho : o.OfCmd (.imageImport x archive))
    (hne : m ≠ x) (hm : ∀ pid, m ≠ temporaryName x pid) (hmove : NamesMove w t o w') :
    w'.entry ⟨.names, m⟩ = w.entry ⟨.names, m⟩ := by
  cases hmove with
  | same hfiles _ _ _ => rw [World.entry, World.entry, hfiles]
  | @create leaf =>
    obtain ⟨pid, hpid⟩ := ho rfl
    rw [w.entry_created, if_neg fun h => hm pid ((congrArg Path.leaf h).trans hpid)]
  | @rename source target file hfile =>
    obtain ⟨htarget, pid, hsource⟩ := ho.2 rfl
    rw [w.entry_rename, if_neg fun h => hne ((congrArg Path.leaf h).trans htarget),
      if_neg fun h => hm pid ((congrArg Path.leaf h).trans hsource)]
  | @unlink leaf =>
    obtain ⟨pid, hpid⟩ := ho rfl
    rw [w.entry_unlink, if_neg fun h => hm pid ((congrArg Path.leaf h).trans hpid)]

end Directory

/-! ## What a resolution returns -/

/-- What `mc_image_resolve` returns in this store, when nothing fails and nobody interferes. -/
def lookup (w : World) (m : Text) : Except McError Text :=
  if !validName m then .error (errorSet .usage .zero "image-resolve" m "invalid image name")
  else
    match w.entry ⟨.names, m⟩ with
    | none => .error (errorSet .notFound .system "image-resolve" m "image name does not exist")
    | some file =>
      match parseRecord (w.contents file) with
      | none => .error (errorSet .runtime .zero "image-resolve" m
          "image record has an invalid digest")
      | some digest =>
        if (w.entry ⟨.image digest, markerLeaf⟩).isSome then .ok (rootfsPath digest)
        else .error (errorSet .runtime .system "image-resolve" m "image is incomplete")

/-- `mc_image_resolve` behind its `read`. -/
def resolveRead (m : Text) : Option Text → Action (Except McError Text)
  | none => .ret (.error (errorSet .runtime .system "image-resolve" m "cannot read image record"))
  | some content =>
    match parseRecord content with
    | none => .ret (.error (errorSet .runtime .zero "image-resolve" m
        "image record has an invalid digest"))
    | some digest => .act (.accessRecorded digest) fun found =>
        .ret (if found then .ok (rootfsPath digest)
          else .error (errorSet .runtime .system "image-resolve" m "image is incomplete"))

/-- `mc_image_resolve` behind its `open`. -/
def resolveOpened (m : Text) : Option Nat → Action (Except McError Text)
  | none => .ret (.error (errorSet .notFound .system "image-resolve" m
      "image name does not exist"))
  | some file => .act (.read file) (resolveRead m)

theorem imageResolve_run {m : Text} (h : validName m = true) :
    (imageResolve m).run = .act (.openName m) (resolveOpened m) := by
  have hvalid : ¬(!validName m) = true := by simp [h]
  unfold imageResolve
  rw [if_neg hvalid]
  refine congrArg (Prog.act (Op.openName m)) (funext fun file => ?_)
  cases file with
  | none => rfl
  | some file =>
    refine congrArg (Prog.act (Op.read file)) (funext fun content => ?_)
    cases content with
    | none => rfl
    | some content =>
      simp only [resolveRead, Prog.ret_bind, Function.comp_apply, ExceptT.bindCont]
      cases parseRecord content with
      | none => rfl
      | some digest =>
        refine congrArg (Prog.act (Op.accessRecorded digest)) (funext fun found => ?_)
        cases found with
        | true | false => rfl

section Resolution

variable {w w' : World} {m : Text} {r : Tid}

theorem lookup_of_invalid (h : ¬validName m = true) :
    lookup w m = .error (errorSet .usage .zero "image-resolve" m "invalid image name") := by
  rw [lookup, if_pos (by simpa using h)]

theorem lookup_of_free (h : validName m = true) (hfree : w.entry ⟨.names, m⟩ = none) :
    lookup w m =
      .error (errorSet .notFound .system "image-resolve" m "image name does not exist") := by
  rw [lookup, if_neg (by simp [h]), hfree]

theorem lookup_of_entry (h : validName m = true) {file : Nat}
    (hfile : w.entry ⟨.names, m⟩ = some file) : lookup w m =
      match parseRecord (w.contents file) with
      | none => .error (errorSet .runtime .zero "image-resolve" m
          "image record has an invalid digest")
      | some digest =>
        if (w.entry ⟨.image digest, markerLeaf⟩).isSome then .ok (rootfsPath digest)
        else .error (errorSet .runtime .system "image-resolve" m "image is incomplete") := by
  rw [lookup, if_neg (by simp [h]), hfile]

/-- How far a resolution of a valid name has got. -/
inductive Asks (w : World) (m : Text) : Action (Except McError Text) → Prop where
  | start : Asks w m (.act (.openName m) (resolveOpened m))
  | read {file : Nat} (h : w.entry ⟨.names, m⟩ = some file) :
      Asks w m (.act (.read file) (resolveRead m))
  | access {file : Nat} {digest : Text} (h : w.entry ⟨.names, m⟩ = some file)
      (hdigest : parseRecord (w.contents file) = some digest) :
      Asks w m (.act (.accessRecorded digest) fun found =>
        .ret (if found then .ok (rootfsPath digest)
          else .error (errorSet .runtime .system "image-resolve" m "image is incomplete")))
  | done : Asks w m (.ret (lookup w m))

theorem asks_imageResolve (w : World) (m : Text) : Asks w m (imageResolve m).run := by
  by_cases hvalid : validName m = true
  · rw [imageResolve_run hvalid]
    exact .start
  · have hrun : (imageResolve m).run = .ret (lookup w m) := by
      rw [lookup_of_invalid hvalid, imageResolve, if_pos (by simpa using hvalid)]
      rfl
    rw [hrun]
    exact .done

/-- What a resolution returns is what it would find now. -/
theorem Asks.result {result : Except McError Text} (h : Asks w m (.ret result)) :
    result = lookup w m := by
  cases h with
  | done => rfl

/-- A call of a resolution that does not fail. -/
theorem Asks.next (hvalid : validName m = true) {ch : Choice} (hch : ch.fault = false) {o : Op}
    {k : Res o → Action (Except McError Text)} (h : Asks w m (.act o k)) :
    (effect ch w r o).2 = w ∧ Asks w m (k (effect ch w r o).1) := by
  cases h with
  | start =>
    refine ⟨rfl, ?_⟩
    have hanswer : (effect ch w r (.openName m)).1 = w.entry ⟨.names, m⟩ := by
      simp [effect, hch]
    rw [hanswer]
    cases hfile : w.entry ⟨.names, m⟩ with
    | none =>
      have hdone := Asks.done (w := w) (m := m)
      rwa [lookup_of_free hvalid hfile] at hdone
    | some file => exact .read hfile
  | @read file hfile =>
    refine ⟨rfl, ?_⟩
    have hanswer : (effect ch w r (.read file)).1 = some (w.contents file) := by
      simp [effect, hch]
    rw [hanswer, resolveRead]
    cases hdigest : parseRecord (w.contents file) with
    | none =>
      have hdone := Asks.done (w := w) (m := m)
      rwa [lookup_of_entry hvalid hfile, hdigest] at hdone
    | some digest => exact .access hfile hdigest
  | @access file digest hfile hdigest =>
    refine ⟨rfl, ?_⟩
    have hanswer : (effect ch w r (.accessRecorded digest)).1 =
        (w.entry ⟨.image digest, markerLeaf⟩).isSome := by
      simp [effect, hch]
    have hdone := Asks.done (w := w) (m := m)
    rw [lookup_of_entry hvalid hfile, hdigest] at hdone
    rw [hanswer]
    exact hdone

/-- What a resolution of the name looks at is the same. -/
structure SameView (m : Text) (w w' : World) : Prop where
  entry : w'.entry ⟨.names, m⟩ = w.entry ⟨.names, m⟩
  contents : ∀ file, w.entry ⟨.names, m⟩ = some file → w'.contents file = w.contents file
  marker : ∀ file digest, w.entry ⟨.names, m⟩ = some file →
    parseRecord (w.contents file) = some digest →
    w'.entry ⟨.image digest, markerLeaf⟩ = w.entry ⟨.image digest, markerLeaf⟩

theorem SameView.lookup (h : SameView m w w') : lookup w' m = lookup w m := by
  by_cases hvalid : validName m = true
  · cases hfile : w.entry ⟨.names, m⟩ with
    | none => rw [lookup_of_free hvalid hfile, lookup_of_free hvalid (h.entry.trans hfile)]
    | some file =>
      rw [lookup_of_entry hvalid hfile, lookup_of_entry hvalid (h.entry.trans hfile),
        h.contents file hfile]
      cases hdigest : parseRecord (w.contents file) with
      | none => rfl
      | some digest =>
        dsimp only
        rw [h.marker file digest hfile hdigest]
  · rw [lookup_of_invalid hvalid, lookup_of_invalid hvalid]

theorem SameView.asks (h : SameView m w w') {q : Action (Except McError Text)} (hq : Asks w m q) :
    Asks w' m q := by
  cases hq with
  | start => exact .start
  | read hfile => exact .read (h.entry.trans hfile)
  | access hfile hdigest =>
    exact .access (h.entry.trans hfile) (by rw [h.contents _ hfile, hdigest])
  | done =>
    rw [← h.lookup]
    exact .done

end Resolution

/-! ## Runs -/

section Runs

variable {lib : Libraries} {names : Text → Bool} {S S' : Sys Op Res Unit World} {m : Text} {r : Tid}

/-- Nothing is assumed about the runs. -/
def anyRun : Terms := ⟨False, False, fun _ => False⟩

theorem safe_of_reach {ok : Sys Op Res Unit World → Event Choice Cmd → Prop}
    (h : (machine lib).Reach ok initialSystem S) :
    (contract lib anyRun).Sound (machine lib) (fun _ _ => True) ∧
      (contract lib anyRun).SafeSys (machine lib) S := by
  have hsound : (contract lib anyRun).Sound (machine lib) (fun _ _ => True) :=
    sound fun _ _ _ _ _ _ _ => ⟨False.elim, False.elim, False.elim, False.elim⟩
  have hstart : (contract lib anyRun).SafeSys (machine lib) initialSystem :=
    ⟨inv_initial, fun _ _ hp => nomatch hp⟩
  exact ⟨hsound, hsound.reach hstart (h.mono _ fun _ _ _ => trivial)⟩

theorem inv_of_anyRun {ok : Sys Op Res Unit World → Event Choice Cmd → Prop}
    (h : (machine lib).Reach ok initialSystem S) : Inv lib anyRun S.world :=
  (safe_of_reach h).2.1

/-- What a call of a process can do. -/
theorem moves_of_reach {ok : Sys Op Res Unit World → Event Choice Cmd → Prop}
    (h : (machine lib).Reach ok initialSystem S) {t : Tid} {o : Op} {k : Res o → Action Unit}
    (hpool : S.pool t = some (.act o k)) (ch : Choice) :
    Moves anyRun t S.world (effect ch S.world t o).2 := by
  have hstep : (machine lib).step ch S.world t o = some (effect ch S.world t o) := rfl
  exact (safe_of_reach h).1.guar (safe_of_reach h).2 trivial hpool hstep

theorem enter_eq {ch : Choice} {w w' : World} {t : Tid} {c : Cmd} (h : enter ch w t c = some w') :
    w.requests t = none ∧ w' = w.entered t c ch.pid := by
  unfold enter at h
  split at h
  · rename_i hfree
    exact ⟨Option.isNone_iff_eq_none.mp hfree.2, (Option.some.inj h).symm⟩
  · exact nomatch h

theorem namesInv_of_reach (hapart : Unrelated names)
    (h : (machine lib).Reach (fun _ e => importsIn names e = true) initialSystem S) :
    NamesInv names S.world := by
  induction h with
  | refl => exact ⟨nofun, nofun⟩
  | @step S₁ _ _ hreach hok hn ih =>
    have hi := (inv_of_anyRun hreach).tidy
    cases (machine lib).next_inv hn with
    | @act t ch o k a w hpool hstep _ =>
      obtain ⟨c, hc, ho⟩ := call_of_reach hreach hpool
      have hw : (effect ch S₁.world t o).2 = w := congrArg Prod.snd (Option.some.inj hstep)
      rw [← hw]
      exact ih.move hapart hi hc ho (namesMove_effect hi ho ch t)
    | fork _ _ hspawn _ => exact nomatch hspawn
    | @enter t c ch w _ henter =>
      obtain ⟨hfresh, rfl⟩ := enter_eq henter
      refine ⟨fun u x archive hu => ?_, fun leaf i hentry => ?_⟩
      · have hu' : update S₁.world.requests t (some c) u = some (.imageImport x archive) := hu
        rw [Function.update_apply] at hu'
        split at hu'
        · rw [Option.some.inj hu'] at hok
          exact hok
        · exact ih.requests u x archive hu'
      · obtain ⟨x, archive, hx, hleaf⟩ := ih.entries leaf i hentry
        have hne : S₁.world.creator i ≠ t := by
          intro heq
          rw [heq, hfresh] at hx
          exact nomatch hx
        exact ⟨x, archive, (update_of_ne hne ..).trans hx, hleaf⟩
    | kill _ => exact ⟨ih.requests, ih.entries⟩
    | env henv => exact nomatch henv

theorem SameView.of_eq {w w' : World} (hfiles : w'.files = w.files)
    (hcontents : w'.contents = w.contents) : SameView m w w' where
  entry := by rw [World.entry, World.entry, hfiles]
  contents file _ := congrFun hcontents file
  marker file digest _ _ := by rw [World.entry, World.entry, hfiles]

/-- An import of another name does not change what a resolution finds. -/
theorem sameView_import (hapart : Unrelated names)
    (h : (machine lib).Reach (fun _ e => importsIn names e = true) initialSystem S)
    (hm : FreeOf names m) {t : Tid} {o : Op} {k : Res o → Action Unit}
    (hpool : S.pool t = some (.act o k)) {x : Text} {archive : ArchiveFile}
    (hx : S.world.requests t = some (.imageImport x archive)) (hne : m ≠ x) (ch : Choice) :
    SameView m S.world (effect ch S.world t o).2 := by
  obtain ⟨hi, -, -⟩ := inv_of_anyRun h
  have hnames := namesInv_of_reach hapart h
  have hmoves := moves_of_reach h hpool ch
  have ho : o.OfCmd (.imageImport x archive) := by
    obtain ⟨c, hc, ho⟩ := call_of_reach h hpool
    exact Option.some.inj (hc.symm.trans hx) ▸ ho
  refine ⟨?_, fun file hfile => ?_, fun file digest hfile hdigest => ?_⟩
  · exact entry_move ho hne (hm x (hnames.requests t x archive hx)) (namesMove_effect hi ho ch t)
  · exact hmoves.contents file (hi.linked _ _ hfile)
      (.inr (hnames.placed_of_free hm hfile).1)
  · -- the record names an image that is there, and stays
    obtain ⟨digest', hrecord, hfolder⟩ :=
      hi.records m file hfile (hnames.placed_of_free hm hfile).1
    obtain ⟨-, -, -, archive', -, -, hdigest', -⟩ := (hi.image digest' hfolder).rootfs
    rw [hrecord, ← hdigest', parseRecord_record] at hdigest
    cases hdigest
    obtain ⟨-, hfiles, -⟩ := hmoves.image _ (hdigest' ▸ hfolder)
    rw [World.entry, World.entry, hfiles]

theorem sameView_resolve {w : World} {t : Tid} {o : Op} {x : Text}
    (ho : o.OfCmd (.imageResolve x)) (ch : Choice) : SameView m w (effect ch w t o).2 := by
  cases o with
  | openName _ | read _ | accessRecorded _ | finish _ => exact .of_eq rfl rfl
  | _ => exact ho.elim

/-- While a resolution of a name runs: its calls do not fail, and no import of the same name
    acts. -/
def besideOthers (names : Text → Bool) (m : Text) (r : Tid) (S : Sys Op Res Unit World) :
    Event Choice Cmd → Bool
  | .act u ch =>
    if u = r then !ch.fault
    else
      match S.world.requests u with
      | some (.imageImport x _) => x != m
      | _ => true
  | .enter u c ch => importsIn names (.enter u c ch) && (u != r || c == .imageResolve m)
  | .kill _ | .env _ => true

/-- Where the resolution stands: it is not there yet, it has found what it would find now, or it
    has ended and returned that. -/
inductive Resolves (m : Text) (r : Tid) (S : Sys Op Res Unit World) : Prop where
  | absent (hpool : S.pool r = none) (hfinished : S.world.finished r = none)
  | asking {q : Action (Except McError Text)}
      (hpool : S.pool r = some (q.bind fun result => perform (.finish result)))
      (hfinished : S.world.finished r = none) (hasks : Asks S.world m q)
  | ended (hpool : S.pool r = some (.ret ()))
      (hfinished : ∀ result, S.world.finished r = some result → result = lookup S.world m)

/-- Another process acts. -/
theorem Resolves.watch {pool : Tid → Option (Action Unit)} {w : World} (h : Resolves m r S)
    (hview : SameView m S.world w) (hpool : pool r = S.pool r)
    (hfinished : w.finished r = S.world.finished r) : Resolves m r ⟨w, pool⟩ := by
  cases h with
  | absent hp hf => exact .absent (hpool.trans hp) (hfinished.trans hf)
  | asking hp hf hasks =>
    exact .asking (hpool.trans hp) (hfinished.trans hf) (hview.asks hasks)
  | ended hp hf =>
    refine .ended (hpool.trans hp) fun result hresult => ?_
    rw [hview.lookup]
    exact hf result (hfinished.symm.trans hresult)

/-- The resolution itself acts. -/
theorem Resolves.act (hvalid : validName m = true) {ch : Choice} (hch : ch.fault = false) {o : Op}
    {k : Res o → Action Unit} (h : Resolves m r S) (hpool : S.pool r = some (.act o k)) :
    SameView m S.world (effect ch S.world r o).2 ∧
      Resolves m r ⟨(effect ch S.world r o).2,
        update S.pool r (some (k (effect ch S.world r o).1))⟩ := by
  cases h with
  | absent hp _ | ended hp _ => exact nomatch hp.symm.trans hpool
  | @asking q hp hf hasks =>
    have hq := Option.some.inj (hpool.symm.trans hp)
    cases q with
    | ret result =>
      -- it returns
      cases hq
      have hview : SameView m S.world (effect ch S.world r (.finish result)).2 := .of_eq rfl rfl
      refine ⟨hview, .ended (update_self ..) fun result' hresult' => ?_⟩
      have hself : (effect ch S.world r (.finish result)).2.finished r = some result :=
        update_self ..
      obtain rfl := Option.some.inj (hself.symm.trans hresult')
      rw [hview.lookup]
      exact hasks.result
    | act o' k' =>
      cases hq
      obtain ⟨hworld, hnext⟩ := hasks.next (r := r) hvalid hch
      rw [hworld]
      exact ⟨.of_eq rfl rfl, .asking (update_self ..) hf hnext⟩

/-- One event beside a resolution. -/
theorem Resolves.next (hapart : Unrelated names) (hm : FreeOf names m) (hvalid : validName m = true)
    (hreach : (machine lib).Reach (fun _ e => importsIn names e = true) initialSystem S)
    {e : Event Choice Cmd} (he : besideOthers names m r S e = true)
    (hn : (machine lib).next S e = some S') (h : Resolves m r S) :
    SameView m S.world S'.world ∧ Resolves m r S' := by
  cases (machine lib).next_inv hn with
  | @act u ch o k a w hpool hstep _ =>
    obtain ⟨rfl, rfl⟩ := Prod.mk.inj (Option.some.inj hstep)
    by_cases hur : u = r
    · subst hur
      have hch : ch.fault = false := by simpa [besideOthers] using he
      exact h.act hvalid hch hpool
    · have hview : SameView m S.world (effect ch S.world u o).2 := by
        obtain ⟨c, hc, ho⟩ := call_of_reach hreach hpool
        cases c with
        | imageImport x archive =>
          have hne : x ≠ m := by simpa [besideOthers, hur, hc] using he
          exact sameView_import hapart hreach hm hpool hc hne.symm ch
        | imageResolve x => exact sameView_resolve ho ch
      refine ⟨hview, h.watch hview (update_of_ne (Ne.symm hur) ..) ?_⟩
      exact (moves_of_reach hreach hpool ch).finished r (Ne.symm hur)
  | fork _ _ hspawn _ => exact nomatch hspawn
  | @enter u c ch w hfree henter =>
    obtain ⟨-, rfl⟩ := enter_eq henter
    refine ⟨.of_eq rfl rfl, ?_⟩
    by_cases hur : u = r
    · subst hur
      simp only [besideOthers, bne_self_eq_false, Bool.false_or, Bool.and_eq_true, beq_iff_eq] at he
      obtain ⟨-, rfl⟩ := he
      cases h with
      | absent _ hf => exact .asking (update_self ..) hf (asks_imageResolve _ m)
      | asking hp _ _ | ended hp _ => exact nomatch hfree.symm.trans hp
    · exact h.watch (.of_eq rfl rfl) (update_of_ne (Ne.symm hur) ..) rfl
  | @kill u o k hpool =>
    refine ⟨.of_eq rfl rfl, ?_⟩
    by_cases hur : u = r
    · subst hur
      cases h with
      | absent hp _ => exact nomatch hp.symm.trans hpool
      | asking _ hf _ => exact .ended (update_self ..) fun _ hresult =>
        nomatch hf.symm.trans hresult
      | ended hp _ => exact nomatch hp.symm.trans hpool
    · exact h.watch (.of_eq rfl rfl) (update_of_ne (Ne.symm hur) ..) rfl
  | env henv => exact nomatch henv

/-- A resolution that is started beside imports of other names. -/
theorem resolves_of_reach (hapart : Unrelated names) (hm : FreeOf names m)
    (hvalid : validName m = true)
    (hreach : (machine lib).Reach (fun _ e => importsIn names e = true) initialSystem S)
    (hr : S.pool r = none)
    (hrun : (machine lib).Reach (fun S e => besideOthers names m r S e = true) S S') :
    (machine lib).Reach (fun _ e => importsIn names e = true) initialSystem S' ∧
      lookup S'.world m = lookup S.world m ∧ Resolves m r S' := by
  induction hrun with
  | refl =>
    refine ⟨hreach, rfl, .absent hr ?_⟩
    by_contra hne
    exact (inv_of_anyRun hreach).results.requested r hne ((commands_of_reach hreach r).1 hr)
  | @step S₁ S₂ e _ he hn ih =>
    obtain ⟨hreach₁, hlookup, hresolves⟩ := ih
    obtain ⟨hview, hresolves'⟩ := hresolves.next hapart hm hvalid hreach₁ he hn
    have himports : importsIn names e = true := by
      cases e with
      | enter u c ch => exact (Bool.and_eq_true_iff.mp he).1
      | _ => rfl
    exact ⟨hreach₁.step himports hn, hview.lookup.trans hlookup, hresolves'⟩

end Runs

/-! ## Imports -/

/-- The name that a process imports. -/
def Cmd.imported : Cmd → Option Text
  | .imageImport x _ => some x
  | .imageResolve _ => none

/-- What this import finds at its temporary names is not left from an import of the same name or of
    the same image. -/
def unobstructed (t : Tid) (S : Sys Op Res Unit World) : Event Choice Cmd → Bool
  | .act u _ =>
    match S.pending u with
    | some (.create p) =>
      match S.world.entry p with
      | some i => u != t || (p.folder == .names &&
          (S.world.requests (S.world.creator i)).bind Cmd.imported !=
            (S.world.requests t).bind Cmd.imported)
      | none => true
    | _ => true
  | _ => true

/-- An import beside imports of other names. -/
def importUndisturbed (names : Text → Bool) (t : Tid) (S : Sys Op Res Unit World)
    (e : Event Choice Cmd) : Bool :=
  importsIn names e && buildsAlone S e && unobstructed t S e && callsSucceed t e

section Imports

variable {lib : Libraries} {names : Text → Bool} {S : Sys Op Res Unit World} {t : Tid}

/-- No record is renamed over a temporary file. -/
theorem keepsApart_of_unrelated (hapart : Unrelated names)
    (h : (machine lib).Reach (fun _ e => importsIn names e = true) initialSystem S)
    (e : Event Choice Cmd) : keepsApart S e = true := by
  unfold keepsApart
  split
  · rename_i u ch
    split
    · rename_i source target hpending
      split
      · rename_i i hentry
        by_cases hfolder : target.folder = .names
        · -- the target is the record of the import that renames, so it is no temporary file
          obtain ⟨k, hpool⟩ := Sys.pool_of_pending hpending
          obtain ⟨c, hc, ho⟩ := call_of_reach h hpool
          cases c with
          | imageResolve x => exact ho.elim
          | imageImport x archive =>
            obtain ⟨htarget, -⟩ := ho.2 hfolder
            have hnames := namesInv_of_reach hapart h
            have hfree : FreeOf names x := fun y hy =>
              hapart x y (hnames.requests u x archive hc) hy
            obtain ⟨folder, leaf⟩ := target
            obtain rfl : folder = .names := hfolder
            obtain rfl : leaf = x := htarget
            have hplaced := (hnames.placed_of_free hfree hentry).1
            simp [hplaced]
        · simp [hfolder]
      · rfl
    · rfl
  · rfl

/-- The temporary files of the import do not exist when it creates them. -/
theorem temporaryFree_of_unobstructed (hapart : Unrelated names)
    (h : (machine lib).Reach (fun _ e => importsIn names e = true) initialSystem S)
    {e : Event Choice Cmd} (he : unobstructed t S e = true) : temporaryFree t S e = true := by
  unfold temporaryFree
  split
  · rename_i u ch
    split
    · rename_i p hpending
      by_cases hut : u = t
      · subst hut
        cases hentry : S.world.entry p with
        | none => simp
        | some i =>
          -- the file would be one of another name, at a temporary name of this one
          exfalso
          obtain ⟨k, hpool⟩ := Sys.pool_of_pending hpending
          obtain ⟨c, hc, ho⟩ := call_of_reach h hpool
          simp only [unobstructed, hpending, hentry, bne_self_eq_false, Bool.false_or,
            Bool.and_eq_true, beq_iff_eq, bne_iff_ne, ne_eq] at he
          obtain ⟨hfolder, hother⟩ := he
          cases c with
          | imageResolve x => exact ho.elim
          | imageImport x archive =>
            obtain ⟨pid, hleaf⟩ := ho hfolder
            obtain ⟨folder, leaf⟩ := p
            obtain rfl : folder = .names := hfolder
            obtain rfl : leaf = temporaryName x pid := hleaf
            have hnames := namesInv_of_reach hapart h
            obtain ⟨y, archive', hy, hkind⟩ := hnames.entries _ i hentry
            rw [hy, hc] at hother
            split at hkind
            · exact hapart y x (hnames.requests _ y archive' hy) (hnames.requests _ x archive hc)
                pid hkind.symm
            · obtain ⟨pid', hpid'⟩ := hkind
              exact hother (congrArg some (temporaryName_injective hpid').symm)
      · simp [hut]
    · rfl
  · rfl

/-- An import beside imports of other names is not disturbed. -/
theorem reach_importsUndisturbed (hapart : Unrelated names)
    (h : (machine lib).Reach (fun S e => importUndisturbed names t S e = true) initialSystem S) :
    (machine lib).Reach (fun S e => importsUndisturbed [t] S e = true) initialSystem S := by
  have himports : ∀ S, (machine lib).Reach (fun S e => importUndisturbed names t S e = true)
      initialSystem S →
      (machine lib).Reach (fun _ e => importsIn names e = true) initialSystem S :=
    fun S hS => hS.mono _ fun _ _ he => by
      simp only [importUndisturbed, Bool.and_eq_true] at he
      exact he.1.1.1
  refine (h.strengthen _ himports).mono _ fun S e he => ?_
  obtain ⟨he, hS⟩ := he
  simp only [importUndisturbed, Bool.and_eq_true] at he
  obtain ⟨⟨⟨-, halone⟩, hfree⟩, hcalls⟩ := he
  simp only [importsUndisturbed, keepsApart_of_unrelated hapart hS e, halone, hcalls,
    temporaryFree_of_unobstructed hapart hS hfree, List.all_cons, List.all_nil, Bool.and_self]

end Imports

/-- Image names are independent of each other, as long as none of them is a temporary name of
    another one.

    * a name that was never imported does not resolve
    * what a resolution returns is what it would have returned before, whatever imports of other
      names do meanwhile, whether they are killed, fail or succeed
    * an import returns its image beside imports of other names, as long as no other import puts
      the same image together -/
theorem image_names_independent (lib : Libraries) {names : Text → Bool}
    (hapart : Unrelated names) :
    (∀ S m, (machine lib).Reach (fun _ e => importsIn names e = true) initialSystem S →
      validName m = true → FreeOf names m →
      (names m = false → lookup S.world m =
        .error (errorSet .notFound .system "image-resolve" m "image name does not exist")) ∧
      ∀ r S', S.pool r = none →
        (machine lib).Reach (fun S e => besideOthers names m r S e = true) S S' →
        lookup S'.world m = lookup S.world m ∧
          ∀ result, S'.world.finished r = some result → result = lookup S.world m) ∧
    ∀ S t m archive,
      (machine lib).Reach (fun S e => importUndisturbed names t S e = true) initialSystem S →
      validName m = true → Acceptable lib archive.bytes →
      S.world.requests t = some (.imageImport m archive) →
      (∀ result, S.world.finished t = some result →
        result = .ok (rootfsPath (lib.digest archive.bytes).text)) ∧
      ∀ o k, S.pool t = some (.act o k) →
        ∃ S', (machine lib).Reach (ActsAlone t) S S' ∧ S'.world.finished t ≠ none := by
  refine ⟨fun S m hS hvalid hm => ⟨fun hnever => ?_, fun r S' hr hrun => ?_⟩,
    fun S t m archive hS hvalid harchive hrequest => ⟨fun result hresult => ?_, fun o k hp => ?_⟩⟩
  · apply lookup_of_free hvalid
    by_contra hne
    obtain ⟨i, hentry⟩ := Option.ne_none_iff_exists'.mp hne
    have hname := ((namesInv_of_reach hapart hS).placed_of_free hm hentry).2
    exact nomatch hnever.symm.trans hname
  · obtain ⟨-, hlookup, hresolves⟩ := resolves_of_reach hapart hm hvalid hS hr hrun
    refine ⟨hlookup, fun result hresult => ?_⟩
    rw [← hlookup]
    cases hresolves with
    | absent _ hf | asking _ hf _ => exact nomatch hf.symm.trans hresult
    | ended _ hf => exact hf result hresult
  · have hi := inv_of_importsUndisturbed (reach_importsUndisturbed hapart hS)
    exact hi.import_result (by simp) hrequest hvalid harchive hresult
  · obtain ⟨q, hq⟩ := (finishing_of_reach hS hp).resolve_left nofun
    exact exists_returned q .refl (hp.trans (congrArg some hq))

/-- Two names. -/
def fooBar (x : Text) : Bool := x = "foo".toList || x = "bar".toList

theorem unrelated_fooBar : Unrelated fooBar := by
  have hlength : ∀ x, fooBar x = true → x.length = 3 := by
    intro x hx
    simp only [fooBar, Bool.or_eq_true, decide_eq_true_eq] at hx
    rcases hx with rfl | rfl <;> rfl
  intro x y hx hy pid heq
  have hlong := congrArg List.length heq
  rw [temporaryName, List.length_append, List.length_append, hlength x hx, hlength y hy] at hlong
  have : ".tmp.".toList.length = 5 := rfl
  omega

/-- While the record of `foo` is in its temporary file, `bar` does not resolve. -/
theorem image_names_independent_bar :
    ∃ S, (machine plainLibraries).Reach
        (fun S e => besideOthers fooBar "bar".toList 1 S e = true) initialSystem S ∧
      S.world.finished 1 = some (.error (errorSet .notFound .system "image-resolve" "bar".toList
        "image name does not exist")) := by
  have hrun : ((machine plainLibraries).runWhile (besideOthers fooBar "bar".toList 1)
      (.enter 0 (.imageImport "foo".toList plainArchive) { pid := 123 } :: acts 0 28 ++
        .enter 1 (.imageResolve "bar".toList) { pid := 124 } :: acts 1 2) initialSystem).any
      (fun S => (S.world.finished 1).isSome) = true := by
    decide +kernel
  obtain ⟨S, hS, htest⟩ := Machine.exists_reach_of_runWhile _ hrun
  obtain ⟨result, hresult⟩ := Option.isSome_iff_exists.mp htest
  have hfree : FreeOf fooBar "bar".toList := fun y hy => unrelated_fooBar _ y (by decide) hy
  obtain ⟨-, hresolve⟩ := ((image_names_independent plainLibraries unrelated_fooBar).1
    initialSystem "bar".toList .refl (by decide) hfree).2 1 S rfl hS
  exact ⟨S, hS, hresult.trans (congrArg some (hresolve result hresult))⟩

/-- The import of `foo` by process 123 has written its temporary file, and `foo.tmp.123` resolves,
    which was never imported. -/
theorem temporary_name_resolves :
    ∃ S, (machine plainLibraries).Reach (fun _ e =>
        (importsIn (· = "foo".toList) e && callsSucceed 0 e && callsSucceed 1 e) = true)
        initialSystem S ∧
      validName "foo".toList = true ∧ validName "foo.tmp.123".toList = true ∧
      S.world.requests 0 = some (.imageImport "foo".toList plainArchive) ∧
      S.world.finished 0 = none ∧
      S.world.requests 1 = some (.imageResolve "foo.tmp.123".toList) ∧
      S.world.finished 1 = some (.ok plainRootfs) := by
  have hrun : ((machine plainLibraries).runWhile
      (fun _ e => importsIn (· = "foo".toList) e && callsSucceed 0 e && callsSucceed 1 e)
      (.enter 0 (.imageImport "foo".toList plainArchive) { pid := 123 } :: acts 0 28 ++
        .enter 1 (.imageResolve "foo.tmp.123".toList) { pid := 124 } :: acts 1 4)
      initialSystem).any (fun S => decide
        (S.world.requests 0 = some (.imageImport "foo".toList plainArchive) ∧
        S.world.finished 0 = none ∧
        S.world.requests 1 = some (.imageResolve "foo.tmp.123".toList) ∧
        S.world.finished 1 = some (.ok plainRootfs))) = true := by
    decide +kernel
  obtain ⟨S, hS, htest⟩ := Machine.exists_reach_of_runWhile _ hrun
  exact ⟨S, hS, by decide, by decide, of_decide_eq_true htest⟩

end MiniContainer.Image
