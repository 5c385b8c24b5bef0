import MiniContainer.ForStd.Path
import MiniContainer.Native.Mounts

/-!
# Mount policy

Targets are checked as texts and walked as components. The directory that
`open_mount_target` opens is given by the components of the target that are neither empty
nor `.` (`openMountTarget_eq`), so the check misses a forbidden path that is spelled with
such components in front of its end, and nothing else but a target without a name
(`mountTarget_unprotected_iff`).

Sources are compared with the canonical paths of the allowlist, component by component, but
with nothing else (`bindSources_obey_iff`).
-/

namespace MiniContainer

open CString (Text pieces strtok spell strchr pieces_ne_nil pieces_spell)

/-! ## Comparing paths -/

/-- `under_path` accepts the parent itself and what continues it behind a slash. -/
theorem underPath_iff {path parent : Text} :
    underPath path parent = true ↔ path = parent ∨ ∃ rest, path = parent ++ '/' :: rest := by
  unfold underPath
  rw [Bool.and_eq_true, List.isPrefixOf_iff_prefix]
  constructor
  · rintro ⟨⟨rest, rfl⟩, hnext⟩
    rw [List.drop_left] at hnext
    cases rest with
    | nil => exact .inl (List.append_nil parent)
    | cons c rest =>
      obtain rfl : c = '/' := eq_of_beq hnext
      exact .inr ⟨rest, rfl⟩
  · rintro (rfl | ⟨rest, rfl⟩)
    · exact ⟨List.prefix_rfl, by rw [List.drop_length]⟩
    · exact ⟨List.prefix_append _ _, by rw [List.drop_left]; rfl⟩

/-- What `under_path` accepts lies below the parent component by component. -/
theorem strtok_prefix_of_underPath {path parent : Text} (h : underPath path parent = true) :
    strtok '/' parent <+: strtok '/' path := by
  rcases underPath_iff.mp h with rfl | ⟨rest, rfl⟩
  · exact List.prefix_rfl
  · rw [CString.strtok_append_sep]
    exact List.prefix_append _ _

/-- Between spelled paths, `under_path` compares the components. -/
theorem underPath_spell_iff {cs ps : List Text} (hcs : ∀ c ∈ cs, '/' ∉ c)
    (hps : ∀ p ∈ ps, '/' ∉ p) : underPath (spell cs) (spell ps) = true ↔ ps <+: cs := by
  rw [underPath_iff]
  constructor
  · intro h
    have hpieces : pieces '/' (spell ps) <+: pieces '/' (spell cs) := by
      rcases h with heq | ⟨rest, heq⟩
      · exact heq ▸ List.prefix_rfl
      · rw [heq, CString.pieces_append_sep]
        exact List.prefix_append _ _
    rw [pieces_spell hcs, pieces_spell hps] at hpieces
    exact (List.prefix_cons_inj []).mp hpieces
  · rintro ⟨rest, rfl⟩
    rw [CString.spell_append]
    cases rest with
    | nil => exact .inl (List.append_nil _)
    | cons c rest => exact .inr ⟨c ++ spell rest, rfl⟩

/-! ## The search for `..` -/

/-- The loop of `valid_target` finds the components that are `..`. The first piece is a whole
    component unless another character stands in front of it. -/
theorem dotDotComponent_iff (previous : Option Char) (s : Text) :
    dotDotComponent previous s = true ↔
      ((previous = none ∨ previous = some '/') ∧ (pieces '/' s).head? = some "..".toList) ∨
        "..".toList ∈ (pieces '/' s).tail := by
  induction previous, s using dotDotComponent.induct with
  | case1 previous => simp [dotDotComponent, pieces]
  | case2 previous s ih =>
    -- two dots: a component of their own when the next piece is empty
    obtain ⟨p, ps, hp⟩ := List.exists_cons_of_ne_nil (pieces_ne_nil '/' s)
    have hempty : p = [] ↔ s = [] ∨ s.head? = some '/' := by
      cases s with
      | nil => simpa [pieces] using (List.cons.inj hp).1.symm
      | cons c s =>
        unfold pieces at hp
        split at hp
        · rename_i hc
          simp [hc, ← (List.cons.inj hp).1]
        · rename_i hc
          split at hp <;> simp [hc, ← (List.cons.inj hp).1]
    have hsplit : pieces '/' ('.' :: '.' :: s) = ('.' :: '.' :: p) :: ps := by
      simp [pieces, hp]
    rw [hp] at ih
    rw [dotDotComponent, hsplit, Bool.or_eq_true, ih]
    simp [hempty]
  | case3 previous c s hdots ih =>
    obtain ⟨p, ps, hp⟩ := List.exists_cons_of_ne_nil (pieces_ne_nil '/' s)
    have hstep : dotDotComponent previous (c :: s) = dotDotComponent (some c) s := by
      rw [dotDotComponent]
      exact hdots
    rw [hstep, ih, hp]
    by_cases hc : c = '/'
    · -- a new component starts behind the slash
      have hnil : ([] : Text) ≠ "..".toList := by decide
      rw [hc, pieces, if_pos rfl, hp]
      simp only [List.head?_cons, List.tail_cons, List.mem_cons, Option.some.injEq, hnil,
        reduceCtorEq, or_true, true_and, and_false, false_or, @eq_comm _ p]
    · have hsplit : pieces '/' (c :: s) = (c :: p) :: ps := by
        rw [pieces, if_neg hc, hp]
      have hhead : c :: p ≠ "..".toList := by
        intro heq
        obtain ⟨rfl, rfl⟩ : c = '.' ∧ p = ['.'] := by simpa using heq
        cases s with
        | nil => simp [pieces] at hp
        | cons d s =>
          unfold pieces at hp
          split at hp
          · simp at hp
          · split at hp
            all_goals
              have hd : d = '.' := (List.cons.inj (List.cons.inj hp).1).1
              exact hdots s rfl (by rw [hd])
      rw [hsplit]
      simp only [List.head?_cons, List.tail_cons, Option.some.injEq, hhead, hc, reduceCtorEq,
        or_false, false_and, and_false]

/-- The check of a target in terms of its text. -/
theorem validTarget_iff {target : Text} :
    validTarget target = true ↔ target.head? = some '/' ∧ 2 ≤ target.length ∧
      target.length < pathMax ∧ "..".toList ∉ pieces '/' target ∧
      ∀ p ∈ forbiddenTargets, ¬underPath target p = true := by
  have hdots : dotDotComponent none target = true ↔ "..".toList ∈ pieces '/' target := by
    obtain ⟨p, ps, hp⟩ := List.exists_cons_of_ne_nil (pieces_ne_nil '/' target)
    rw [dotDotComponent_iff, hp, List.mem_cons, List.head?_cons, List.tail_cons,
      Option.some.injEq, @eq_comm _ p]
    simp only [true_or, true_and]
  simp only [validTarget, Bool.and_eq_true, beq_iff_eq, decide_eq_true_eq, Bool.not_eq_true',
    ← Bool.not_eq_true, hdots, List.any_eq_true, not_exists, not_and, and_assoc]

/-! ## Targets -/

/-- The directory that a target denotes: its components, among which `.` stays in place. -/
def mountPath (target : Text) : List Text := (mountComponents target).filter (· ≠ ".".toList)

/-- The loop leads from a directory to what the components denote. -/
theorem foldlM_openComponent {tree : MountTree} {current dir components : List Text}
    (h : components.foldlM (openComponent tree) current = some dir) :
    dir = current ++ components.filter (· ≠ ".".toList) := by
  induction components generalizing current with
  | nil =>
    rw [List.filter_nil, List.append_nil]
    exact (Option.some.inj h).symm
  | cons component components ih =>
    obtain ⟨next, hopen, hrest⟩ := Option.bind_eq_some_iff.mp h
    rw [ih hrest]
    unfold openComponent at hopen
    split at hopen
    · rename_i hdot
      rw [Option.some.inj hopen, List.filter_cons_of_neg (by simp [hdot])]
    · rename_i hdot
      rw [List.filter_cons_of_pos (by simpa using hdot)]
      split at hopen
      · exact nomatch hopen
      · split at hopen
        · rw [← Option.some.inj hopen, List.append_assoc, List.singleton_append]
        · exact nomatch hopen

/-- A target is mounted on the directory that it denotes. -/
theorem openMountTarget_eq {tree : MountTree} {target : Text} {dir : List Text}
    (h : openMountTarget tree target = some dir) : dir = mountPath target :=
  foldlM_openComponent h

/-- A directory that may be covered by a mount. -/
structure Unprotected (components : List Text) : Prop where
  nonempty : components ≠ []
  noDotDot : "..".toList ∉ components
  outside : ∀ p ∈ forbiddenTargets, ¬strtok '/' p <+: components

/-- A component that leaves the walk where it is. -/
def Idle (c : Text) : Prop := c = [] ∨ c = ".".toList

instance instDecidablePredIdle : DecidablePred Idle := fun c =>
  inferInstanceAs (Decidable (c = [] ∨ c = ".".toList))

/-- Names with idle components in front of them. -/
inductive Padded : List Text → List Text → Prop
  | nil : Padded [] []
  | idle {c name : Text} {names cs : List Text} (hc : Idle c) (h : Padded (name :: names) cs) :
    Padded (name :: names) (c :: cs)
  | name {name : Text} {names cs : List Text} (h : Padded names cs) :
    Padded (name :: names) (name :: cs)

/-- The target lies at or below the path, which is spelled with an empty component or a `.`
    in front of its end. -/
def Misspelt (target path : Text) : Prop :=
  ∃ spelling, Padded (strtok '/' path) spelling ∧ (∃ c ∈ spelling, Idle c) ∧
    underPath target (spell spelling) = true

theorem Padded.not_mem {names cs : List Text} (h : Padded names cs)
    (hnames : ∀ n ∈ names, '/' ∉ n) : ∀ c ∈ cs, '/' ∉ c := by
  induction h with
  | nil => simp
  | idle hc _ ih =>
    refine List.forall_mem_cons.mpr ⟨?_, ih hnames⟩
    rcases hc with rfl | rfl <;> decide
  | name _ ih =>
    obtain ⟨hname, hrest⟩ := List.forall_mem_cons.mp hnames
    exact List.forall_mem_cons.mpr ⟨hname, ih hrest⟩

/-- Without an idle component the names are spelled as they are. -/
theorem Padded.eq {names cs : List Text} (h : Padded names cs) (hidle : ¬∃ c ∈ cs, Idle c) :
    cs = names := by
  induction h with
  | nil => rfl
  | idle hc _ _ => exact absurd ⟨_, List.mem_cons_self, hc⟩ hidle
  | name _ ih => rw [ih fun ⟨c, hc, h⟩ => hidle ⟨c, List.mem_cons_of_mem _ hc, h⟩]

/-- The names lead the components that are left of a list when they are spelled at its
    beginning. -/
theorem padded_filter {cs : List Text} {names : List Text} (hnames : ∀ n ∈ names, ¬Idle n) :
    names <+: cs.filter (¬Idle ·) ↔ ∃ spelling, Padded names spelling ∧ spelling <+: cs := by
  induction cs generalizing names with
  | nil =>
    rw [List.filter_nil, List.prefix_nil]
    constructor
    · rintro rfl
      exact ⟨[], .nil, List.prefix_rfl⟩
    · rintro ⟨spelling, hpadded, hpre⟩
      rw [List.prefix_nil.mp hpre] at hpadded
      cases hpadded
      rfl
  | cons c cs ih =>
    cases names with
    | nil => exact ⟨fun _ => ⟨[], .nil, List.nil_prefix⟩, fun _ => List.nil_prefix⟩
    | cons name names =>
      obtain ⟨hname, hrest⟩ := List.forall_mem_cons.mp hnames
      by_cases hc : Idle c
      · rw [List.filter_cons_of_neg (by simpa using hc), ih hnames]
        constructor
        · rintro ⟨spelling, hpadded, hpre⟩
          exact ⟨c :: spelling, .idle hc hpadded, (List.prefix_cons_inj c).mpr hpre⟩
        · rintro ⟨spelling, hpadded, hpre⟩
          cases hpadded with
          | idle _ hpadded =>
            exact ⟨_, hpadded, (List.cons_prefix_cons.mp hpre).2⟩
          | name _ => exact absurd ((List.cons_prefix_cons.mp hpre).1 ▸ hc) hname
      · rw [List.filter_cons_of_pos (by simpa using hc), List.cons_prefix_cons, ih hrest]
        constructor
        · rintro ⟨rfl, spelling, hpadded, hpre⟩
          exact ⟨name :: spelling, .name hpadded, (List.prefix_cons_inj name).mpr hpre⟩
        · rintro ⟨spelling, hpadded, hpre⟩
          cases hpadded with
          | idle hidle _ => exact absurd ((List.cons_prefix_cons.mp hpre).1 ▸ hidle) hc
          | name hpadded =>
            obtain ⟨heq, hpre⟩ := List.cons_prefix_cons.mp hpre
            exact ⟨heq, _, hpadded, hpre⟩

/-- The names that are walked. -/
theorem mountPath_eq (target : Text) :
    mountPath target = (pieces '/' target.tail).filter (¬Idle ·) := by
  rw [mountPath, mountComponents, strtok, List.filter_filter]
  refine List.filter_congr fun c _ => ?_
  cases c <;> simp [Idle]

/-- The forbidden paths are spelled as their components, which are names. -/
theorem spell_strtok_forbidden : ∀ p ∈ forbiddenTargets,
    spell (strtok '/' p) = p ∧ ∀ n ∈ strtok '/' p, '/' ∉ n ∧ ¬Idle n := by
  decide

/-- A target that is not compared with the forbidden path itself denotes a directory below it
    exactly when it misspells the path. -/
theorem misspelt_iff {target p : Text} (hhead : target.head? = some '/') (hp : p ∈ forbiddenTargets)
    (hunder : ¬underPath target p = true) :
    Misspelt target p ↔ strtok '/' p <+: mountPath target := by
  obtain ⟨hspell, hnames⟩ := spell_strtok_forbidden p hp
  obtain ⟨rest, rfl⟩ := List.head?_eq_some_iff.mp hhead
  have hslash : ∀ c ∈ pieces '/' rest, '/' ∉ c := fun c hc => CString.not_mem_of_mem_pieces hc
  have hfront : ∀ spelling, Padded (strtok '/' p) spelling →
      (underPath ('/' :: rest) (spell spelling) = true ↔ spelling <+: pieces '/' rest) := by
    intro spelling hpadded
    rw [← CString.spell_pieces rest]
    exact underPath_spell_iff hslash (hpadded.not_mem fun n hn => (hnames n hn).1)
  rw [mountPath_eq, List.tail_cons, padded_filter fun n hn => (hnames n hn).2]
  constructor
  · rintro ⟨spelling, hpadded, -, hu⟩
    exact ⟨spelling, hpadded, (hfront spelling hpadded).mp hu⟩
  · rintro ⟨spelling, hpadded, hpre⟩
    have hu := (hfront spelling hpadded).mpr hpre
    refine ⟨spelling, hpadded, ?_, hu⟩
    by_contra hidle
    rw [hpadded.eq hidle, hspell] at hu
    exact hunder hu

/-- An accepted target is mounted on the directory that its components denote. This directory
    may be covered exactly when the target has a name, and no forbidden path is spelled in it
    with empty components or `.` in front of its end. -/
theorem mountTarget_unprotected_iff {target : Text} (h : validTarget target = true) :
    (Unprotected (mountPath target) ↔
      (∃ c ∈ pieces '/' target, ¬Idle c) ∧ ∀ p ∈ forbiddenTargets, ¬Misspelt target p) ∧
    ∀ tree dir, openMountTarget tree target = some dir → dir = mountPath target := by
  obtain ⟨hhead, -, -, hdots, hunder⟩ := validTarget_iff.mp h
  have hpieces : pieces '/' target = [] :: pieces '/' target.tail := by
    obtain ⟨rest, rfl⟩ := List.head?_eq_some_iff.mp hhead
    exact if_pos rfl
  refine ⟨⟨fun hun => ⟨?_, fun p hp hmis => ?_⟩, fun hok => ⟨?_, ?_, fun p hp hpre => ?_⟩⟩,
    fun _ _ => openMountTarget_eq⟩
  · obtain ⟨c, hc⟩ := List.exists_mem_of_ne_nil _ hun.nonempty
    rw [mountPath_eq, List.mem_filter] at hc
    exact ⟨c, hpieces ▸ List.mem_cons_of_mem _ hc.1, by simpa using hc.2⟩
  · exact hun.outside p hp ((misspelt_iff hhead hp (hunder p hp)).mp hmis)
  · obtain ⟨c, hc, hname⟩ := hok.1
    rw [hpieces, List.mem_cons] at hc
    have hmem := hc.resolve_left fun hempty => hname (.inl hempty)
    rw [mountPath_eq]
    exact List.ne_nil_of_mem (List.mem_filter.mpr ⟨hmem, by simpa using hname⟩)
  · intro hmem
    rw [mountPath_eq] at hmem
    exact hdots (hpieces ▸ List.mem_cons_of_mem _ (List.mem_filter.mp hmem).1)
  · exact hok.2 p hp ((misspelt_iff hhead hp (hunder p hp)).mpr hpre)

/-- No forbidden path is spelled in `/data//./x/`, which opens the directory `/data/x`. -/
theorem mountTarget_unprotected_data :
    validTarget "/data//./x/".toList = true ∧
      openMountTarget ⟨fun _ _ => true⟩ "/data//./x/".toList = some ["data".toList, "x".toList] ∧
      Unprotected (mountPath "/data//./x/".toList) := by
  refine ⟨by decide, by decide, (mountTarget_unprotected_iff (by decide)).1.mpr ⟨?_, ?_⟩⟩
  · exact ⟨"x".toList, by decide, by decide⟩
  · have hunder : ∀ p ∈ forbiddenTargets, ¬underPath "/data//./x/".toList p = true := by decide
    have hapart : ∀ p ∈ forbiddenTargets, ¬strtok '/' p <+: mountPath "/data//./x/".toList := by
      decide
    exact fun p hp hmis => hapart p hp ((misspelt_iff rfl hp (hunder p hp)).mp hmis)

/-- A second slash hides `/proc` from the check, and the walk passes over it. -/
theorem validTarget_covers_proc :
    validTarget "//proc".toList = true ∧
      openMountTarget ⟨fun _ _ => true⟩ "//proc".toList = some ["proc".toList] ∧
      ¬Unprotected (mountPath "//proc".toList) := by
  refine ⟨by decide, by decide, fun h => ?_⟩
  exact h.outside "/proc".toList (by decide) (by decide)

/-! ## Sources -/

/-- The canonical paths of the allowlist's entries. -/
def Host.allowedRoots (host : Host) : List Text :=
  match (host.configFile.bind (·.getEx "allowed_bind_sources")).bind JsonC.Value.getArray? with
  | none => []
  | some entries => entries.filterMap fun entry => entry.getString.bind host.realpath

/-- `bind_allowed` compares with the canonical paths of the allowlist. -/
theorem bindAllowed_iff {host : Host} {source : Text} :
    bindAllowed host source = true ↔ ∃ root ∈ host.allowedRoots, underPath source root = true := by
  unfold bindAllowed Host.allowedRoots
  cases host.configFile with
  | none => simp
  | some document =>
    rw [Option.bind_some]
    dsimp only
    cases (document.getEx "allowed_bind_sources").bind JsonC.Value.getArray? with
    | none => simp
    | some entries =>
      simp only [List.any_eq_true, List.mem_filterMap]
      constructor
      · rintro ⟨entry, hentry, hunder⟩
        split at hunder
        · exact nomatch hunder
        · rename_i root hroot
          exact ⟨root, ⟨entry, hentry, hroot⟩, hunder⟩
      · rintro ⟨root, ⟨entry, hentry, hroot⟩, hunder⟩
        exact ⟨entry, hentry, by rw [hroot]; exact hunder⟩

/-- A directory of the host that no container may see: the root, and the trees of the kernel
    and of the runtime. -/
def ProtectedSource (source : Text) : Prop :=
  strtok '/' source = [] ∨ ∃ p ∈ forbiddenTargets, strtok '/' p <+: strtok '/' source

/-- The source of a bind mount obeys the policy: it is the canonical path of a directory at
    or below an entry of the allowlist, and not protected. -/
structure SourceObeys (host : Host) (source : Text) : Prop where
  canonical : host.realpath source = some source
  directory : host.isDirectory source = true
  listed : ∃ root ∈ host.allowedRoots, strtok '/' root <+: strtok '/' source
  unprotected : ¬ProtectedSource source

/-- What `mc_parse_bind_mount` accepts. -/
theorem bindMount_eq_some_iff {host : Host} {value : Text} {mount : Mount} :
    bindMount host value = some mount ↔
      ∃ named rest resolved readonly, strchr ':' value = some (named, rest) ∧
        named.head? = some '/' ∧ validTarget (bindTarget rest).1 = true ∧
        bindMode (bindTarget rest).2 = some readonly ∧ host.realpath named = some resolved ∧
        host.isDirectory resolved = true ∧ bindAllowed host resolved = true ∧
        mount = ⟨.bind, some resolved, (bindTarget rest).1, 0, readonly⟩ := by
  unfold bindMount
  cases strchr ':' value with
  | none => simp
  | some split =>
    obtain ⟨named, rest⟩ := split
    constructor
    · intro h
      dsimp only at h
      split at h
      · rename_i hchecks
        split at h
        · rename_i readonly resolved hmode hreal
          split at h
          · rename_i hdir
            exact ⟨named, rest, resolved, readonly, rfl, hchecks.1, hchecks.2, hmode, hreal,
              hdir.1, hdir.2, (Option.some.inj h).symm⟩
          · exact nomatch h
        · exact nomatch h
      · exact nomatch h
    · rintro ⟨_, _, resolved, readonly, heq, hhead, hvalid, hmode, hreal, hdir, hallowed, rfl⟩
      cases heq
      simp only [hhead, hvalid, and_self, if_true, hmode, hreal, hdir, hallowed]

/-- The directories that the allowlist gives away: a source that can be named in a value and
    resolves to a directory at or below one of the entries. -/
def Host.GivesAway (host : Host) (source : Text) : Prop :=
  host.isDirectory source = true ∧
    (∃ named, ':' ∉ named ∧ named.head? = some '/' ∧ host.realpath named = some source) ∧
    ∃ root ∈ host.allowedRoots, underPath source root = true

/-- All bind mounts that are accepted obey the policy exactly when the allowlist gives away
    no protected directory: nothing but the allowlist is asked. -/
theorem bindSources_obey_iff (host : Host) :
    (∀ value mount, parseBindMount host value = .ok mount →
      ∃ source, mount.source = some source ∧ SourceObeys host source) ↔
    ∀ source, host.GivesAway source → ¬ProtectedSource source := by
  constructor
  · -- a source that is given away is accepted for some harmless target
    rintro h source ⟨hdir, ⟨named, hcolon, hhead, hreal⟩, hroots⟩
    have hmount : bindMount host (named ++ ':' :: "/x".toList) =
        some ⟨.bind, some source, "/x".toList, 0, false⟩ :=
      bindMount_eq_some_iff.mpr ⟨named, "/x".toList, source, false, CString.strchr_append hcolon,
        hhead, by decide, by decide, hreal, hdir, bindAllowed_iff.mpr hroots, rfl⟩
    obtain ⟨source', heq, hobeys⟩ := h _ _ (by rw [parseBindMount, hmount])
    cases heq
    exact hobeys.unprotected
  · intro h value mount hparse
    have hmount : bindMount host value = some mount := by
      unfold parseBindMount at hparse
      split at hparse
      · rename_i heq
        rw [heq, Except.ok.inj hparse]
      · exact nomatch hparse
    obtain ⟨named, rest, source, readonly, hsplit, hhead, -, -, hreal, hdir, hallowed, rfl⟩ :=
      bindMount_eq_some_iff.mp hmount
    have hcolon : ':' ∉ named := (CString.strchr_eq_some hsplit).2
    have hroots := bindAllowed_iff.mp hallowed
    obtain ⟨root, hroot, hunder⟩ := hroots
    exact ⟨source, rfl, host.realpath_idem _ _ hreal, hdir,
      ⟨root, hroot, strtok_prefix_of_underPath hunder⟩,
      h source ⟨hdir, ⟨named, hcolon, hhead, hreal⟩, root, hroot, hunder⟩⟩

/-- A host whose operator allows `/`. -/
def openHost : Host where
  realpath p := if p = "/".toList then some "/".toList else none
  isDirectory _ := true
  configFile := some (.obj [("allowed_bind_sources", .arr [.str "/".toList])])
  statProfile _ := none
  readProfile _ := none
  syscallKnown _ := false
  imageStore _ := .ok "/images/sha256/0/rootfs".toList
  realpath_idem p r h := by
    split at h
    · cases h
      decide
    · exact nomatch h
  realpath_absolute p r h := by
    split at h
    · cases h
      decide
    · exact nomatch h
  realpath_length p r h := by
    split at h
    · cases h
      decide
    · exact nomatch h

/-- The root of the host is accepted as the source of a bind mount. -/
theorem parseBindMount_accepts_root :
    parseBindMount openHost "/:/data".toList =
        .ok ⟨.bind, some "/".toList, "/data".toList, 0, false⟩ ∧
      ¬SourceObeys openHost "/".toList :=
  ⟨rfl, fun h => h.unprotected (.inl (by decide))⟩

end MiniContainer
