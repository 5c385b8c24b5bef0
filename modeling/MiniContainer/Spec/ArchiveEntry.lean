import MiniContainer.Spec.ImageTree

/-!
# The checks of an archive entry

`mc_link_stays_beneath` counts directories, so it is exact where it starts from the directory
that contains the link. It takes that directory from the text in front of the last slash, which
is the entry itself when the path ends in one (`linkStaysBeneath_exact_iff`).

`validate_entry` drops the `./` in front of a pathname but not in front of the target of a hard
link. And it takes the directory of a symbolic link from a pointer into the pathname, which
`archive_entry_set_pathname` has moved by the length of the prefix. So a prefix can change the
verdict on both kinds of links, and on nothing else (`validateEntry_dotted_iff`).
-/

namespace MiniContainer

open CString (Text pieces)
open ImageTree (noName linkBase climb applyComponents_isSome_iff)

/-! ## Lexical walks -/

/-- The directories that a component leads down. -/
def lexicalMove (component : Text) : Int :=
  if component = "..".toList then -1
  else if component = [] ∨ component = ".".toList then 0
  else 1

/-- A walk along the components from a directory at this depth below the root is never above the
    root. -/
def StaysBeneath (depth : Int) (components : List Text) : Prop :=
  ∀ before, before <+: components → 0 ≤ depth + (before.map lexicalMove).sum

theorem staysBeneath_cons {depth : Int} {component : Text} {components : List Text} :
    StaysBeneath depth (component :: components) ↔
      0 ≤ depth ∧ StaysBeneath (depth + lexicalMove component) components := by
  constructor
  · intro h
    refine ⟨by simpa using h [] List.nil_prefix, fun before hbefore => ?_⟩
    have hnext := h (component :: before) (List.cons_prefix_cons.mpr ⟨rfl, hbefore⟩)
    rw [List.map_cons, List.sum_cons] at hnext
    omega
  · rintro ⟨hdepth, hrest⟩ before hbefore
    rcases List.prefix_cons_iff.mp hbefore with rfl | ⟨before, rfl, hrest'⟩
    · simpa using hdepth
    · have hnext := hrest before hrest'
      rw [List.map_cons, List.sum_cons]
      omega

theorem staysBeneath_iff_climb (depth : Int) (components : List Text) :
    StaysBeneath depth components ↔ climb components ≤ depth := by
  induction components generalizing depth with
  | nil => simp [StaysBeneath, climb]
  | cons component components ih =>
    rw [staysBeneath_cons, ih, climb, lexicalMove]
    split
    · omega
    · split
      · omega
      · omega

/-! ## The link check -/

/-- The path that an entry is created at: a trailing slash is dropped. -/
def createdPath (path : Text) : Text :=
  if path.getLast? = some '/' then path.dropLast else path

/-- The directory that contains the created entry. -/
def containingDirectory (path : Text) : List Text := (visitedComponents path).dropLast

/-- The depth from which a relative target is checked, unless the directory is too long to be
    copied or leads above the root. -/
def checkDepth (path : Text) : Option Nat :=
  if 4096 ≤ (parentPath path).length then none
  else applyComponents (visitedComponents (parentPath path)) 0

/-- A relative target may climb as far as that, an absolute one not at all. -/
def ClimbsWithin (path target : Text) : Prop :=
  if target.head? = some '/' then climb (pieces '/' target) = 0
  else ∃ depth, checkDepth path = some depth ∧ climb (pieces '/' target) ≤ depth

/-- The check of a target in terms of its text. -/
theorem linkStaysBeneath_iff {path target : Text} :
    linkStaysBeneath path target = true ↔
      target ≠ [] ∧ '\\' ∉ target ∧ ClimbsWithin path target := by
  unfold linkStaysBeneath ClimbsWithin checkDepth
  by_cases hrefused : target = [] ∨ '\\' ∈ target
  · rw [if_pos hrefused]
    refine iff_of_false (by decide) fun h => ?_
    exact hrefused.elim h.1 h.2.1
  · obtain ⟨htarget, hplain⟩ := not_or.mp hrefused
    rw [if_neg hrefused]
    simp only [htarget, hplain, ne_eq, not_false_eq_true, true_and]
    split
    · rename_i habs
      obtain ⟨rest, rfl⟩ := List.head?_eq_some_iff.mp habs
      rw [List.tail_cons, ImageTree.applyComponents_visited, applyComponents_isSome_iff, pieces,
        if_pos rfl, climb, if_neg (by decide), if_pos (.inl rfl), Nat.le_zero]
    · split
      · simp
      · cases applyComponents (visitedComponents (parentPath path)) 0 with
        | none => simp
        | some depth => simp [ImageTree.applyComponents_visited, applyComponents_isSome_iff]

/-- The depth at which the check of a relative target begins. -/
theorem linkStaysBeneath_relative {path target : Text} (htarget : target ≠ [])
    (hplain : '\\' ∉ target) (hrel : target.head? ≠ some '/')
    (hnames : ∀ c ∈ visitedComponents (parentPath path), noName c = false) :
    linkStaysBeneath path target = true ↔
      (parentPath path).length < 4096 ∧
        climb (pieces '/' target) ≤ (visitedComponents (parentPath path)).length := by
  rw [linkStaysBeneath_iff, ClimbsWithin, if_neg hrel, checkDepth,
    ImageTree.applyComponents_names hnames, Nat.zero_add]
  simp only [htarget, hplain, ne_eq, not_false_eq_true, true_and]
  split
  · simp only [reduceCtorEq, false_and, exists_false, false_iff]
    omega
  · simp only [Option.some.injEq, exists_eq_left']
    omega

/-- Behind a trailing slash, the text in front of the last slash is the entry itself. -/
theorem parentPath_of_slash {path : Text} (hlast : path.getLast? = some '/') :
    parentPath path = path.dropLast := by
  obtain ⟨init, rfl⟩ := List.getLast?_eq_some_iff.mp hlast
  simp [parentPath]

theorem visitedComponents_of_slash {path : Text} (h : safeArchivePath path = true)
    (hlast : path.getLast? = some '/') :
    visitedComponents path.dropLast = visitedComponents path ∧ visitedComponents path ≠ [] := by
  have hnames := ImageTree.safeArchivePath_names h
  obtain ⟨init, rfl⟩ := List.getLast?_eq_some_iff.mp hlast
  have hpieces : pieces '/' (init ++ ['/']) = pieces '/' init ++ [[]] := by
    rw [CString.pieces_append_sep]
    rfl
  have hvisited : visitedComponents (init ++ ['/']) = pieces '/' init := by
    unfold visitedComponents
    dsimp only
    rw [hpieces, List.getLast?_concat, if_pos rfl, List.dropLast_concat]
  rw [hvisited] at hnames ⊢
  refine ⟨?_, CString.pieces_ne_nil _ _⟩
  rw [List.dropLast_concat]
  unfold visitedComponents
  dsimp only
  -- no component of an accepted path is empty
  rw [if_neg]
  intro hempty
  exact absurd (hnames [] (List.mem_of_getLast? hempty)) (by decide)

/-- The link is one that the check judges from the wrong directory: the path ends in a slash, and
    the relative target climbs exactly to the entry's own depth. A path that leaves no room for
    the copy of that directory makes the check refuse what climbs less. -/
def Misjudged (path target : Text) : Prop :=
  path.getLast? = some '/' ∧ target.head? ≠ some '/' ∧
    if path.length ≤ 4096 then climb (pieces '/' target) = (visitedComponents path).length
    else climb (pieces '/' target) < (visitedComponents path).length

/-- The link check is exact if and only if the link is not misjudged for a trailing slash. -/
theorem linkStaysBeneath_exact_iff (path target : Text) (hsafe : safeArchivePath path = true)
    (hparent : (parentPath (createdPath path)).length < 4096) (htarget : target ≠ [])
    (hplain : '\\' ∉ target) :
    (linkStaysBeneath path target = true ↔
      StaysBeneath (linkBase (containingDirectory path) target).length (pieces '/' target)) ↔
      ¬Misjudged path target := by
  rw [staysBeneath_iff_climb, Int.ofNat_le, Misjudged, linkBase]
  by_cases habs : target.head? = some '/'
  · -- an absolute target does not depend on the entry
    simp [linkStaysBeneath_iff, ClimbsWithin, htarget, hplain, habs]
  · rw [if_neg habs]
    have hnames := ImageTree.safeArchivePath_names hsafe
    by_cases hlast : path.getLast? = some '/'
    · obtain ⟨hvisited, hne⟩ := visitedComponents_of_slash hsafe hlast
      have hcheck := @linkStaysBeneath_relative path _ htarget hplain habs
        (by rwa [parentPath_of_slash hlast, hvisited])
      have hpos := List.length_pos_of_ne_nil hne
      have hdir : (containingDirectory path).length = (visitedComponents path).length - 1 :=
        List.length_dropLast
      rw [parentPath_of_slash hlast, hvisited, List.length_dropLast] at hcheck
      rw [hcheck, hdir]
      simp only [hlast, habs, ne_eq, not_false_eq_true, true_and]
      split
      · omega
      · omega
    · have hdir : visitedComponents (parentPath path) = containingDirectory path :=
        ImageTree.visitedComponents_parentPath hsafe hlast
      have hcheck := @linkStaysBeneath_relative path _ htarget hplain habs
        (by rw [hdir]; exact fun c hc => hnames c (List.dropLast_subset _ hc))
      rw [createdPath, if_neg hlast] at hparent
      rw [hcheck, hdir]
      simp [hlast, hparent]

/-- A link two directories down to a file of the root. -/
theorem linkStaysBeneath_exact_usr :
    linkStaysBeneath "usr/bin/sh".toList "../../sh".toList = true ↔
      StaysBeneath 2 (pieces '/' "../../sh".toList) :=
  (linkStaysBeneath_exact_iff "usr/bin/sh".toList "../../sh".toList (by decide) (by decide)
    (by decide) (by decide)).mpr fun h => absurd h.1 (by decide)

/-- A link at the root with a trailing slash is let through although its target leads above. -/
theorem linkStaysBeneath_trailing_slash :
    safeArchivePath "link/".toList = true ∧ linkStaysBeneath "link/".toList "../x".toList = true ∧
      containingDirectory "link/".toList = [] ∧ ¬StaysBeneath 0 (pieces '/' "../x".toList) := by
  refine ⟨by decide, by decide, by decide, ?_⟩
  rw [show (0 : Int) = (0 : Nat) from rfl, staysBeneath_iff_climb]
  decide

/-! ## Prefixes of a pathname -/

/-- So many `./` in a row. -/
def dotSlashes (n : Nat) : Text := (List.replicate n "./".toList).flatten

/-- The entry with `./` in front of its pathname and of the target of a hard link. -/
def Entry.dotted (entry : Entry) (k j : Nat) : Entry :=
  { entry with
    pathname := entry.pathname.map (dotSlashes k ++ ·)
    hardlink := entry.hardlink.map (dotSlashes j ++ ·) }

/-- The file that the target of a hard link names, by its components from the root. -/
def linkedFile (target : Text) : List Text :=
  (pieces '/' target).filter fun c => c != [] && c != ".".toList

/-- The same verdict, with the same pathname and linked file for accepted entries. -/
def SameVerdict : Except McError (Option Entry) → Except McError (Option Entry) → Prop
  | .error _, .error _ => True
  | .ok none, .ok none => True
  | .ok (some a), .ok (some b) =>
    a.pathname = b.pathname ∧ a.hardlink.map linkedFile = b.hardlink.map linkedFile
  | _, _ => False

theorem dotSlashes_succ (n : Nat) (path : Text) :
    dotSlashes (n + 1) ++ path = '.' :: '/' :: (dotSlashes n ++ path) := rfl

theorem skipDotSlash_dotSlashes (k : Nat) (path : Text) :
    skipDotSlash (dotSlashes k ++ path) = skipDotSlash path := by
  induction k with
  | zero => rfl
  | succ k ih => rwa [dotSlashes_succ, skipDotSlash]

/-- A hard link cannot have a `./` in front of its target. -/
theorem safeArchivePath_dotSlashes (j : Nat) (target : Text) :
    safeArchivePath (dotSlashes (j + 1) ++ target) = false := by
  rw [dotSlashes_succ]
  generalize dotSlashes j ++ target = rest
  have hpieces : pieces '/' ('.' :: '/' :: rest) = ".".toList :: pieces '/' rest :=
    CString.pieces_append (a := ['.']) (by decide)
  have hdot : ".".toList ∈ visitedComponents ('.' :: '/' :: rest) := by
    unfold visitedComponents
    dsimp only
    rw [hpieces]
    cases hrest : pieces '/' rest with
    | nil => exact absurd hrest (CString.pieces_ne_nil _ _)
    | cons c cs =>
      split
      · exact List.mem_cons_self
      · exact List.mem_cons_self
  by_contra hsafe
  exact absurd (ImageTree.safeArchivePath_names (eq_true_of_ne_false hsafe) _ hdot) (by decide)

/-- The checks of an entry that do not look at links. -/
structure Entry.Plain (entry : Entry) (path : Text) : Prop where
  safe : safeArchivePath path = true
  type : ¬(entry.type = .block ∨ entry.type = .character ∨ entry.type = .fifo ∨
    entry.type = .socket)
  privileged : ¬entry.privileged = true
  owner : inContainerRange entry.uid = true ∧ inContainerRange entry.gid = true

/-- The entry is no symbolic link, or its target is accepted where the directory of the link is
    taken from this text. -/
def Entry.LinkFrom (entry : Entry) (text : Text) : Prop :=
  ∀ target, entry.symlink = some target → target ≠ [] ∧ '\\' ∉ target ∧ ClimbsWithin text target

/-- What the check of a symbolic link reads when so many `./` more stand in front of the
    pathname. -/
def readBehind (pathname : Text) (k : Nat) : Text :=
  movedPath (pathname.length - (skipDotSlash pathname).length + 2 * k) (skipDotSlash pathname)

/-- The entry passes all checks. -/
structure Entry.Passes (entry : Entry) (pathname : Text) : Prop where
  plain : entry.Plain (skipDotSlash pathname)
  link : entry.LinkFrom (readBehind pathname 0)
  hard : ∀ target, entry.hardlink = some target → safeArchivePath target = true

/-- What `validate_entry` does with an entry that has a pathname. -/
inductive Verdict (entry : Entry) (pathname : Text) : Except McError (Option Entry) → Prop where
  | skip (h : skipDotSlash pathname = []) : Verdict entry pathname (.ok none)
  | reject {e : McError} (hne : skipDotSlash pathname ≠ []) (h : ¬entry.Passes pathname) :
      Verdict entry pathname (.error e)
  | accept {accepted : Entry} (h : entry.Passes pathname)
      (hpath : accepted.pathname = some (skipDotSlash pathname))
      (hlink : accepted.hardlink = entry.hardlink) : Verdict entry pathname (.ok (some accepted))

/-- Every entry with a path gets its verdict. -/
theorem validateEntry_verdict (range : SubidRange) {entry : Entry} {pathname : Text}
    (h : entry.pathname = some pathname) : Verdict entry pathname (validateEntry range entry) := by
  have hlinks : (entry.symlink.any (!linkStaysBeneath (readBehind pathname 0) ·) ||
      entry.hardlink.any (!safeArchivePath ·)) = true ↔
      ¬(entry.LinkFrom (readBehind pathname 0) ∧
        ∀ target, entry.hardlink = some target → safeArchivePath target = true) := by
    rw [Bool.or_eq_true, not_and_or]
    refine or_congr ?_ ?_
    · simp [Entry.LinkFrom, Option.any_eq_true, ← linkStaysBeneath_iff]
    · simp [Option.any_eq_true]
  unfold validateEntry
  rw [h]
  dsimp only
  split_ifs with hempty hsafe hlink htype hpriv hrange
  · exact .skip hempty
  · exact .reject hempty fun hpasses => by simp [hpasses.plain.safe] at hsafe
  · exact .reject hempty fun hpasses => hlinks.mp hlink ⟨hpasses.link, hpasses.hard⟩
  · exact .reject hempty fun hpasses => hpasses.plain.type htype
  · exact .reject hempty fun hpasses => hpasses.plain.privileged hpriv
  · refine .reject hempty fun hpasses => ?_
    simp [hpasses.plain.owner] at hrange
  · obtain ⟨hfrom, hhard⟩ := not_not.mp (mt hlinks.mpr hlink)
    refine .accept ⟨⟨by simpa using hsafe, htype, hpriv, by simpa using hrange⟩, hfrom, hhard⟩
      rfl rfl

theorem length_dotSlashes (k : Nat) : (dotSlashes k).length = 2 * k := by
  simp [dotSlashes, List.length_flatten, Nat.mul_comm]

theorem length_skipDotSlash_le (path : Text) : (skipDotSlash path).length ≤ path.length := by
  fun_induction skipDotSlash path with
  | case1 path ih =>
    rw [List.length_cons, List.length_cons]
    omega
  | case2 path => exact Nat.le_refl _

theorem readBehind_dotSlashes (k : Nat) (pathname : Text) :
    readBehind (dotSlashes k ++ pathname) 0 = readBehind pathname k := by
  have hle := length_skipDotSlash_le pathname
  unfold readBehind
  rw [skipDotSlash_dotSlashes, List.length_append, length_dotSlashes]
  congr 1
  omega

/-- Which checks an entry with prefixes passes: those of its links may be others. -/
theorem passes_dotted_iff {entry : Entry} {pathname : Text} {k j : Nat} :
    (entry.dotted k j).Passes (dotSlashes k ++ pathname) ↔
      entry.Plain (skipDotSlash pathname) ∧ entry.LinkFrom (readBehind pathname k) ∧
        ∀ target, entry.hardlink = some target → j = 0 ∧ safeArchivePath target = true := by
  have hhard : (∀ target, (entry.dotted k j).hardlink = some target →
      safeArchivePath target = true) ↔
      ∀ target, entry.hardlink = some target → j = 0 ∧ safeArchivePath target = true := by
    simp only [Entry.dotted, Option.map_eq_some_iff, forall_exists_index, and_imp,
      forall_apply_eq_imp_iff₂]
    refine forall_congr' fun target => forall_congr' fun _ => ?_
    cases j with
    | zero => simp [dotSlashes]
    | succ j => simp [safeArchivePath_dotSlashes]
  constructor
  · rintro ⟨hplain, hlink, hlinks⟩
    rw [skipDotSlash_dotSlashes] at hplain
    rw [readBehind_dotSlashes] at hlink
    exact ⟨⟨hplain.safe, hplain.type, hplain.privileged, hplain.owner⟩, hlink, hhard.mp hlinks⟩
  · rintro ⟨hplain, hlink, hlinks⟩
    refine ⟨?_, ?_, hhard.mpr hlinks⟩
    · rw [skipDotSlash_dotSlashes]
      exact ⟨hplain.safe, hplain.type, hplain.privileged, hplain.owner⟩
    · rwa [readBehind_dotSlashes]

/-- Two entries with one pathname have the same verdict if both pass or both do not. -/
theorem sameVerdict_iff {entry : Entry} {pathname : Text} {k j : Nat}
    {first second : Except McError (Option Entry)} (hne : skipDotSlash pathname ≠ [])
    (hfirst : Verdict entry pathname first)
    (hsecond : Verdict (entry.dotted k j) (dotSlashes k ++ pathname) second) :
    SameVerdict first second ↔
      (entry.Passes pathname ↔ (entry.dotted k j).Passes (dotSlashes k ++ pathname)) := by
  have hskip := skipDotSlash_dotSlashes k pathname
  cases hfirst with
  | skip h => exact absurd h hne
  | reject _ hnot =>
    cases hsecond with
    | skip h => exact absurd (hskip.symm.trans h) hne
    | reject _ hnot' => exact iff_of_true trivial (iff_of_false hnot hnot')
    | accept h' _ _ => exact iff_of_false id fun h => hnot (h.mpr h')
  | accept h hpath hlink =>
    cases hsecond with
    | skip h => exact absurd (hskip.symm.trans h) hne
    | reject _ hnot' => exact iff_of_false id fun h' => hnot' (h'.mp h)
    | accept h' hpath' hlink' =>
      refine iff_of_true ⟨?_, ?_⟩ (iff_of_true h h')
      · rw [hpath, hpath', hskip]
      · -- an accepted hard link has no prefix
        obtain ⟨-, -, hhard⟩ := passes_dotted_iff.mp h'
        rw [hlink, hlink', Entry.dotted]
        cases htarget : entry.hardlink with
        | none => rfl
        | some target =>
          rw [(hhard target htarget).1]
          rfl

/-- A `./` prefix keeps the verdict if and only if, for an entry that passes the checks which do
    not look at links, it does not stand in front of the target of a hard link, and the symbolic
    link may climb as far from what the moved pathname reads with the prefix as without it. -/
theorem validateEntry_dotted_iff (range : SubidRange) (entry : Entry) (k j : Nat) :
    SameVerdict (validateEntry range entry) (validateEntry range (entry.dotted k j)) ↔
      ∀ pathname, entry.pathname = some pathname → entry.Plain (skipDotSlash pathname) →
        (∀ target, entry.hardlink = some target → safeArchivePath target = true →
          entry.LinkFrom (readBehind pathname 0) → j = 0) ∧
        ((∀ target, entry.hardlink = some target → j = 0 ∧ safeArchivePath target = true) →
          (entry.LinkFrom (readBehind pathname 0) ↔ entry.LinkFrom (readBehind pathname k))) := by
  cases hpathname : entry.pathname with
  | none => simp [validateEntry, Entry.dotted, hpathname, SameVerdict]
  | some pathname =>
    have hfirst := validateEntry_verdict range hpathname
    have hdotted : (entry.dotted k j).pathname = some (dotSlashes k ++ pathname) := by
      simp [Entry.dotted, hpathname]
    have hsecond := validateEntry_verdict range hdotted
    simp only [Option.some.injEq, forall_eq']
    by_cases hempty : skipDotSlash pathname = []
    · -- both are skipped
      have hplain : ¬entry.Plain (skipDotSlash pathname) := fun h => by
        have := h.safe
        rw [hempty] at this
        exact absurd this (by decide)
      refine iff_of_true ?_ fun h => absurd h hplain
      unfold validateEntry
      rw [hpathname, hdotted]
      dsimp only
      rw [skipDotSlash_dotSlashes, if_pos hempty, if_pos hempty]
      trivial
    · rw [sameVerdict_iff hempty hfirst hsecond, passes_dotted_iff]
      constructor
      · rintro h hplain
        refine ⟨fun target htarget hsafe hlink => ?_,
          fun hhard => ⟨fun hlink => ?_, fun hlink => ?_⟩⟩
        · have hall : ∀ target, entry.hardlink = some target → safeArchivePath target = true := by
            intro target' htarget'
            rwa [← Option.some.inj (htarget.symm.trans htarget')]
          exact ((h.mp ⟨hplain, hlink, hall⟩).2.2 target htarget).1
        · exact (h.mp ⟨hplain, hlink, fun t ht => (hhard t ht).2⟩).2.1
        · exact (h.mpr ⟨hplain, hlink, hhard⟩).link
      · intro h
        constructor
        · rintro ⟨hplain, hlink, hhard⟩
          have hprefix : ∀ target, entry.hardlink = some target →
              j = 0 ∧ safeArchivePath target = true := fun target htarget =>
            ⟨(h hplain).1 target htarget (hhard target htarget) hlink, hhard target htarget⟩
          exact ⟨hplain, ((h hplain).2 hprefix).mp hlink, hprefix⟩
        · rintro ⟨hplain, hlink, hhard⟩
          exact ⟨hplain, ((h hplain).2 hhard).mpr hlink, fun t ht => (hhard t ht).2⟩

/-- A hard link of an archive made from `.` is refused, although the same link without the prefix
    is accepted; so is a symbolic link in a directory, whose name has been moved away. -/
theorem validateEntry_refuses_dotted :
    let hard : Entry := ⟨some "b".toList, none, some "a".toList, .regular, false, 0, 0⟩
    let soft : Entry := ⟨some "a/l".toList, some "../x".toList, none, .symlink, false, 0, 0⟩
    validateEntry ⟨100000, 100000⟩ hard = .ok (some { hard with uid := 100000, gid := 100000 }) ∧
      validateEntry ⟨100000, 100000⟩ (hard.dotted 1 1) =
        .error (errorSet .usage .zero "image-import" "b".toList "unsafe archive link") ∧
      validateEntry ⟨100000, 100000⟩ soft = .ok (some { soft with uid := 100000, gid := 100000 }) ∧
      validateEntry ⟨100000, 100000⟩ (soft.dotted 1 0) =
        .error (errorSet .usage .zero "image-import" "l".toList "unsafe archive link") := by
  decide

end MiniContainer
