import MiniContainer.ForStd.Tokens
import MiniContainer.Native.Identity
import MiniContainer.Native.Positions
import MiniContainer.Spec.Positions

/-!
# The languages of the recognisers

Which texts `util/validate.c` accepts as names, as environment assignments and as archive paths.
Each language is described without the order in which the code tests a text.
-/

namespace MiniContainer

open CString (Text Outside peek pieces joinFields strchr strstr strchrAt strlenAt peek_eq
  pieces_ne_nil spell strchrAt_eq strchr_eq_none strchr_eq_some)

/-! ## Character classes -/

/-- `[a-z0-9]`. -/
def LowerOrDigit (c : Char) : Prop := ('a' ≤ c ∧ c ≤ 'z') ∨ ('0' ≤ c ∧ c ≤ '9')

/-- `[A-Za-z_]`. -/
def KeyStart (c : Char) : Prop := ('A' ≤ c ∧ c ≤ 'Z') ∨ ('a' ≤ c ∧ c ≤ 'z') ∨ c = '_'

theorem isLower_iff (c : Char) : c.isLower = true ↔ 'a' ≤ c ∧ c ≤ 'z' := by
  unfold Char.isLower
  rw [Bool.and_eq_true, decide_eq_true_iff, decide_eq_true_iff]
  exact Iff.rfl

theorem isUpper_iff (c : Char) : c.isUpper = true ↔ 'A' ≤ c ∧ c ≤ 'Z' := by
  unfold Char.isUpper
  rw [decide_eq_true_iff]
  exact Iff.rfl

theorem isDigit_iff (c : Char) : c.isDigit = true ↔ '0' ≤ c ∧ c ≤ '9' := by
  unfold Char.isDigit
  rw [Bool.and_eq_true, decide_eq_true_iff, decide_eq_true_iff]
  exact Iff.rfl

theorem isAlpha_iff (c : Char) :
    c.isAlpha = true ↔ ('A' ≤ c ∧ c ≤ 'Z') ∨ ('a' ≤ c ∧ c ≤ 'z') := by
  unfold Char.isAlpha
  rw [Bool.or_eq_true, isUpper_iff, isLower_iff]

/-! ## Names -/

/-- `[a-z0-9][a-z0-9._-]*`, of at most 64 characters and without two dots in a row. -/
structure IsName (name : Text) : Prop where
  nonempty : 1 ≤ name.length
  short : name.length ≤ 64
  chars : ∀ c ∈ name, LowerOrDigit c ∨ c = '.' ∨ c = '_' ∨ c = '-'
  first : ∀ c ∈ name.head?, LowerOrDigit c
  dots : ¬"..".toList <:+: name

theorem nameChar_iff (c : Char) :
    (c.isLower || c.isDigit || c == '.' || c == '_' || c == '-') = true ↔
      LowerOrDigit c ∨ c = '.' ∨ c = '_' ∨ c = '-' := by
  simp only [Bool.or_eq_true, isLower_iff, isDigit_iff, beq_iff_eq, LowerOrDigit, or_assoc]

/-- The first character is also one that names may contain, so it is no capital letter. -/
theorem isAlphanum_of_nameChar {c : Char} (h : LowerOrDigit c ∨ c = '.' ∨ c = '_' ∨ c = '-') :
    c.isAlphanum = true ↔ LowerOrDigit c := by
  rcases h with h | rfl | rfl | rfl
  · refine iff_of_true ?_ h
    unfold Char.isAlphanum
    rw [Bool.or_eq_true, isAlpha_iff, isDigit_iff]
    exact h.imp_left .inr
  all_goals exact iff_of_false (by decide) (by unfold LowerOrDigit; decide)

theorem validName_iff (name : Text) : validName name = true ↔ IsName name := by
  have hchars : name.all (fun c => c.isLower || c.isDigit || c == '.' || c == '_' || c == '-') =
      true ↔ ∀ c ∈ name, LowerOrDigit c ∨ c = '.' ∨ c = '_' ∨ c = '-' := by
    rw [List.all_eq_true]
    exact forall₂_congr fun c _ => nameChar_iff c
  simp only [validName, Bool.and_eq_true, bne_iff_ne, decide_eq_true_eq, hchars,
    Option.isNone_iff_eq_none, CString.strstr_eq_none_iff]
  cases name with
  | nil =>
    constructor
    · rintro ⟨⟨⟨⟨h, -⟩, -⟩, -⟩, -⟩
      exact absurd rfl h
    · intro h
      exact absurd h.nonempty (by decide)
  | cons c rest =>
    constructor
    · rintro ⟨⟨⟨⟨-, hshort⟩, hfirst⟩, hchars⟩, hdots⟩
      refine ⟨by simp, hshort, hchars, ?_, hdots⟩
      intro d hd
      obtain rfl : c = d := by simpa using hd
      exact (isAlphanum_of_nameChar (hchars c List.mem_cons_self)).mp (by simpa using hfirst)
    · intro h
      refine ⟨⟨⟨⟨by simp, h.short⟩, ?_⟩, h.chars⟩, h.dots⟩
      have hfirst := h.first c (by simp)
      simpa using (isAlphanum_of_nameChar (.inl hfirst)).mpr hfirst

/-! ## Assignments -/

/-- `[A-Za-z_][A-Za-z0-9_]*`. -/
structure IsKey (key : Text) : Prop where
  nonempty : key ≠ []
  first : ∀ c ∈ key.head?, KeyStart c
  chars : ∀ c ∈ key, KeyStart c ∨ ('0' ≤ c ∧ c ≤ '9')

/-- `KEY=VALUE` with a value on one line. -/
def IsAssignment (assignment : Text) : Prop :=
  ∃ key value, assignment = key ++ '=' :: value ∧ IsKey key ∧ '\n' ∉ value ∧ '\r' ∉ value

theorem keyStart_iff (c : Char) : (c.isAlpha || c == '_') = true ↔ KeyStart c := by
  rw [Bool.or_eq_true, isAlpha_iff, beq_iff_eq, KeyStart, or_assoc]

theorem keyChar_iff (c : Char) :
    (c.isAlphanum || c == '_') = true ↔ KeyStart c ∨ ('0' ≤ c ∧ c ≤ '9') := by
  unfold Char.isAlphanum
  rw [Bool.or_eq_true, Bool.or_eq_true, or_right_comm, ← Bool.or_eq_true, keyStart_iff,
    isDigit_iff]

/-- The separator that ends a key is the first one. -/
theorem IsKey.not_mem {key : Text} (h : IsKey key) : '=' ∉ key := by
  intro hmem
  exact absurd (h.chars _ hmem) (by unfold KeyStart; decide)

theorem IsKey.strchr {key : Text} (h : IsKey key) (value : Text) :
    strchr '=' (key ++ '=' :: value) = some (key, value) := CString.strchr_append h.not_mem

theorem isKey_cons_iff (first : Char) (others : Text) :
    ((first.isAlpha || first == '_') && others.all (fun c => c.isAlphanum || c == '_')) = true ↔
      IsKey (first :: others) := by
  simp only [Bool.and_eq_true, keyStart_iff, List.all_eq_true, keyChar_iff]
  constructor
  · rintro ⟨hfirst, hothers⟩
    refine ⟨by simp, by simpa using hfirst, ?_⟩
    intro c hc
    rcases List.mem_cons.mp hc with rfl | hc
    · exact .inl hfirst
    · exact hothers c hc
  · intro hkey
    exact ⟨hkey.first first (by simp), fun c hc => hkey.chars c (List.mem_cons_of_mem _ hc)⟩

theorem validEnvironment_iff (assignment : Text) :
    validEnvironment assignment = true ↔ IsAssignment assignment := by
  have hparts : ∀ (first : Char) (others value : Text),
      ((first.isAlpha || first == '_') && others.all (fun c => c.isAlphanum || c == '_') &&
        (strchr '\n' value).isNone && (strchr '\r' value).isNone) = true ↔
      IsKey (first :: others) ∧ '\n' ∉ value ∧ '\r' ∉ value := by
    intro first others value
    rw [Bool.and_eq_true, Bool.and_eq_true, isKey_cons_iff, Option.isNone_iff_eq_none,
      Option.isNone_iff_eq_none, strchr_eq_none, strchr_eq_none, and_assoc]
  unfold validEnvironment
  constructor
  · intro h
    cases hsplit : strchr '=' assignment with
    | none => simp [hsplit] at h
    | some parts =>
      obtain ⟨key, value⟩ := parts
      cases key with
      | nil => simp [hsplit] at h
      | cons first others =>
        rw [hsplit] at h
        exact ⟨_, value, (strchr_eq_some hsplit).1, (hparts first others value).mp h⟩
  · rintro ⟨key, value, rfl, hk, hvalue⟩
    cases key with
    | nil => exact absurd rfl hk.nonempty
    | cons first others =>
      rw [hk.strchr value]
      exact (hparts first others value).mpr ⟨hk, hvalue⟩

/-! ## Installing assignments -/

theorem setenv_key {key : Text} (h : IsKey key) (value : Text) (environ : Variables) :
    ∃ environ', setenv key value environ = .ok environ' ∧ (key, value) ∈ environ' ∧
      ∀ entry ∈ environ', entry = (key, value) ∨ entry ∈ environ := by
  have hkey : ¬ (key = [] ∨ '=' ∈ key) := not_or.mpr ⟨h.nonempty, h.not_mem⟩
  by_cases hset : environ.any (·.1 = key) = true
  · refine ⟨_, by rw [setenv, if_neg hkey, if_pos hset], ?_, ?_⟩
    · obtain ⟨entry, hentry, hname⟩ := List.any_eq_true.mp hset
      exact List.mem_map.mpr ⟨entry, hentry, if_pos (of_decide_eq_true hname)⟩
    · intro entry hentry
      obtain ⟨old, hold, rfl⟩ := List.mem_map.mp hentry
      split
      · exact .inl rfl
      · exact .inr hold
  · refine ⟨_, by rw [setenv, if_neg hkey, if_neg hset], by simp, ?_⟩
    intro entry hentry
    rcases List.mem_append.mp hentry with hold | hnew
    · exact .inr hold
    · exact .inl (by simpa using hnew)

/-- Assignments of the language are installed, whatever was set before, and every variable that
    they add has a key. -/
theorem installAssignments_keys {assignments : List Text}
    (h : ∀ a ∈ assignments, IsAssignment a) (environ : Variables) :
    ∃ environ', installAssignments assignments environ = .ok environ' ∧
      ∀ entry ∈ environ', IsKey entry.1 ∨ entry ∈ environ := by
  induction assignments generalizing environ with
  | nil => exact ⟨environ, rfl, fun entry hentry => .inr hentry⟩
  | cons assignment others ih =>
    obtain ⟨⟨key, value, rfl, hkey, -⟩, hothers⟩ := List.forall_mem_cons.mp h
    obtain ⟨next, hset, -, hnext⟩ := setenv_key hkey value environ
    obtain ⟨environ', hrest, hentries⟩ := ih hothers next
    refine ⟨environ', ?_, ?_⟩
    · rw [installAssignments, hkey.strchr value]
      dsimp only
      rw [hset]
      exact hrest
    · intro entry hentry
      rcases hentries entry hentry with hk | hold
      · exact .inl hk
      · rcases hnext entry hold with rfl | hold
        · exact .inl hkey
        · exact .inr hold

theorem installEnvironment_keys {config : RunConfig}
    (h : ∀ a ∈ config.environment, IsAssignment a) :
    ∃ environ, installEnvironment config = .ok environ ∧ ∀ entry ∈ environ, IsKey entry.1 := by
  have hpathKey : IsKey "PATH".toList := (isKey_cons_iff 'P' "ATH".toList).mp (by decide)
  have hhomeKey : IsKey "HOME".toList := (isKey_cons_iff 'H' "OME".toList).mp (by decide)
  have hhostKey : IsKey "HOSTNAME".toList := (isKey_cons_iff 'H' "OSTNAME".toList).mp (by decide)
  obtain ⟨path, hpath, -, hpaths⟩ := setenv_key hpathKey
    "/usr/local/sbin:/usr/local/bin:/usr/sbin:/usr/bin:/sbin:/bin".toList []
  obtain ⟨home, hhome, -, hhomes⟩ := setenv_key hhomeKey
    (if config.user = 0 then "/root".toList else "/".toList) path
  obtain ⟨host, hhost, -, hhosts⟩ := setenv_key hhostKey config.hostname home
  obtain ⟨environ, hrest, hentries⟩ := installAssignments_keys h host
  refine ⟨environ, ?_, ?_⟩
  · simp only [installEnvironment, bind, Except.bind, hpath, hhome, hhost]
    exact hrest
  · intro entry hentry
    rcases hentries entry hentry with hk | hentry
    · exact hk
    rcases hhosts entry hentry with rfl | hentry
    · exact hhostKey
    rcases hhomes entry hentry with rfl | hentry
    · exact hhomeKey
    rcases hpaths entry hentry with rfl | hentry
    · exact hpathKey
    · exact absurd hentry List.not_mem_nil

/-- The recognisers accept exactly their languages, and every assignment that is accepted is taken
    apart into a key and a value when the environment is installed. -/
theorem recognisers_exact (name assignment : Text) (config : RunConfig) :
    (validName name = true ↔ IsName name) ∧
      (validEnvironment assignment = true ↔ IsAssignment assignment) ∧
      (validEnvironment assignment = true → ∃ key value,
        strchr '=' assignment = some (key, value) ∧ IsKey key ∧ assignment = key ++ '=' :: value) ∧
      ((∀ a ∈ config.environment, validEnvironment a = true) →
        ∃ environ, installEnvironment config = .ok environ ∧ ∀ entry ∈ environ, IsKey entry.1) := by
  refine ⟨validName_iff name, validEnvironment_iff assignment, ?_, ?_⟩
  · intro h
    obtain ⟨key, value, rfl, hkey, -⟩ := (validEnvironment_iff assignment).mp h
    exact ⟨key, value, hkey.strchr value, hkey, rfl⟩
  · intro h
    exact installEnvironment_keys fun a ha => (validEnvironment_iff a).mp (h a ha)

/-! ## Archive paths -/

/-- A component that names something: not empty, `.` or `..`, and free of separators. -/
structure IsComponent (component : Text) : Prop where
  nonempty : component ≠ []
  no_slash : '/' ∉ component
  no_backslash : '\\' ∉ component
  not_dot : component ≠ ".".toList
  not_dotdot : component ≠ "..".toList

/-- One or more components with single slashes between them and at most one slash behind them. -/
def IsSafePath (path : Text) : Prop :=
  ∃ components, components ≠ [] ∧ (∀ c ∈ components, IsComponent c) ∧
    (path = joinFields '/' components ∨ path = joinFields '/' components ++ ['/'])

theorem visitedComponents_nil : visitedComponents [] = [] := rfl

theorem visitedComponents_of_not_mem {path : Text} (hne : path ≠ []) (h : '/' ∉ path) :
    visitedComponents path = [path] := by
  unfold visitedComponents
  rw [CString.pieces_of_not_mem h]
  simp [hne]

/-- The components behind a slash are those of the text that follows it. -/
theorem visitedComponents_append {component rest : Text} (h : '/' ∉ component) :
    visitedComponents (component ++ '/' :: rest) = component :: visitedComponents rest := by
  unfold visitedComponents
  rw [CString.pieces_append h]
  obtain ⟨first, others, hpieces⟩ := List.exists_cons_of_ne_nil (pieces_ne_nil '/' rest)
  rw [hpieces]
  dsimp only
  rw [List.getLast?_cons_cons]
  split <;> rfl

theorem peek_of_drop {path : Text} {i : Nat} {c : Char} {rest : Text}
    (h : path.drop i = c :: rest) : peek path i = .ok (some c) := by
  have hlt : i < path.length := by
    by_contra hge
    rw [List.drop_eq_nil_of_le (by omega)] at h
    cases h
  rw [peek_eq (Nat.le_of_lt hlt), h, List.head?_cons]

theorem refusedAt_eq {path component rest : Text} {i : Nat}
    (h : path.drop i = component ++ rest) :
    refusedAt path i component.length = .ok (!safeComponent component) := by
  rcases component with _ | ⟨a, _ | ⟨b, _ | ⟨c, others⟩⟩⟩
  · rfl
  · have hfirst : peek path i = .ok (some a) := peek_of_drop h
    simp only [refusedAt, hfirst, ok_bind, ok_pure]
    refine congrArg Except.ok (Bool.eq_iff_iff.mpr ?_)
    simp [safeComponent]
  · have hfirst : peek path i = .ok (some a) := peek_of_drop h
    have hsecond : peek path (i + 1) = .ok (some b) := by
      have hdrop : path.drop (i + 1) = b :: rest := by
        rw [← List.drop_drop, h]
        rfl
      exact peek_of_drop hdrop
    simp only [refusedAt, hfirst, hsecond, ok_bind, ok_pure]
    by_cases ha : a = '.'
    · subst ha
      refine congrArg Except.ok (Bool.eq_iff_iff.mpr ?_)
      simp [safeComponent]
    · simp [ha, safeComponent]
  · simp [refusedAt, safeComponent, ok_pure]

theorem safeComponentsAt_nul {path : Text} {i : Nat} (h : peek path i = .ok none) :
    safeComponentsAt path i = .ok true := by
  rw [safeComponentsAt, h]

theorem safeComponentsAt_last {path : Text} {i : Nat} {c : Char} (h : peek path i = .ok (some c))
    (hs : strchrAt path '/' i = .ok none) :
    safeComponentsAt path i =
      (do return !(← refusedAt path i (← strlenAt path i))) := by
  rw [safeComponentsAt, h]
  dsimp only
  split <;> simp_all

theorem safeComponentsAt_separator {path : Text} {i separator : Nat} {c : Char}
    (h : peek path i = .ok (some c)) (hs : strchrAt path '/' i = .ok (some separator)) :
    safeComponentsAt path i =
      (refusedAt path i (separator - i)).bind fun refused =>
        if refused then .ok false else safeComponentsAt path (separator + 1) := by
  rw [safeComponentsAt, h]
  dsimp only
  split
  · simp_all
  · simp_all
  · rename_i found hfound
    obtain rfl := Option.some.inj (Except.ok.inj (hfound.symm.trans hs))
    cases refusedAt path i (found - i) with
    | error e => rfl
    | ok refused => cases refused <;> rfl

/-- The loop visits the components of the text from its position on. -/
theorem safeComponentsAt_eq {path : Text} {i : Nat} (h : i ≤ path.length) :
    safeComponentsAt path i = .ok ((visitedComponents (path.drop i)).all safeComponent) := by
  induction hn : path.length - i using Nat.strong_induction_on generalizing i with
  | _ n ih =>
    obtain ⟨-, hdrop, hpeek⟩ | ⟨c, hlt, hdrop, hpeek⟩ := CString.peek_cases h
    · rw [safeComponentsAt_nul hpeek, hdrop]
      rfl
    · have hfound := strchrAt_eq '/' h
      cases hs : strchr '/' (path.drop i) with
      | none =>
        rw [hs] at hfound
        have hmem := CString.strchr_eq_none.mp hs
        have hne : path.drop i ≠ [] := by simp [hdrop]
        rw [safeComponentsAt_last hpeek hfound, CString.strlenAt_eq h, ok_bind,
          ← List.length_drop, refusedAt_eq (List.append_nil _).symm, ok_bind,
          visitedComponents_of_not_mem hne hmem]
        simp [ok_pure]
      | some parts =>
        obtain ⟨component, rest⟩ := parts
        obtain ⟨hparts, hmem⟩ := strchr_eq_some hs
        rw [hs] at hfound
        have hlength := congrArg List.length hparts
        simp only [List.length_drop, List.length_append, List.length_cons] at hlength
        have hrest : path.drop (i + component.length + 1) = rest := by
          rw [Nat.add_assoc, ← List.drop_drop]
          exact (take_drop_of_strchr hs).2
        have hnext := ih _ (by omega) (i := i + component.length + 1) (by omega) rfl
        rw [safeComponentsAt_separator hpeek hfound, Nat.add_sub_cancel_left, refusedAt_eq hparts,
          hnext, hrest, hparts, visitedComponents_append hmem, List.all_cons, Except.bind]
        cases safeComponent component <;> rfl

theorem safeArchivePathAt_eq (path : Text) :
    safeArchivePathAt path = .ok (safeArchivePath path) := by
  rw [safeArchivePathAt, peek_eq (Nat.zero_le _), ok_bind,
    strchrAt_eq _ (Nat.zero_le _), ok_bind, safeComponentsAt_eq (Nat.zero_le _),
    List.drop_zero, safeArchivePath]
  have hbackslash : (strchr '\\' path).isSome = path.contains '\\' := by
    cases hfind : strchr '\\' path with
    | none => simpa using CString.strchr_eq_none.mp hfind
    | some parts => simp [(strchr_eq_some hfind).1]
  simp only [Option.isSome_map, hbackslash, ok_pure]
  cases path with
  | nil => rfl
  | cons c rest =>
    by_cases hslash : c = '/'
    · simp [hslash]
    · cases (c :: rest).contains '\\' <;> simp [hslash]

/-! ## The language of archive paths -/

theorem joinFields_eq_spell (c : Text) (cs : List Text) :
    joinFields '/' (c :: cs) = c ++ spell cs := rfl

theorem safeComponent_iff (c : Text) :
    safeComponent c = true ↔ c ≠ [] ∧ c ≠ ".".toList ∧ c ≠ "..".toList := by
  simp [safeComponent, and_assoc]

/-- Spelled out again, the visited components give the path, up to a slash behind them. -/
theorem joinFields_visitedComponents {path : Text} (hne : visitedComponents path ≠ []) :
    path = joinFields '/' (visitedComponents path) ∨
      path = joinFields '/' (visitedComponents path) ++ ['/'] := by
  obtain ⟨first, others, hpieces⟩ := List.exists_cons_of_ne_nil (pieces_ne_nil '/' path)
  have hpath : path = first ++ spell others := by
    have hspell := CString.spell_pieces path
    rw [hpieces, CString.spell_cons] at hspell
    exact (List.cons.inj hspell).2.symm
  unfold visitedComponents at hne ⊢
  rw [hpieces] at hne ⊢
  dsimp only at hne ⊢
  split
  · rename_i hlast
    right
    rw [if_pos hlast] at hne
    obtain ⟨init, hinit⟩ := List.getLast?_eq_some_iff.mp hlast
    rw [hinit, List.dropLast_concat] at hne ⊢
    cases init with
    | nil => exact absurd rfl hne
    | cons c cs =>
      obtain ⟨rfl, rfl⟩ := List.cons.inj hinit
      rw [joinFields_eq_spell, hpath, List.append_assoc]
      exact congrArg (first ++ ·) (CString.spell_append cs [[]])
  · left
    rw [joinFields_eq_spell]
    exact hpath

theorem visitedComponents_joinFields {components : List Text} (hne : components ≠ [])
    (h : ∀ c ∈ components, c ≠ [] ∧ '/' ∉ c) {tail : Text} (htail : tail = [] ∨ tail = ['/']) :
    visitedComponents (joinFields '/' components ++ tail) = components := by
  induction components with
  | nil => exact absurd rfl hne
  | cons c cs ih =>
    obtain ⟨⟨hc, hslash⟩, hcs⟩ := List.forall_mem_cons.mp h
    cases cs with
    | nil =>
      rw [joinFields_eq_spell, CString.spell_nil, List.append_nil]
      rcases htail with rfl | rfl
      · rw [List.append_nil, visitedComponents_of_not_mem hc hslash]
      · rw [visitedComponents_append hslash, visitedComponents_nil]
    | cons d ds =>
      rw [CString.joinFields_cons_cons, List.append_assoc, List.cons_append,
        visitedComponents_append hslash, ih (by simp) hcs]

theorem visitedComponents_ne_nil {path : Text} (hne : path ≠ []) : visitedComponents path ≠ [] := by
  cases hs : strchr '/' path with
  | none =>
    rw [visitedComponents_of_not_mem hne (CString.strchr_eq_none.mp hs)]
    exact List.cons_ne_nil _ _
  | some parts =>
    obtain ⟨rfl, hmem⟩ := strchr_eq_some hs
    rw [visitedComponents_append hmem]
    exact List.cons_ne_nil _ _

theorem subset_joinFields {c : Text} {components : List Text} (hc : c ∈ components) :
    c ⊆ joinFields '/' components := by
  intro x hx
  cases components with
  | nil => exact absurd hc List.not_mem_nil
  | cons first others =>
    rcases List.mem_cons.mp hc with rfl | hc
    · exact List.mem_append_left _ hx
    · exact List.mem_append_right _
        (List.mem_flatMap.mpr ⟨c, hc, List.mem_cons_of_mem _ hx⟩)

theorem mem_joinFields {x : Char} {components : List Text} (h : x ∈ joinFields '/' components) :
    x = '/' ∨ ∃ c ∈ components, x ∈ c := by
  cases components with
  | nil => exact absurd h List.not_mem_nil
  | cons c cs =>
    rcases List.mem_append.mp h with hx | hx
    · exact .inr ⟨c, List.mem_cons_self, hx⟩
    · obtain ⟨d, hd, hx⟩ := List.mem_flatMap.mp hx
      rcases List.mem_cons.mp hx with rfl | hx
      · exact .inl rfl
      · exact .inr ⟨d, List.mem_cons_of_mem _ hd, hx⟩

theorem visitedComponents_of_joined {path : Text} {components : List Text} (hne : components ≠ [])
    (h : ∀ c ∈ components, IsComponent c)
    (hpath : path = joinFields '/' components ∨ path = joinFields '/' components ++ ['/']) :
    visitedComponents path = components := by
  have hplain : ∀ c ∈ components, c ≠ [] ∧ '/' ∉ c := fun c hc =>
    ⟨(h c hc).nonempty, (h c hc).no_slash⟩
  rcases hpath with rfl | rfl
  · simpa using visitedComponents_joinFields hne hplain (.inl rfl)
  · exact visitedComponents_joinFields hne hplain (.inr rfl)

theorem safeArchivePath_iff (path : Text) : safeArchivePath path = true ↔ IsSafePath path := by
  simp only [safeArchivePath, Bool.and_eq_true, bne_iff_ne, ne_eq, Bool.not_eq_true',
    List.contains_eq_mem, decide_eq_false_iff_not, List.all_eq_true, safeComponent_iff]
  constructor
  · rintro ⟨⟨⟨hne, hslash⟩, hbackslash⟩, hcomponents⟩
    have hvisited := visitedComponents_ne_nil hne
    refine ⟨visitedComponents path, hvisited, ?_, joinFields_visitedComponents hvisited⟩
    intro c hc
    obtain ⟨hnil, hdot, hdotdot⟩ := hcomponents c hc
    refine ⟨hnil, ?_, ?_, hdot, hdotdot⟩
    · refine CString.not_mem_of_mem_pieces (s := path) ?_
      unfold visitedComponents at hc
      dsimp only at hc
      split at hc
      · exact List.dropLast_subset _ hc
      · exact hc
    · intro hmem
      have hjoined := subset_joinFields hc hmem
      rcases joinFields_visitedComponents hvisited with hpath | hpath
      · exact hbackslash (hpath ▸ hjoined)
      · exact hbackslash (hpath ▸ List.mem_append_left _ hjoined)
  · rintro ⟨components, hne, hcomponents, hpath⟩
    have hvisited := visitedComponents_of_joined hne hcomponents hpath
    have hchars : ∀ x ∈ path, x = '/' ∨ ∃ c ∈ components, x ∈ c := by
      intro x hx
      rcases hpath with rfl | rfl
      · exact mem_joinFields hx
      · rcases List.mem_append.mp hx with hx | hx
        · exact mem_joinFields hx
        · exact .inl (List.mem_singleton.mp hx)
    have hnonempty : path ≠ [] := by
      rintro rfl
      exact hne hvisited.symm
    refine ⟨⟨⟨hnonempty, ?_⟩, ?_⟩, ?_⟩
    · -- in front of a leading slash there would be an empty component
      intro hslash
      obtain ⟨rest, rfl⟩ : ∃ rest, path = '/' :: rest := by
        cases path with
        | nil => cases hslash
        | cons c rest => exact ⟨rest, by rw [Option.some.inj hslash]⟩
      have hempty : [] ∈ components := by
        have hfirst : visitedComponents ([] ++ '/' :: rest) = [] :: visitedComponents rest :=
          visitedComponents_append List.not_mem_nil
        rw [← hvisited]
        exact hfirst ▸ List.mem_cons_self
      exact (hcomponents [] hempty).nonempty rfl
    · intro hmem
      rcases hchars _ hmem with h | ⟨c, hc, hx⟩
      · cases h
      · exact (hcomponents c hc).no_backslash hx
    · intro c hc
      rw [hvisited] at hc
      have hcomponent := hcomponents c hc
      exact ⟨hcomponent.nonempty, hcomponent.not_dot, hcomponent.not_dotdot⟩

/-! ## Lexical resolution -/

/-- The directory that a component leads to, without looking at the file system. -/
def lexicalStep (directory : List Text) (component : Text) : List Text :=
  if component = [] ∨ component = ".".toList then directory
  else if component = "..".toList then directory.dropLast
  else directory ++ [component]

/-- Where a path leads from a directory, without looking at the file system. -/
def lexicalResolve (base : List Text) (path : Text) : List Text :=
  (pieces '/' path).foldl lexicalStep (if path.head? = some '/' then [] else base)

theorem foldl_lexicalStep {components : List Text} (h : ∀ c ∈ components, IsComponent c)
    (base : List Text) : components.foldl lexicalStep base = base ++ components := by
  induction components generalizing base with
  | nil => simp
  | cons c cs ih =>
    obtain ⟨hc, hcs⟩ := List.forall_mem_cons.mp h
    rw [List.foldl_cons, ih hcs, lexicalStep, if_neg (not_or.mpr ⟨hc.nonempty, hc.not_dot⟩),
      if_neg hc.not_dotdot, List.append_assoc]
    rfl

/-- Nothing is entered behind a trailing slash. -/
theorem foldl_visitedComponents (path : Text) (base : List Text) :
    (pieces '/' path).foldl lexicalStep base = (visitedComponents path).foldl lexicalStep base := by
  unfold visitedComponents
  dsimp only
  split
  · rename_i hlast
    obtain ⟨init, hinit⟩ := List.getLast?_eq_some_iff.mp hlast
    rw [hinit, List.dropLast_concat, List.foldl_append]
    rfl
  · rfl

/-- `mc_safe_archive_path` accepts exactly the safe relative paths, and from any directory such a
    path leads to a strict descendant of it. -/
theorem safeArchivePath_exact (path : Text) :
    (safeArchivePathAt path = .ok true ↔ IsSafePath path) ∧
      safeArchivePathAt path = .ok (safeArchivePath path) ∧
      (safeArchivePathAt path = .ok true → ∀ base, ∃ names, names ≠ [] ∧
        lexicalResolve base path = base ++ names) := by
  have hreturns : safeArchivePathAt path = .ok true ↔ safeArchivePath path = true := by
    rw [safeArchivePathAt_eq, Except.ok.injEq]
  refine ⟨hreturns.trans (safeArchivePath_iff path), safeArchivePathAt_eq path, ?_⟩
  intro haccepted base
  have hsafe := hreturns.mp haccepted
  obtain ⟨components, hne, hcomponents, hpath⟩ := (safeArchivePath_iff path).mp hsafe
  have hrelative : path.head? ≠ some '/' := by
    simp only [safeArchivePath, Bool.and_eq_true, bne_iff_ne] at hsafe
    exact hsafe.1.1.2
  refine ⟨components, hne, ?_⟩
  rw [lexicalResolve, if_neg hrelative, foldl_visitedComponents,
    visitedComponents_of_joined hne hcomponents hpath, foldl_lexicalStep hcomponents]

end MiniContainer
