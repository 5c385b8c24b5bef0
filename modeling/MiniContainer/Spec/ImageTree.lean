import Mathlib.Logic.Relation
import MiniContainer.ForStd.List
import MiniContainer.ForStd.Path
import MiniContainer.Native.ImageTree

/-!
# Links of an image

Resolving a link of an image stays below the image root exactly when no `..` of any link's
own target is met at the root (`contained_iff_local`): a longer chain of links adds nothing.

`mc_link_stays_beneath` excludes that for a `..` in front of all names, when the link stands
in the directory that was checked. So the cases that are left are the links that stand
elsewhere, through a trailing slash or a hard link, and the `..` behind a name, which may be
another link (`links_contained_iff`).
-/

namespace MiniContainer.ImageTree

open CString (Text pieces)
open Relation (ReflTransGen)

variable {tree : Tree}

/-! ## Walks -/

/-- The components that stay in a directory or lead upwards. -/
def noName (component : Text) : Bool :=
  component = [] || component = ".".toList || component = "..".toList

/-- What one step of a walk can be. -/
inductive Step (tree : Tree) : Walk → Walk → Prop where
  | stay {n : Nat} {p : Path} {c : Text} {rest : List Text} (hc : c = [] ∨ c = ".".toList) :
      Step tree ⟨n, p, c :: rest⟩ ⟨n, p, rest⟩
  | up {n : Nat} {p : Path} {rest : List Text} (hp : p ≠ []) :
      Step tree ⟨n, p, "..".toList :: rest⟩ ⟨n, p.dropLast, rest⟩
  | enter {n : Nat} {p : Path} {c : Text} {rest : List Text} (hname : noName c = false)
      (hnode : tree.lookup (p ++ [c]) = some .directory) :
      Step tree ⟨n, p, c :: rest⟩ ⟨n, p ++ [c], rest⟩
  | file {n : Nat} {p : Path} {c : Text} (hname : noName c = false)
      (hnode : tree.lookup (p ++ [c]) = some .file) :
      Step tree ⟨n, p, [c]⟩ ⟨n, p ++ [c], []⟩
  | follow {n : Nat} {p : Path} {c target : Text} {rest : List Text} (hname : noName c = false)
      (hnode : tree.lookup (p ++ [c]) = some (.link target)) (hlimit : n < maxSymlinks) :
      Step tree ⟨n, p, c :: rest⟩ ⟨n + 1, linkBase p target, pieces '/' target ++ rest⟩

theorem noName_eq_false {c : Text} :
    noName c = false ↔ ¬(c = [] ∨ c = ".".toList) ∧ c ≠ "..".toList := by
  simp [noName, not_or]

/-- One walk leads to another one. -/
def Reaches (tree : Tree) : Walk → Walk → Prop := ReflTransGen (Step tree)

/-- A walk with nothing left stays where it is. -/
theorem Reaches.eq_of_done {n : Nat} {p : Path} {walk : Walk}
    (h : Reaches tree ⟨n, p, []⟩ walk) : walk = ⟨n, p, []⟩ := by
  rcases ReflTransGen.cases_head h with heq | ⟨next, hstep, -⟩
  · exact heq.symm
  · exact nomatch hstep

/-- A walk that ends at the root leads there also when more components follow. A walk that
    ends at a file would not, but the root is none. -/
theorem Reaches.append {walk : Walk} {n : Nat} (h : Reaches tree walk ⟨n, [], []⟩)
    (more : List Text) :
    Reaches tree { walk with pending := walk.pending ++ more } ⟨n, [], more⟩ := by
  induction h using ReflTransGen.head_induction_on with
  | refl => exact .refl
  | head hstep hrest ih =>
    cases hstep with
    | stay hc => exact .head (.stay hc) ih
    | up hp => exact .head (.up hp) ih
    | enter hname hnode => exact .head (.enter hname hnode) ih
    | file hname hnode =>
      have hend := congrArg Walk.position (Reaches.eq_of_done hrest)
      exact absurd hend.symm (List.append_ne_nil_of_right_ne_nil _ (List.cons_ne_nil _ _))
    | follow hname hnode hlimit =>
      refine .head (.follow hname hnode hlimit) ?_
      rw [List.append_assoc] at ih
      exact ih

/-- A walk that has followed fewer links gets at least as far. -/
theorem Reaches.earlier {walk walk' : Walk} (h : Reaches tree walk walk') {m : Nat}
    (hm : m ≤ walk.followed) :
    ∃ m', Reaches tree { walk with followed := m } { walk' with followed := m' } := by
  induction h using ReflTransGen.head_induction_on generalizing m with
  | refl => exact ⟨m, .refl⟩
  | head hstep hrest ih =>
    cases hstep with
    | stay hc =>
      obtain ⟨m', h'⟩ := ih hm
      exact ⟨m', .head (.stay hc) h'⟩
    | up hp =>
      obtain ⟨m', h'⟩ := ih hm
      exact ⟨m', .head (.up hp) h'⟩
    | enter hname hnode =>
      obtain ⟨m', h'⟩ := ih hm
      exact ⟨m', .head (.enter hname hnode) h'⟩
    | file hname hnode =>
      obtain ⟨m', h'⟩ := ih hm
      exact ⟨m', .head (.file hname hnode) h'⟩
    | follow hname hnode hlimit =>
      obtain ⟨m', h'⟩ := ih (Nat.succ_le_succ hm)
      exact ⟨m', .head (.follow hname hnode (Nat.lt_of_le_of_lt hm hlimit)) h'⟩

/-! ## Escaping -/

/-- Following some of the components of a link's target ends at the image root. -/
def MeetsRoot (tree : Tree) (path : Path) (target : Text) (components : List Text) : Prop :=
  ∃ n, Reaches tree (followLink path target components) ⟨n, [], []⟩

/-- Resolving a link of the tree never steps above its root. -/
def Contained (tree : Tree) : Prop :=
  ∀ path target, tree.lookup path = some (.link target) →
    ∀ walk, Reaches tree (followLink path target (pieces '/' target)) walk → ¬walk.Escapes

/-- Some link has a `..` in its own target that is met at the root. -/
def LocalEscape (tree : Tree) : Prop :=
  ∃ path target before after, tree.lookup path = some (.link target) ∧
    pieces '/' target = before ++ "..".toList :: after ∧ MeetsRoot tree path target before

/-- The `..` that leads above the root belongs to the target of a link that was followed on
    the way, or to the components that the walk started with. In the second case the ones in
    front of it lead to the root. -/
theorem localEscape_or {walk last : Walk} (h : Reaches tree walk last) (hlast : last.Escapes) :
    LocalEscape tree ∨ ∃ before after, walk.pending = before ++ "..".toList :: after ∧
      ∃ n, Reaches tree { walk with pending := before } ⟨n, [], []⟩ := by
  induction h using ReflTransGen.head_induction_on with
  | refl =>
    obtain ⟨n, p, pending⟩ := last
    obtain ⟨rfl, hhead⟩ : p = [] ∧ pending.head? = some "..".toList := hlast
    obtain ⟨after, rfl⟩ := List.head?_eq_some_iff.mp hhead
    exact .inr ⟨[], after, rfl, n, .refl⟩
  | head hstep hrest ih =>
    rcases ih with hlocal | ⟨before, after, hpending, n, hroot⟩
    · exact .inl hlocal
    cases hstep with
    | @stay _ _ c _ hc =>
      exact .inr ⟨c :: before, after, congrArg (c :: ·) hpending, n, .head (.stay hc) hroot⟩
    | up hp =>
      exact .inr ⟨_ :: before, after, congrArg (_ :: ·) hpending, n, .head (.up hp) hroot⟩
    | @enter _ _ c _ hname hnode =>
      exact .inr ⟨c :: before, after, congrArg (c :: ·) hpending, n,
        .head (.enter hname hnode) hroot⟩
    | file _ _ => exact absurd hpending.symm (by simp)
    | @follow m p c target rest hname hnode hlimit =>
      -- the `..` stands in the target of this link or behind the link
      rcases List.append_eq_append_iff.mp hpending with ⟨mid, hbefore, hrest'⟩ |
        ⟨mid, htarget, hmid⟩
      · refine .inr ⟨c :: mid, after, congrArg (c :: ·) hrest', n, ?_⟩
        refine .head (.follow hname hnode hlimit) ?_
        rw [hbefore] at hroot
        exact hroot
      · cases mid with
        | nil =>
          rw [List.nil_append] at hmid
          rw [List.append_nil] at htarget
          refine .inr ⟨[c], after, by rw [← hmid]; rfl, n, ?_⟩
          refine .head (.follow hname hnode hlimit) ?_
          rw [htarget, List.append_nil]
          exact hroot
        | cons d mid =>
          obtain ⟨rfl, -⟩ := List.cons.inj hmid
          obtain ⟨m', hearlier⟩ := Reaches.earlier hroot (m := 1) (Nat.le_add_left 1 m)
          refine .inl ⟨p ++ [c], target, before, mid, hnode, htarget, m', ?_⟩
          rw [followLink, List.dropLast_concat]
          exact hearlier

/-- A tree is contained when no link has a `..` of its own that is met at the root. -/
theorem contained_iff_local : Contained tree ↔ ¬LocalEscape tree := by
  constructor
  · rintro h ⟨path, target, before, after, hnode, htarget, n, hroot⟩
    have hall := Reaches.append hroot ("..".toList :: after)
    rw [show (followLink path target before).pending = before from rfl, ← htarget] at hall
    exact h path target hnode _ hall ⟨rfl, rfl⟩
  · intro h path target hnode walk hreach hescape
    rcases localEscape_or hreach hescape with hlocal | ⟨before, after, hpending, n, hroot⟩
    · exact h hlocal
    · exact h ⟨path, target, before, after, hnode, hpending, n, hroot⟩

/-! ## The check of a link -/

theorem applyComponents_append (a b : List Text) (depth : Nat) :
    applyComponents (a ++ b) depth = (applyComponents a depth).bind (applyComponents b) := by
  induction a generalizing depth with
  | nil => rfl
  | cons c a ih =>
    simp only [List.cons_append, applyComponents, ih]
    split_ifs <;> rfl

/-- Names lead down by one directory each. -/
theorem applyComponents_names {names : List Text} (h : ∀ c ∈ names, noName c = false)
    (depth : Nat) : applyComponents names depth = some (depth + names.length) := by
  induction names generalizing depth with
  | nil => rfl
  | cons c names ih =>
    obtain ⟨hc, hnames⟩ := List.forall_mem_cons.mp h
    obtain ⟨hstay, hup⟩ := noName_eq_false.mp hc
    rw [applyComponents, if_neg hup, if_pos (not_or.mp hstay), ih hnames, List.length_cons]
    congr 1
    omega

/-- Nothing is visited behind a trailing slash, and nothing would be counted there. -/
theorem applyComponents_visited (path : Text) (depth : Nat) :
    applyComponents (visitedComponents path) depth = applyComponents (pieces '/' path) depth := by
  unfold visitedComponents
  dsimp only
  split
  · rename_i hlast
    obtain ⟨init, hinit⟩ := List.getLast?_eq_some_iff.mp hlast
    rw [hinit, List.dropLast_concat, applyComponents_append]
    cases applyComponents init depth <;> rfl
  · rfl

/-- Without names, the check counts the directories that the walk is in. -/
theorem applyComponents_of_reaches {walk : Walk} {n : Nat} {p : Path}
    (hnames : ∀ c ∈ walk.pending, noName c = true) (h : Reaches tree walk ⟨n, p, []⟩) :
    applyComponents walk.pending walk.position.length = some p.length := by
  induction h using ReflTransGen.head_induction_on with
  | refl => rfl
  | head hstep hrest ih =>
    cases hstep with
    | @stay _ _ c _ hc =>
      have hup : c ≠ "..".toList := by rcases hc with rfl | rfl <;> decide
      rw [applyComponents, if_neg hup, if_neg fun h => not_or.mpr h hc]
      exact ih fun c hc => hnames c (List.mem_cons_of_mem _ hc)
    | up hp =>
      have hdepth := List.length_pos_of_ne_nil hp
      rw [applyComponents, if_pos rfl, if_neg (Nat.ne_of_gt hdepth), ← List.length_dropLast]
      exact ih fun c hc => hnames c (List.mem_cons_of_mem _ hc)
    | enter hname _
    | file hname _
    | follow hname _ _ => exact absurd (hnames _ List.mem_cons_self) (by rw [hname]; decide)

/-- A link was checked in the directory that it stands in. -/
def CheckedAt (dir : Path) (target : Text) : Prop :=
  (applyComponents (pieces '/' target) (linkBase dir target).length).isSome

/-- Where a link was checked, no `..` in front of its names is met at the root. -/
theorem CheckedAt.not_meetsRoot {path : Path} {target : Text} {before after : List Text}
    (h : CheckedAt path.dropLast target)
    (htarget : pieces '/' target = before ++ "..".toList :: after)
    (hnames : ∀ c ∈ before, noName c = true) : ¬MeetsRoot tree path target before := by
  rintro ⟨n, hroot⟩
  have hdepth : applyComponents before (linkBase path.dropLast target).length = some 0 :=
    applyComponents_of_reaches hnames hroot
  unfold CheckedAt at h
  rw [htarget, applyComponents_append, hdepth, Option.bind_some, applyComponents, if_pos rfl,
    if_pos rfl] at h
  exact nomatch h

/-! ## What the entries put into the tree -/

theorem safeArchivePath_names {path : Text} (h : safeArchivePath path = true) :
    ∀ c ∈ visitedComponents path, noName c = false := by
  intro c hc
  simp only [safeArchivePath, Bool.and_eq_true, List.all_eq_true] at h
  have hsafe := h.2 c hc
  simpa [safeComponent, noName, and_assoc] using hsafe

/-- How far the components lead above the directory that they start from. -/
def climb : List Text → Nat
  | [] => 0
  | component :: components =>
    if component = "..".toList then climb components + 1
    else if component = [] ∨ component = ".".toList then climb components
    else climb components - 1

/-- `apply_components` succeeds from every depth that the components do not climb. -/
theorem applyComponents_isSome_iff (components : List Text) (depth : Nat) :
    (applyComponents components depth).isSome = true ↔ climb components ≤ depth := by
  induction components generalizing depth with
  | nil => simp [applyComponents, climb]
  | cons component components ih =>
    rw [applyComponents, climb]
    split
    · split
      · simp only [Option.isSome_none, Bool.false_eq_true, false_iff]
        omega
      · rw [ih]
        omega
    · by_cases hstay : component = [] ∨ component = ".".toList
      · rw [if_pos hstay, if_neg fun h => not_or.mpr h hstay, ih]
      · rw [if_neg hstay, if_pos (not_or.mp hstay), ih]
        omega

/-- No component leads down by more than one directory. -/
theorem applyComponents_le {components : List Text} {depth depth' : Nat}
    (h : applyComponents components depth = some depth') : depth' ≤ depth + components.length := by
  induction components generalizing depth with
  | nil => exact Nat.le_of_eq (Option.some.inj h).symm
  | cons c components ih =>
    rw [applyComponents] at h
    rw [List.length_cons]
    split_ifs at h
    · have := ih h
      omega
    · have := ih h
      omega
    · have := ih h
      omega

theorem visitedComponents_length_le (path : Text) :
    (visitedComponents path).length ≤ path.count '/' + 1 := by
  rw [← CString.length_pieces]
  unfold visitedComponents
  dsimp only
  split
  · rw [List.length_dropLast]
    omega
  · exact Nat.le_refl _

/-- The directory in front of the last slash has no more components than there are slashes. -/
theorem parentPath_length_le (path : Text) :
    (visitedComponents (parentPath path)).length ≤ path.count '/' := by
  unfold parentPath
  split
  · exact Nat.zero_le _
  · rename_i c parent hrev
    have hc : c = '/' := by
      have hhead := List.head?_dropWhile_not (· ≠ '/') path.reverse
      rw [hrev] at hhead
      simpa using hhead
    have hsub : (c :: parent).Sublist path.reverse := hrev ▸ List.dropWhile_sublist _
    have hcount := hsub.count_le '/'
    rw [hc, List.count_cons_self, List.count_reverse] at hcount
    have hvisited := visitedComponents_length_le parent.reverse
    rw [List.count_reverse] at hvisited
    omega

/-- `mc_link_stays_beneath` checks a link in the directory that the text of the path in front
    of its last slash names. From a later place in that text it counts fewer directories. -/
theorem checkedAt_of_linkStaysBeneath {path target : Text} {dir : Path} {k : Nat}
    (h : linkStaysBeneath (path.drop k) target = true) (hdir : path.count '/' ≤ dir.length) :
    CheckedAt dir target := by
  unfold linkStaysBeneath at h
  unfold CheckedAt linkBase
  split at h
  · exact nomatch h
  · split at h
    · rename_i habs
      rw [if_pos habs]
      obtain ⟨rest, rfl⟩ := List.head?_eq_some_iff.mp habs
      rw [List.tail_cons, applyComponents_visited] at h
      rwa [pieces, if_pos rfl, applyComponents]
    · rename_i hrel
      rw [if_neg hrel]
      split at h
      · exact nomatch h
      · split at h
        · exact nomatch h
        · rename_i depth hdepth
          rw [applyComponents_visited, applyComponents_isSome_iff] at h
          rw [applyComponents_isSome_iff]
          have hle := applyComponents_le hdepth
          have hparent := parentPath_length_le (path.drop k)
          have hcount := (List.drop_sublist k path).count_le '/'
          omega

/-- The directory in front of the last slash of an accepted path without a trailing one. -/
theorem visitedComponents_parentPath {path : Text} (h : safeArchivePath path = true)
    (hlast : path.getLast? ≠ some '/') :
    visitedComponents (parentPath path) = (visitedComponents path).dropLast := by
  by_cases hslash : '/' ∈ path
  · -- the last slash, found from the end
    obtain ⟨name, parent, hrev, hname⟩ := List.eq_append_cons_of_mem (List.mem_reverse.mpr hslash)
    have hpath : path = parent.reverse ++ '/' :: name.reverse := by
      rw [← List.reverse_reverse path, hrev]
      simp
    have hparent : parentPath path = parent.reverse := by
      unfold parentPath
      rw [hrev, List.dropWhile_append_of_pos fun c hc => by
        simpa using fun heq : c = '/' => hname (heq ▸ hc)]
      simp
    have hpieces : pieces '/' path = pieces '/' parent.reverse ++ [name.reverse] := by
      have hname' : '/' ∉ name.reverse := by rwa [List.mem_reverse]
      rw [hpath, CString.pieces_append_sep, CString.pieces_of_not_mem hname']
    have hne : name.reverse ≠ [] := by
      intro hnil
      rw [hpath, hnil] at hlast
      exact hlast (by simp)
    have hvisited : visitedComponents path = pieces '/' parent.reverse ++ [name.reverse] := by
      unfold visitedComponents
      dsimp only
      rw [hpieces, List.getLast?_concat, if_neg (by simpa using hne)]
    rw [hparent, hvisited, List.dropLast_concat]
    -- an accepted path has no empty component, so none is dropped here
    have hnames := safeArchivePath_names h
    rw [hvisited] at hnames
    unfold visitedComponents
    dsimp only
    rw [if_neg]
    intro hempty
    obtain ⟨init, hinit⟩ := List.getLast?_eq_some_iff.mp hempty
    exact absurd (hnames [] (by rw [hinit]; simp)) (by decide)
  · have hparent : parentPath path = [] := by
      unfold parentPath
      rw [List.dropWhile_eq_nil_iff.mpr fun c hc => by
        simpa using fun heq : c = '/' => hslash (List.mem_reverse.mp (heq ▸ hc))]
    have hvisited : (visitedComponents path).dropLast = [] := by
      unfold visitedComponents
      rw [CString.pieces_of_not_mem hslash]
      dsimp only
      split <;> rfl
    rw [hparent, hvisited]
    rfl

/-- What `validate_entry` lets through. -/
theorem validateEntry_some {range : SubidRange} {entry accepted : Entry}
    (h : validateEntry range entry = .ok (some accepted)) :
    ∃ path, accepted.pathname = some path ∧ safeArchivePath path = true ∧
      ∃ k, ∀ target, accepted.symlink = some target →
        linkStaysBeneath (path.drop k) target = true := by
  unfold validateEntry at h
  split at h
  · exact nomatch h
  · rename_i pathname _
    dsimp only at h
    split_ifs at h with hempty hsafe hlink htype hpriv hrange
    · cases h
    obtain rfl := Option.some.inj (Except.ok.inj h)
    have hmoved : ∃ k, movedPath (pathname.length - (skipDotSlash pathname).length)
        (skipDotSlash pathname) = (skipDotSlash pathname).drop k := by
      unfold movedPath
      split
      · exact ⟨_, rfl⟩
      · exact ⟨0, rfl⟩
    obtain ⟨k, hmoved⟩ := hmoved
    rw [hmoved] at hlink
    simp only [Bool.or_eq_true, not_or] at hlink
    refine ⟨_, rfl, by simpa using hsafe, k, fun target htarget => ?_⟩
    have hsymlink : entry.symlink = some target := htarget
    simpa [hsymlink] using hlink.1

/-- An entry with the place and, unless it is a hard link, the target of a link. -/
def Makes (accepted : Entry) (path : Path) (target : Text) : Prop :=
  ∃ text, accepted.pathname = some text ∧ visitedComponents text = path ∧
    (accepted.hardlink = none → accepted.symlink = some target)

theorem lookup_makeParent {tree' : Tree} {dir path : Path} {target : Text}
    (h : makeParent tree dir = some tree') (hlink : tree'.lookup path = some (.link target)) :
    tree.lookup path = some (.link target) := by
  have hinsert : tree.insert dir .directory = tree' → tree.lookup path = some (.link target) := by
    rintro rfl
    rw [AList.lookup_insert_eq_ite] at hlink
    split at hlink
    · exact nomatch hlink
    · exact hlink
  unfold makeParent at h
  split at h
  · exact hinsert (Option.some.inj h)
  · exact hinsert (Option.some.inj h)
  · rwa [Option.some.inj h]
  · exact nomatch h

theorem lookup_foldlM_makeParent {tree' : Tree} {dirs : List Path} {path : Path} {target : Text}
    (h : dirs.foldlM makeParent tree = some tree')
    (hlink : tree'.lookup path = some (.link target)) :
    tree.lookup path = some (.link target) := by
  induction dirs generalizing tree with
  | nil => rwa [Option.some.inj h]
  | cons dir dirs ih =>
    obtain ⟨next, hparent, hrest⟩ := Option.bind_eq_some_iff.mp h
    exact lookup_makeParent hparent (ih hrest)

/-- An entry that is placed adds no other link. -/
theorem lookup_place {tree' : Tree} {p path : Path} {node : Node} {target : Text}
    (h : place tree p node = some tree') (hlink : tree'.lookup path = some (.link target)) :
    tree.lookup path = some (.link target) ∨ path = p ∧ node = .link target := by
  have hinsert : some (tree.insert p node) = some tree' →
      tree.lookup path = some (.link target) ∨ path = p ∧ node = .link target := by
    intro heq
    rw [← Option.some.inj heq, AList.lookup_insert_eq_ite] at hlink
    split at hlink
    · rename_i hpath
      exact .inr ⟨hpath, Option.some.inj hlink⟩
    · exact .inl hlink
  unfold place at h
  split at h
  · split_ifs at h
    · rw [Option.some.inj h]
      exact .inl hlink
    · exact hinsert h
  · exact hinsert h

/-- A link behind one entry was there or is made by the entry. -/
theorem extractEntry_link {accepted : Entry} {tree' : Tree} {path : Path} {target : Text}
    (h : extractEntry tree accepted = some tree')
    (hlink : tree'.lookup path = some (.link target)) :
    tree.lookup path = some (.link target) ∨ Makes accepted path target := by
  obtain ⟨text, htext, h⟩ := Option.bind_eq_some_iff.mp h
  obtain ⟨made, hmade, h⟩ := Option.bind_eq_some_iff.mp h
  obtain ⟨node, hnode, h⟩ := Option.bind_eq_some_iff.mp h
  rcases lookup_place h hlink with hold | ⟨rfl, rfl⟩
  · exact .inl (lookup_foldlM_makeParent hmade hold)
  · refine .inr ⟨text, htext, rfl, fun hhard => ?_⟩
    unfold entryNode at hnode
    rw [hhard] at hnode
    dsimp only at hnode
    split at hnode
    · rename_i target' htarget
      obtain rfl := Node.link.inj (Option.some.inj hnode)
      exact htarget
    · split_ifs at hnode <;> exact nomatch hnode

/-- A link in the tree was there before or is made by an accepted entry. -/
theorem extractArchive_link {range : SubidRange} {entries : List Entry} {tree' : Tree}
    {path : Path} {target : Text} (h : extractArchive range entries tree = some tree')
    (hlink : tree'.lookup path = some (.link target)) :
    tree.lookup path = some (.link target) ∨ ∃ entry ∈ entries, ∃ accepted,
      validateEntry range entry = .ok (some accepted) ∧ Makes accepted path target := by
  induction entries generalizing tree with
  | nil =>
    rw [Option.some.inj h]
    exact .inl hlink
  | cons entry entries ih =>
    unfold extractArchive at h
    split at h
    · exact nomatch h
    · exact (ih h).imp_right fun ⟨e, he, hmakes⟩ => ⟨e, List.mem_cons_of_mem _ he, hmakes⟩
    · rename_i accepted hvalid
      obtain ⟨next, hentry, hrest⟩ := Option.bind_eq_some_iff.mp h
      rcases ih hrest with hnext | ⟨e, he, hmakes⟩
      · rcases extractEntry_link hentry hnext with hold | hmakes
        · exact .inl hold
        · exact .inr ⟨entry, List.mem_cons_self, accepted, hvalid, hmakes⟩
      · exact .inr ⟨e, List.mem_cons_of_mem _ he, hmakes⟩

/-! ## Containment -/

/-- A link may stand in another directory than the one it was checked in: its place was
    written with a trailing slash or by a hard link. -/
def Displaced (range : SubidRange) (entries : List Entry) (path : Path) : Prop :=
  ∃ entry ∈ entries, ∃ accepted text, validateEntry range entry = .ok (some accepted) ∧
    accepted.pathname = some text ∧ visitedComponents text = path ∧
    (text.getLast? = some '/' ∨ accepted.hardlink ≠ none)

/-- A link whose place was not written in one of these ways was checked where it stands. -/
theorem checkedAt_of_not_displaced {range : SubidRange} {entries : List Entry} {path : Path}
    {target : Text} (h : extractArchive range entries ∅ = some tree)
    (hlink : tree.lookup path = some (.link target)) (hplace : ¬Displaced range entries path) :
    CheckedAt path.dropLast target := by
  rcases extractArchive_link h hlink with hempty | hmade
  · exact absurd hempty (by rw [AList.lookup_empty]; exact nofun)
  · obtain ⟨entry, hentry, accepted, hvalid, text, htext, hpath, htarget⟩ := hmade
    obtain ⟨text', htext', hsafe, k, hbeneath⟩ := validateEntry_some hvalid
    obtain rfl := Option.some.inj (htext.symm.trans htext')
    have hlast : text.getLast? ≠ some '/' := fun hslash =>
      hplace ⟨entry, hentry, accepted, text, hvalid, htext, hpath, .inl hslash⟩
    have hhard : accepted.hardlink = none := by
      by_contra hhard
      exact hplace ⟨entry, hentry, accepted, text, hvalid, htext, hpath, .inr hhard⟩
    refine checkedAt_of_linkStaysBeneath (hbeneath target (htarget hhard)) ?_
    -- without a trailing slash, there is a slash behind each directory
    have hpieces : visitedComponents text = pieces '/' text := by
      refine if_neg fun hempty => hlast ?_
      refine CString.getLast_of_pieces_getLast ?_ hempty
      rintro rfl
      exact absurd hsafe (by decide)
    rw [← hpath, List.length_dropLast, hpieces, CString.length_pieces]
    omega

/-- The links of an extracted archive stay below the image root exactly when this holds of
    every `..` in a link's target that stands behind a name, or whose link may stand in
    another directory than it was checked in: the components in front of it do not lead from
    the link to the root. All other ones are excluded by the check of the entry. -/
theorem links_contained_iff {range : SubidRange} {entries : List Entry} {tree : Tree}
    (h : extractArchive range entries ∅ = some tree) :
    Contained tree ↔ ∀ path target, tree.lookup path = some (.link target) →
      ∀ before after, pieces '/' target = before ++ "..".toList :: after →
        (Displaced range entries path ∨ ∃ c ∈ before, noName c = false) →
        ¬MeetsRoot tree path target before := by
  rw [contained_iff_local]
  constructor
  · intro hlocal path target hlink before after htarget _ hroot
    exact hlocal ⟨path, target, before, after, hlink, htarget, hroot⟩
  · rintro hall ⟨path, target, before, after, hlink, htarget, hroot⟩
    by_cases hcase : Displaced range entries path ∨ ∃ c ∈ before, noName c = false
    · exact hall path target hlink before after htarget hcase hroot
    · obtain ⟨hplace, hnames⟩ := not_or.mp hcase
      have hchecked := checkedAt_of_not_displaced h hlink hplace
      refine hchecked.not_meetsRoot htarget (fun c hc => ?_) hroot
      by_contra hname
      exact hnames ⟨c, hc, by simpa using hname⟩

/-- The entry of a symbolic link. -/
def linkEntry (path target : String) : Entry where
  pathname := some path.toList
  symlink := some target.toList
  hardlink := none
  type := .symlink
  privileged := false
  uid := 0
  gid := 0

/-- A link to the file beside its directory. -/
def upwardTree : Tree :=
  (AList.insert ["a".toList] .directory ∅).insert ["a".toList, "l".toList] (.link "../m".toList)

/-- A link that climbs inside the tree. -/
theorem links_contained_upward :
    extractArchive ⟨100000, 100000⟩ [linkEntry "a/l" "../m"] ∅ = some upwardTree ∧
      Contained upwardTree := by
  have h : extractArchive ⟨100000, 100000⟩ [linkEntry "a/l" "../m"] ∅ = some upwardTree := rfl
  refine ⟨h, (links_contained_iff h).mpr ?_⟩
  intro path target hlink before after htarget hcase
  rw [upwardTree, AList.lookup_insert_eq_ite] at hlink
  split at hlink
  · obtain rfl := Node.link.inj (Option.some.inj hlink)
    -- the only `..` is the first component, and no entry is of another kind
    exfalso
    rcases hcase with ⟨entry, hentry, accepted, text, hvalid, htext, -, hbad⟩ | ⟨c, hc, hname⟩
    · obtain rfl := List.mem_singleton.mp hentry
      obtain rfl := Option.some.inj (Except.ok.inj hvalid)
      cases htext
      exact absurd hbad (by decide)
    · cases before with
      | nil => exact nomatch hc
      | cons b before =>
        have htail : ["m".toList] = before ++ "..".toList :: after := (List.cons.inj htarget).2
        cases before with
        | nil => exact absurd (List.cons.inj htail).1 (by decide)
        | cons d before => exact absurd (List.cons.inj htail).2 (by simp)
  · rw [AList.lookup_insert_eq_ite] at hlink
    split at hlink
    · exact nomatch hlink
    · rw [AList.lookup_empty] at hlink
      exact nomatch hlink

/-- A link to the image root, and a link through it to what would be above. -/
def chainTree : Tree :=
  ((AList.insert ["a".toList] .directory ∅).insert ["a".toList, "l".toList]
    (.link "..".toList)).insert ["m".toList] (.link "a/l/..".toList)

/-- Each of the two links stays below the root as a text, but resolving the second one
    through the first one does not. -/
theorem links_escape_chain :
    extractArchive ⟨100000, 100000⟩ [linkEntry "a/l" "..", linkEntry "m" "a/l/.."] ∅ =
        some chainTree ∧
      ¬Contained chainTree := by
  refine ⟨rfl, fun h => ?_⟩
  have hwalk : Reaches chainTree (followLink ["m".toList] "a/l/..".toList
      (pieces '/' "a/l/..".toList)) ⟨2, [], ["..".toList]⟩ := by
    refine .head (.enter (by decide) (by decide)) ?_
    refine .head (@Step.follow _ _ _ _ "..".toList _ (by decide) (by decide) (by decide)) ?_
    exact .single (.up (by decide))
  exact h ["m".toList] "a/l/..".toList (by decide) _ hwalk (by decide)

end MiniContainer.ImageTree
