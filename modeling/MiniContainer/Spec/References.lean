import MiniContainer.Spec.Leases
import MiniContainer.Spec.StoredConfig

/-!
# References to containers

`mc_state_resolve` matches a reference against the beginnings of all IDs and against
all names at once, while a new name is only compared with the other names. A full ID
and a name therefore refer to their own container exactly as long as no container is
called by the beginning of another one's ID.
-/

namespace MiniContainer

open CString (Text)
open JsonC (Value)

section Ambiguous

variable {t : Tid} {w : World}

/-- A reference with two matches is not resolved. -/
theorem alone_resolve_ambiguous (reference : Text) {c d : Name} (hcd : c ≠ d)
    (hc : w.dir c ≠ none) (hd : w.dir d ≠ none) (hmatchc : refersTo w.config reference c = true)
    (hmatchd : refersTo w.config reference d = true) :
    Alone t (fun result w' => w' = w ∧ ∃ e, result = .error e) (resolve reference) w := by
  rw [resolve]
  split
  · exact ⟨rfl, _, rfl⟩
  refine Alone.opendir_andThen trivial (fun _ => ⟨rfl, _, rfl⟩) fun names hnames => ?_
  -- both matches are found
  have hmem : ∀ e, w.dir e ≠ none → refersTo w.config reference e = true →
      e ∈ names.filter (refersTo w.config reference) := fun e he hmatch =>
    List.mem_filter.mpr ⟨hnames.mem_iff.mpr (World.mem_keys.mpr he), hmatch⟩
  refine Alone.lift_andThen ((alone_resolveIn reference names [] 0).mono ?_)
  rintro _ w' ⟨rfl, rfl⟩
  dsimp only
  rw [Nat.zero_add]
  split
  · rename_i hone
    obtain ⟨e, he⟩ := List.length_eq_one_iff.mp hone
    rw [he] at hmem
    have hce := List.mem_singleton.mp (hmem c hc hmatchc)
    have hde := List.mem_singleton.mp (hmem d hd hmatchd)
    exact absurd (hce.trans hde.symm) hcd
  · split
    · exact ⟨rfl, _, rfl⟩
    · exact ⟨rfl, _, rfl⟩

end Ambiguous

/-! ## Own references -/

/-- The container has this name. -/
def World.Named (w : World) (c : Name) (name : Text) : Prop := hasName (w.config c) name = true

/-- No container is called by the beginning of another one's ID. -/
def World.NamesApart (w : World) : Prop :=
  ∀ c d name, w.Named c name → w.dir d ≠ none → containerEntry d = true →
    name.isPrefixOf d = true → d = c

theorem ContainerId.containerEntry (id : ContainerId) : containerEntry id.text = true := by
  rw [MiniContainer.containerEntry, id.not_hidden, id.length_text]
  rfl

section Own

variable {host : Host} {build : Build} {t : Tid} {w : World}

theorem World.Named.config {c : Name} {name : Text} (h : w.Named c name) :
    ∃ x, w.config c = some x ∧ hasName (some x) name = true := by
  rw [World.Named] at h
  cases hc : w.config c with
  | none => simp [hc, hasName] at h
  | some x => exact ⟨x, rfl, hc ▸ h⟩

/-- A named container has a directory, and its entry is the directory of a container. -/
theorem World.Named.entry (hi : LeaseInv host w) {c : Name} {name : Text} (h : w.Named c name) :
    w.dir c ≠ none ∧ containerEntry c = true := by
  obtain ⟨x, hx, -⟩ := h.config
  obtain ⟨config, hstored⟩ := hi.stored c x hx
  obtain ⟨id, rfl⟩ := hstored.isId
  exact ⟨fun hnone => by simp [World.config, hnone] at hx, id.containerEntry⟩

/-- Names are given once. -/
theorem World.Named.unique (hi : LeaseInv host w) {c d : Name} {name : Text}
    (hc : w.Named c name) (hd : w.Named d name) : d = c := by
  by_contra hne
  obtain ⟨x, hx, hnamex⟩ := hc.config
  obtain ⟨y, hy, hnamey⟩ := hd.config
  have hapart := (hi.compatible c d x y (Ne.symm hne) hx hy).names name hnamex
  rw [hapart] at hnamey
  exact nomatch hnamey

/-- Accepted names are not empty. -/
theorem World.Named.ne_nil (hi : LeaseInv host w) {c : Name} {name : Text}
    (h : w.Named c name) : name ≠ [] := by
  obtain ⟨x, hx, hname⟩ := h.config
  obtain ⟨config, hstored⟩ := hi.stored c x hx
  obtain ⟨stamp, image, rfl⟩ := hstored.document
  rw [hasName_configJson, beq_iff_eq] at hname
  obtain ⟨given, hgiven, rfl⟩ := Option.map_eq_some_iff.mp hname
  have hvalid := hstored.accepted.name given hgiven
  rw [untilNul_of_validName hvalid]
  rintro rfl
  cases hvalid

theorem refersTo_iff {reference : Text} {d : Name} :
    refersTo w.config reference d = true ↔
      containerEntry d = true ∧ (reference.isPrefixOf d = true ∨ w.Named d reference) := by
  rw [refersTo, Bool.and_eq_true, Bool.or_eq_true]
  exact Iff.rfl

/-- In every reachable registry, and whatever the order in which the directory is read, all
    full IDs and all names refer to their own containers exactly when no container is called
    by the beginning of another one's ID. -/
theorem resolve_own_iff {S : Sys Op Res Outcome World}
    (h : (machine host build).Reach (fun _ _ => True) initialSystem S) (t : Tid) :
    ((∀ id : ContainerId, S.world.dir id.text ≠ none →
        Alone t (fun result w' => w' = S.world ∧ result = .ok id.text) (resolve id.text) S.world) ∧
      ∀ c name, S.world.Named c name →
        Alone t (fun result w' => w' = S.world ∧ result = .ok c) (resolve name) S.world) ↔
      S.world.NamesApart := by
  have hi := leaseInv_of_reach h
  constructor
  · rintro ⟨-, hnames⟩ c d name hc hd hentry hpre
    by_contra hne
    obtain ⟨hdirc, hentryc⟩ := hc.entry hi
    have herror := alone_resolve_ambiguous (t := t) name (Ne.symm hne) hdirc hd
      (refersTo_iff.mpr ⟨hentryc, .inr hc⟩) (refersTo_iff.mpr ⟨hentry, .inl hpre⟩)
    obtain ⟨result, _, ⟨-, hok⟩, -, e, he⟩ := (hnames c name hc).meet herror fun _ =>
      Choice.calm_default
    exact nomatch hok.symm.trans he
  · intro hapart
    refine ⟨fun id hdir => ?_, fun c name hc => ?_⟩
    · -- a container that is called by the full ID would be called by a beginning of it
      refine alone_resolve_id id hdir fun d y hne _ hy => ?_
      rw [Bool.eq_false_iff]
      intro hname
      have hd : S.world.Named d id.text := by rw [World.Named, hy, hname]
      exact hne (hapart d id.text id.text hd hdir id.containerEntry (by simp)).symm
    · obtain ⟨hdir, hentry⟩ := hc.entry hi
      refine alone_resolve (hc.ne_nil hi) hdir (refersTo_iff.mpr ⟨hentry, .inr hc⟩) ?_
      intro d hd hmatch
      obtain ⟨hentryd, hpre | hname⟩ := refersTo_iff.mp hmatch
      · exact hapart c d name hc hd hentryd hpre
      · exact hc.unique hi hname

/-- `create` of a container, with a name or without. -/
def createNamed (name : Option String) : Cmd :=
  .cli true ((["create"] ++ (name.map fun n => ["--name", n]).getD [] ++
    ["--image", "alpine", "--", "sh"]).map String.toList)

/-- A container without a name is created, then one that is called by a name. -/
def createdBeside (name : String) : List (Event Choice Cmd) :=
  .enter 1 (createNamed none) { pid := 101, start := 1 } :: List.replicate 16 (.act 1 {}) ++
  .enter 2 (createNamed (some name)) { pid := 102, start := 1 } ::
    List.replicate 20 (.act 2 { random := fun _ => 1 })

/-- The name in a stored configuration. -/
def storedName (document : Option Value) : Option Text :=
  ((document.bind (·.getEx "name")).bind Value.getString).map untilNul

private theorem hasName_iff_storedName {document : Option Value} {name : Text} :
    hasName document name = true ↔ storedName document = some name := by
  cases document with
  | none | some root => simp [hasName, storedName]

/-- The registry holds these two containers. -/
def holdsBeside (name : String) (S : Sys Op Res Outcome World) : Bool :=
  S.world.dirs.keys == [(plainId 1).text, (plainId 0).text] &&
    (storedName (S.world.config (plainId 0).text) == none &&
      storedName (S.world.config (plainId 1).text) == some name.toList)

/-- In the registry of a container without a name and one called `web`, all references are
    resolved. -/
theorem resolve_own_web :
    ∃ S, (machine plainHost plainBuild).Reach (fun _ _ => True) initialSystem S ∧
      Alone 3 (fun result w' => w' = S.world ∧ result = .ok (plainId 0).text)
        (resolve (plainId 0).text) S.world ∧
      Alone 3 (fun result w' => w' = S.world ∧ result = .ok (plainId 1).text)
        (resolve "web".toList) S.world := by
  have hrun : ((machine plainHost plainBuild).run (createdBeside "web") initialSystem).any
      (holdsBeside "web") = true := by
    decide +kernel
  obtain ⟨S, hS, htest⟩ := Machine.exists_reach_of_run _ hrun
  simp only [holdsBeside, Bool.and_eq_true, beq_iff_eq] at htest
  obtain ⟨hkeys, hfirst, hsecond⟩ := htest
  have hdir : ∀ c, S.world.dir c ≠ none → c = (plainId 1).text ∨ c = (plainId 0).text := by
    intro c hc
    simpa [hkeys] using World.mem_keys.mpr hc
  have hapart : S.world.NamesApart := by
    intro c d name hc hd _ hpre
    have hdirc : S.world.dir c ≠ none := by
      obtain ⟨x, hx, -⟩ := hc.config
      intro hnone
      simp [World.config, hnone] at hx
    rw [World.Named, hasName_iff_storedName] at hc
    rcases hdir c hdirc with rfl | rfl
    · -- no ID starts with `web`
      obtain rfl : name = "web".toList := Option.some.inj (hc.symm.trans hsecond)
      rcases hdir d hd with rfl | rfl
      · rfl
      · exact absurd hpre (by decide +kernel)
    · cases hfirst.symm.trans hc
  have hown := (resolve_own_iff hS 3).mpr hapart
  refine ⟨S, hS, hown.1 (plainId 0) ?_, hown.2 _ _ ?_⟩
  · exact World.mem_keys.mp (by simp [hkeys])
  · rw [World.Named, hasName_iff_storedName, hsecond]

/-- A container that is called `00` is not found by its name beside one whose ID starts with
    these digits. -/
theorem resolve_name_ambiguous :
    ∃ S, (machine plainHost plainBuild).Reach (fun _ _ => True) initialSystem S ∧
      S.world.Named (plainId 1).text "00".toList ∧
      Alone 3 (fun result _ => ∃ e, result = .error e) (resolve "00".toList) S.world := by
  have hrun : ((machine plainHost plainBuild).run (createdBeside "00") initialSystem).any
      (holdsBeside "00") = true := by
    decide +kernel
  obtain ⟨S, hS, htest⟩ := Machine.exists_reach_of_run _ hrun
  simp only [holdsBeside, Bool.and_eq_true, beq_iff_eq] at htest
  obtain ⟨hkeys, -, hsecond⟩ := htest
  have hnamed : S.world.Named (plainId 1).text "00".toList := by
    rw [World.Named, hasName_iff_storedName, hsecond]
  have hdir : ∀ c ∈ [(plainId 1).text, (plainId 0).text], S.world.dir c ≠ none := by
    intro c hc
    exact World.mem_keys.mp (hkeys ▸ hc)
  have hresolve := alone_resolve_ambiguous (t := 3) (w := S.world) "00".toList
    (c := (plainId 1).text) (d := (plainId 0).text) (by decide +kernel) (hdir _ (by simp))
    (hdir _ (by simp)) (refersTo_iff.mpr ⟨(plainId 1).containerEntry, .inr hnamed⟩)
    (refersTo_iff.mpr ⟨(plainId 0).containerEntry, .inl (by decide +kernel)⟩)
  exact ⟨S, hS, hnamed, hresolve.mono fun _ _ h => h.2⟩

end Own

end MiniContainer
