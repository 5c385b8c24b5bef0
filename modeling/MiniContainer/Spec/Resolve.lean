import MiniContainer.Spec.Alone
import MiniContainer.Spec.ConfigRoundTrip

/-!
# Ambiguous references

`mc_state_resolve` overwrites its result at every match and counts two kinds of match, so
what it returns is right only because it reports a result for a count of one. Here the
scan is compared with the set of entries a reference refers to, for any contents of the
containers directory and any order of enumeration. A `config.json` whose `name` is a JSON
null ends the scan in `strcmp` of a null pointer, and one whose `name` goes on behind a NUL
is taken for a container of the name in front of it.
-/

namespace MiniContainer

open CString (Text)
open JsonC (Value)

/-- The reference refers to the entry: a container whose ID starts with it or whose
    configured name it is. -/
def ContainerDir.Refers (reference : Text) (e : ContainerDir) : Prop :=
  containerEntry e.name = true ∧ (reference.isPrefixOf e.name = true ∨
    ∃ root name, e.config = some root ∧ root.getEx "name" = some name ∧
      name.getString = some reference)

/-- The scan asks for the name of the entry, and the name is a JSON null. -/
def ContainerDir.NullName (reference : Text) (e : ContainerDir) : Prop :=
  containerEntry e.name = true ∧ reference.isPrefixOf e.name = false ∧
    ∃ root name, e.config = some root ∧ root.getEx "name" = some name ∧ name.getString = none

/-- The scan takes the entry for one with this name, but its name goes on behind a NUL. -/
def ContainerDir.CutName (reference : Text) (e : ContainerDir) : Prop :=
  containerEntry e.name = true ∧ reference.isPrefixOf e.name = false ∧
    ∃ root name text, e.config = some root ∧ root.getEx "name" = some name ∧
      name.getString = some text ∧ reference ++ ['\x00'] <+: text

/-- Two entries of different names are referred to. -/
def Contested (reference : Text) (entries : List ContainerDir) : Prop :=
  ∃ e₁ ∈ entries, ∃ e₂ ∈ entries, e₁.name ≠ e₂.name ∧ e₁.Refers reference ∧ e₂.Refers reference

/-- The outcome says which entry is the only match, or how many there are. -/
structure Unambiguous (reference : Text) (entries : List ContainerDir)
    (outcome : Option (Except McError Name)) : Prop where
  found : ∀ k, outcome = some (.ok k) ↔
    (∃ e ∈ entries, e.Refers reference ∧ e.name = k) ∧
      ∀ e ∈ entries, e.Refers reference → e.name = k
  notFound : (∃ e, outcome = some (.error e) ∧ e.code = .notFound) ↔
    ∀ e ∈ entries, ¬ e.Refers reference
  conflict : (∃ e, outcome = some (.error e) ∧ e.code = .conflict) ↔ Contested reference entries

/-! ## One comparison -/

section Compare

variable {reference : Text} {document : Option Value}

theorem compareName_named {root name : Value} (h : root.getEx "name" = some name) :
    compareName (some root) reference = name.getString.map (untilNul · == reference) := by
  rw [compareName, Option.bind_some, h]

theorem compareName_unnamed {root : Value} (h : root.getEx "name" = none) :
    compareName (some root) reference = some false := by
  rw [compareName, Option.bind_some, h]

/-- When the comparison crashes. -/
theorem compareName_eq_none_iff :
    compareName document reference = none ↔
      ∃ root name, document = some root ∧ root.getEx "name" = some name ∧
        name.getString = none := by
  cases document with
  | none => simp [compareName]
  | some root =>
    cases hname : root.getEx "name" with
    | none => simp [compareName_unnamed hname, hname]
    | some name => simp [compareName_named hname, hname]

/-- A comparison that does not crash is the one of `hasName`. -/
theorem compareName_eq_hasName (h : compareName document reference ≠ none) :
    compareName document reference = some (hasName document reference) := by
  cases hc : compareName document reference with
  | none => exact absurd hc h
  | some b =>
    unfold compareName at hc
    unfold hasName
    cases document with
    | none =>
      have hb : some false = some b := hc
      simpa using hb.symm
    | some root =>
      simp only [Option.bind_some] at hc ⊢
      cases hname : root.getEx "name" with
      | none =>
        rw [hname] at hc
        simpa using hc.symm
      | some name =>
        rw [hname] at hc
        cases hs : name.getString with
        | none => simp [hs] at hc
        | some s => simpa [hs, eq_comm] using hc

/-- What `strcmp` takes for a C string: the string itself, and what goes on behind a NUL. -/
theorem untilNul_eq_iff (hnul : '\x00' ∉ reference) {text : Text} :
    untilNul text = reference ↔ text = reference ∨ reference ++ ['\x00'] <+: text := by
  have hself : untilNul reference = reference := untilNul_eq_self_iff.mpr hnul
  constructor
  · rintro rfl
    have hsplit : untilNul text ++ text.dropWhile (· != '\x00') = text :=
      List.takeWhile_append_dropWhile
    cases hrest : text.dropWhile (· != '\x00') with
    | nil => exact .inl (by simpa [hrest] using hsplit.symm)
    | cons c rest =>
      have hc : c = '\x00' := by
        have hhead := List.head?_dropWhile_not (· != '\x00') text
        simpa [hrest] using hhead
      refine .inr ⟨rest, ?_⟩
      rw [hrest, hc] at hsplit
      simpa using hsplit
  · rintro (rfl | ⟨rest, rfl⟩)
    · exact hself
    · rw [untilNul, List.takeWhile_eq_self_iff] at hself
      rw [untilNul, List.append_assoc, List.takeWhile_append_of_pos hself]
      simp

end Compare

/-! ## The scan -/

section Scan

variable {reference : Text}

/-- The scan counts the entry. -/
def ContainerDir.counts (reference : Text) (e : ContainerDir) : Bool :=
  refersTo (fun _ => e.config) reference e.name

/-- The entries that the scan counts. -/
def matching (reference : Text) (entries : List ContainerDir) : List ContainerDir :=
  entries.filter (ContainerDir.counts reference)

/-- A name is compared up to its first NUL. -/
theorem hasName_iff {document : Option Value} (hnul : '\x00' ∉ reference) :
    hasName document reference = true ↔
      ∃ root name text, document = some root ∧ root.getEx "name" = some name ∧
        name.getString = some text ∧ (text = reference ∨ reference ++ ['\x00'] <+: text) := by
  cases document with
  | none => simp [hasName]
  | some root => simp [hasName, Option.bind_eq_some_iff, ← untilNul_eq_iff hnul]

/-- The scan counts the entries the reference refers to, and those whose name it cuts. -/
theorem mem_matching (hnul : '\x00' ∉ reference) {e : ContainerDir} {entries : List ContainerDir} :
    e ∈ matching reference entries ↔ e ∈ entries ∧ (e.Refers reference ∨ e.CutName reference) := by
  rw [matching, List.mem_filter, ContainerDir.counts, refersTo, Bool.and_eq_true, Bool.or_eq_true,
    hasName_iff hnul]
  refine and_congr_right fun _ => ⟨?_, ?_⟩
  · rintro ⟨hentry, hpre | ⟨root, name, text, hroot, hname, htext, rfl | hcut⟩⟩
    · exact .inl ⟨hentry, .inl hpre⟩
    · exact .inl ⟨hentry, .inr ⟨root, name, hroot, hname, htext⟩⟩
    · by_cases hpre : reference.isPrefixOf e.name = true
      · exact .inl ⟨hentry, .inl hpre⟩
      · exact .inr ⟨hentry, Bool.eq_false_iff.mpr hpre, root, name, text, hroot, hname, htext, hcut⟩
  · rintro (⟨hentry, hpre | ⟨root, name, hroot, hname, htext⟩⟩ |
      ⟨hentry, -, root, name, text, hroot, hname, htext, hcut⟩)
    · exact ⟨hentry, .inl hpre⟩
    · exact ⟨hentry, .inr ⟨root, name, _, hroot, hname, htext, .inl rfl⟩⟩
    · exact ⟨hentry, .inr ⟨root, name, text, hroot, hname, htext, .inr hcut⟩⟩

theorem ContainerDir.CutName.not_refers {e : ContainerDir} (h : e.CutName reference) :
    ¬ e.Refers reference := by
  obtain ⟨-, hpre, root, name, text, hroot, hname, htext, hcut⟩ := h
  rintro ⟨-, hpre' | ⟨root', name', hroot', hname', htext'⟩⟩
  · rw [hpre] at hpre'
    cases hpre'
  · obtain rfl : root = root' := Option.some.inj (hroot.symm.trans hroot')
    obtain rfl : name = name' := Option.some.inj (hname.symm.trans hname')
    obtain rfl : text = reference := Option.some.inj (htext.symm.trans htext')
    have hlength := hcut.length_le
    simp at hlength

/-- The scan looks at every entry, so it crashes wherever the null name stands. -/
theorem resolveEntries_eq_none_iff (entries : List ContainerDir) (id : Name) (found : Nat) :
    resolveEntries reference entries id found = none ↔ ∃ e ∈ entries, e.NullName reference := by
  induction entries generalizing id found with
  | nil => simp [resolveEntries]
  | cons e es ih =>
    rw [List.exists_mem_cons_iff, resolveEntries]
    cases hentry : containerEntry e.name with
    | false => simp [ih, ContainerDir.NullName, hentry]
    | true =>
      rw [if_neg (by decide)]
      cases hpre : List.isPrefixOf reference e.name with
      | true => simp [ih, ContainerDir.NullName, hpre]
      | false =>
        rw [if_neg (by decide)]
        cases hcmp : compareName e.config reference with
        | none =>
          have hnull : e.NullName reference := ⟨hentry, hpre, compareName_eq_none_iff.mp hcmp⟩
          simp [hnull]
        | some b =>
          have hnull : ¬ e.NullName reference := by
            rintro ⟨-, -, hnull⟩
            rw [compareName_eq_none_iff.mpr hnull] at hcmp
            cases hcmp
          cases b <;> simp [ih, hnull]

/-- A scan that does not crash finds the last match and the number of matches. -/
theorem resolveEntries_eq {entries : List ContainerDir}
    (h : ¬ ∃ e ∈ entries, e.NullName reference) (id : Name) (found : Nat) :
    resolveEntries reference entries id found =
      some ((matching reference entries).foldl (fun _ e => e.name) id,
        found + (matching reference entries).length) := by
  induction entries generalizing id found with
  | nil => rfl
  | cons e es ih =>
    rw [List.exists_mem_cons_iff, not_or] at h
    have hhit : e.counts reference = true →
        resolveEntries reference es e.name (found + 1) =
          some ((matching reference (e :: es)).foldl (fun _ e => e.name) id,
            found + (matching reference (e :: es)).length) := by
      intro hrefers
      rw [ih h.2, matching, matching, List.filter_cons_of_pos hrefers, List.foldl_cons,
        List.length_cons, Nat.add_assoc, Nat.add_comm 1]
    have hmiss : e.counts reference = false →
        resolveEntries reference es id found =
          some ((matching reference (e :: es)).foldl (fun _ e => e.name) id,
            found + (matching reference (e :: es)).length) := by
      intro hrefers
      rw [ih h.2, matching, matching, List.filter_cons_of_neg (by simp [hrefers])]
    rw [resolveEntries]
    cases hentry : containerEntry e.name with
    | false => exact hmiss (by rw [ContainerDir.counts, refersTo, hentry]; rfl)
    | true =>
      rw [if_neg (by decide)]
      cases hpre : List.isPrefixOf reference e.name with
      | true => exact hhit (by rw [ContainerDir.counts, refersTo, hentry, hpre]; rfl)
      | false =>
        rw [if_neg (by decide)]
        have hcmp : compareName e.config reference ≠ none := fun hnone =>
          h.1 ⟨hentry, hpre, compareName_eq_none_iff.mp hnone⟩
        rw [compareName_eq_hasName hcmp]
        cases hname : hasName e.config reference with
        | true =>
          exact hhit (by rw [ContainerDir.counts, refersTo, hentry, hname, Bool.or_true]; rfl)
        | false => exact hmiss (by rw [ContainerDir.counts, refersTo, hentry, hpre, hname]; rfl)

/-- What `mc_state_resolve` makes of its matches. -/
def verdict (reference : Text) : List ContainerDir → Except McError Name
  | [] => .error (errorSet .notFound .zero "resolve-container" reference "container not found")
  | [e] => .ok e.name
  | _ => .error (errorSet .conflict .zero "resolve-container" reference
      "ambiguous container reference")

/-- Without a null name the matches decide. -/
theorem resolveContents_eq {entries : List ContainerDir} (hne : reference ≠ [])
    (h : ¬ ∃ e ∈ entries, e.NullName reference) :
    resolveContents reference entries = some (verdict reference (matching reference entries)) := by
  rw [resolveContents, if_neg hne, resolveEntries_eq h]
  rcases matching reference entries with - | ⟨e₁, - | ⟨e₂, rest⟩⟩
  · rfl
  · rfl
  · simp [verdict]

/-- The scan has the same outcome in every order of enumeration. -/
theorem resolveContents_perm {entries order : List ContainerDir} (hperm : order.Perm entries) :
    resolveContents reference order = resolveContents reference entries := by
  by_cases hne : reference = []
  · simp [resolveContents, hne]
  have hnull : (∃ e ∈ order, e.NullName reference) ↔ ∃ e ∈ entries, e.NullName reference := by
    simp only [hperm.mem_iff]
  by_cases h : ∃ e ∈ entries, e.NullName reference
  · rw [resolveContents, resolveContents, (resolveEntries_eq_none_iff _ _ _).mpr h,
      (resolveEntries_eq_none_iff _ _ _).mpr (hnull.mpr h)]
  · rw [resolveContents_eq hne h, resolveContents_eq hne (mt hnull.mp h)]
    have hmatching : (matching reference order).Perm (matching reference entries) :=
      hperm.filter _
    -- a count of one leaves a single order, and the errors do not name the matches
    rcases hm : matching reference entries with - | ⟨e₁, - | ⟨e₂, rest⟩⟩
    · rw [hm] at hmatching
      rw [hmatching.eq_nil]
    · rw [hm] at hmatching
      rw [List.perm_singleton.mp hmatching]
    · have hlength := hmatching.length_eq
      rw [hm] at hlength
      rcases hm' : matching reference order with - | ⟨d₁, - | ⟨d₂, rest'⟩⟩
      · simp [hm'] at hlength
      · simp [hm'] at hlength
      · rfl

/-- Where several entries are referred to, any count above one is right. -/
theorem Contested.unambiguous {entries : List ContainerDir} (h : Contested reference entries)
    (d₁ d₂ : ContainerDir) (rest : List ContainerDir) :
    Unambiguous reference entries (some (verdict reference (d₁ :: d₂ :: rest))) := by
  obtain ⟨e₁, he₁, e₂, he₂, hne, hrefers₁, hrefers₂⟩ := id h
  refine ⟨fun k => ⟨?_, ?_⟩, ⟨?_, ?_⟩, ⟨fun _ => h, fun _ => ⟨_, rfl, rfl⟩⟩⟩
  · intro h
    cases h
  · rintro ⟨-, hk⟩
    exact absurd ((hk e₁ he₁ hrefers₁).trans (hk e₂ he₂ hrefers₂).symm) hne
  · rintro ⟨e, he, hcode⟩
    cases he
    cases hcode
  · intro h
    exact absurd hrefers₁ (h e₁ he₁)

/-- Entries of one directory have different names, so where no name is cut the count is the
    number of entries the reference refers to. -/
theorem unambiguous_verdict {entries : List ContainerDir} (hnul : '\x00' ∉ reference)
    (hnodup : (entries.map ContainerDir.name).Nodup)
    (hcut : ¬ ∃ e ∈ entries, e.CutName reference) :
    Unambiguous reference entries (some (verdict reference (matching reference entries))) := by
  have hmem : ∀ e, e ∈ matching reference entries ↔ e ∈ entries ∧ e.Refers reference := by
    intro e
    rw [mem_matching hnul]
    refine and_congr_right fun he => ⟨fun h => ?_, .inl⟩
    exact h.resolve_right fun hname => hcut ⟨e, he, hname⟩
  have hnames : ((matching reference entries).map ContainerDir.name).Nodup :=
    hnodup.sublist (List.filter_sublist.map _)
  -- no match, one match, or several
  rcases hm : matching reference entries with - | ⟨e₁, - | ⟨e₂, rest⟩⟩
  · rw [hm] at hmem
    have hnone : ∀ e ∈ entries, ¬ e.Refers reference := fun e he hrefers =>
      absurd ((hmem e).mpr ⟨he, hrefers⟩) List.not_mem_nil
    refine ⟨fun k => ⟨?_, ?_⟩, ⟨fun _ => hnone, fun _ => ⟨_, rfl, rfl⟩⟩, ⟨?_, ?_⟩⟩
    · intro h
      cases h
    · rintro ⟨⟨e, he, hrefers, -⟩, -⟩
      exact absurd hrefers (hnone e he)
    · rintro ⟨e, he, hcode⟩
      cases he
      cases hcode
    · rintro ⟨e, he, -, -, -, hrefers, -⟩
      exact absurd hrefers (hnone e he)
  · rw [hm] at hmem
    obtain ⟨he₁, hrefers₁⟩ := (hmem e₁).mp (List.mem_singleton_self e₁)
    have honly : ∀ e ∈ entries, e.Refers reference → e = e₁ := fun e he hrefers =>
      List.mem_singleton.mp ((hmem e).mpr ⟨he, hrefers⟩)
    refine ⟨fun k => ⟨?_, ?_⟩, ⟨?_, ?_⟩, ⟨?_, ?_⟩⟩
    · intro h
      cases h
      exact ⟨⟨e₁, he₁, hrefers₁, rfl⟩, fun e he hrefers => by rw [honly e he hrefers]⟩
    · rintro ⟨-, hk⟩
      rw [← hk e₁ he₁ hrefers₁]
      rfl
    · rintro ⟨e, he, -⟩
      cases he
    · intro h
      exact absurd hrefers₁ (h e₁ he₁)
    · rintro ⟨e, he, -⟩
      cases he
    · rintro ⟨d₁, hd₁, d₂, hd₂, hne, hr₁, hr₂⟩
      rw [honly d₁ hd₁ hr₁, honly d₂ hd₂ hr₂] at hne
      exact absurd rfl hne
  · rw [hm] at hmem hnames
    obtain ⟨he₁, hrefers₁⟩ := (hmem e₁).mp (by simp)
    obtain ⟨he₂, hrefers₂⟩ := (hmem e₂).mp (by simp)
    have hne : e₁.name ≠ e₂.name := by
      intro h
      simp [h] at hnames
    exact Contested.unambiguous ⟨e₁, he₁, e₂, he₂, hne, hrefers₁, hrefers₂⟩ e₁ e₂ rest

/-- A cut name is one match too many: the count is right only where several entries are
    referred to without it. -/
theorem unambiguous_verdict_iff {entries : List ContainerDir} (hnul : '\x00' ∉ reference)
    (hnodup : (entries.map ContainerDir.name).Nodup) :
    Unambiguous reference entries (some (verdict reference (matching reference entries))) ↔
      ((∃ e ∈ entries, e.CutName reference) → Contested reference entries) := by
  constructor
  · rintro h ⟨e, he, hcut⟩
    have hmem := (mem_matching hnul).mpr ⟨he, .inr hcut⟩
    rcases hm : matching reference entries with - | ⟨e₁, - | ⟨e₂, rest⟩⟩
    · simp [hm] at hmem
    · -- the only match is the entry itself, which is not referred to
      rw [hm, List.mem_singleton] at hmem
      subst hmem
      rw [hm] at h
      obtain ⟨⟨d, hd, hrefers, hname⟩, -⟩ := (h.found e.name).mp rfl
      obtain rfl := List.inj_on_of_nodup_map hnodup hd he hname
      exact absurd hrefers hcut.not_refers
    · rw [hm] at h
      exact h.conflict.mp ⟨_, rfl, rfl⟩
  · intro h
    by_cases hcut : ∃ e ∈ entries, e.CutName reference
    · have hcontested := h hcut
      obtain ⟨e₁, he₁, e₂, he₂, hne, hrefers₁, hrefers₂⟩ := id hcontested
      have hmem₁ := (mem_matching hnul).mpr ⟨he₁, .inl hrefers₁⟩
      have hmem₂ := (mem_matching hnul).mpr ⟨he₂, .inl hrefers₂⟩
      rcases hm : matching reference entries with - | ⟨d₁, - | ⟨d₂, rest⟩⟩
      · simp [hm] at hmem₁
      · rw [hm, List.mem_singleton] at hmem₁ hmem₂
        exact absurd (by rw [hmem₁, hmem₂]) hne
      · exact hcontested.unambiguous d₁ d₂ rest
    · exact unambiguous_verdict hnul hnodup hcut

/-- A crash is none of the three answers, and one of them is always due. -/
theorem not_unambiguous_none {entries : List ContainerDir} :
    ¬ Unambiguous reference entries none := by
  intro h
  by_cases hnone : ∀ e ∈ entries, ¬ e.Refers reference
  · obtain ⟨e, he, -⟩ := h.notFound.mpr hnone
    cases he
  · simp only [not_forall, not_not] at hnone
    obtain ⟨e₁, he₁, hrefers₁⟩ := hnone
    by_cases honly : ∀ e ∈ entries, e.Refers reference → e.name = e₁.name
    · cases (h.found e₁.name).mpr ⟨⟨e₁, he₁, hrefers₁, rfl⟩, honly⟩
    · simp only [not_forall] at honly
      obtain ⟨e₂, he₂, hrefers₂, hne⟩ := honly
      obtain ⟨e, he, -⟩ := h.conflict.mpr ⟨e₂, he₂, e₁, he₁, hne, hrefers₂, hrefers₁⟩
      cases he

/-- For any contents of the directory and any non-empty C string, the scan resolves exactly
    the references with a single match, in every order of enumeration, if and only if it
    meets no entry whose stored name is a JSON null and cuts no name at a NUL, unless several
    entries are referred to anyway. -/
theorem resolveContents_unambiguous_iff (reference : Text) (hne : reference ≠ [])
    (hnul : '\x00' ∉ reference) (entries : List ContainerDir)
    (hnodup : (entries.map ContainerDir.name).Nodup) :
    (∀ order : List ContainerDir, order.Perm entries →
      Unambiguous reference entries (resolveContents reference order) ∧
        resolveContents reference order = resolveContents reference entries) ↔
      (¬ ∃ e ∈ entries, e.NullName reference) ∧
        ((∃ e ∈ entries, e.CutName reference) → Contested reference entries) := by
  constructor
  · intro h
    have hout := (h entries (List.Perm.refl _)).1
    have hnull : ¬ ∃ e ∈ entries, e.NullName reference := by
      intro hnull
      rw [resolveContents, if_neg hne, (resolveEntries_eq_none_iff _ _ _).mpr hnull] at hout
      exact not_unambiguous_none hout
    rw [resolveContents_eq hne hnull] at hout
    exact ⟨hnull, (unambiguous_verdict_iff hnul hnodup).mp hout⟩
  · rintro ⟨hnull, hcut⟩ order hperm
    refine ⟨?_, resolveContents_perm hperm⟩
    rw [resolveContents_perm hperm, resolveContents_eq hne hnull]
    exact (unambiguous_verdict_iff hnul hnodup).mpr hcut

/-- A container directory whose configuration is `{"name": …}`. -/
def namedDir (name : Value) : ContainerDir where
  name := List.replicate 32 'a'
  config := some (.obj [("name", name)])

/-- Beside `{"name": null}` no reference that is not the beginning of the ID is resolved: the
    scan crashes where `web` is not found. And `{"name": "web\u0000x"}` is found as `web`. -/
theorem resolveContents_misnamed :
    resolveContents "web".toList [namedDir .null] = none ∧
      ¬ Unambiguous "web".toList [namedDir .null]
        (resolveContents "web".toList [namedDir .null]) ∧
      ¬ Unambiguous "web".toList [namedDir (.str "web\x00x".toList)]
        (resolveContents "web".toList [namedDir (.str "web\x00x".toList)]) := by
  have hcrash : resolveContents "web".toList [namedDir .null] = none := by decide +kernel
  refine ⟨hcrash, ?_, fun h => ?_⟩
  · rw [hcrash]
    exact not_unambiguous_none
  · obtain ⟨⟨e, he, hrefers, -⟩, -⟩ := (h.found (List.replicate 32 'a')).mp (by decide +kernel)
    rw [List.mem_singleton.mp he] at hrefers
    obtain ⟨-, hpre | ⟨root, name, hroot, hname, htext⟩⟩ := hrefers
    · exact absurd hpre (by decide +kernel)
    · cases hroot
      obtain rfl : Value.str "web\x00x".toList = name := Option.some.inj hname
      exact absurd htext (by decide +kernel)

/-- Two containers: one is called `web`, and `aa` is the beginning of the other's ID. -/
theorem resolveContents_unambiguous_two :
    Unambiguous "aa".toList
      [⟨List.replicate 32 'b', some (.obj [("name", .str "web".toList)])⟩,
        ⟨List.replicate 32 'a', none⟩]
      (resolveContents "aa".toList
        [⟨List.replicate 32 'b', some (.obj [("name", .str "web".toList)])⟩,
          ⟨List.replicate 32 'a', none⟩]) := by
  have hplain : ∀ e ∈ [(⟨List.replicate 32 'b', some (.obj [("name", .str "web".toList)])⟩ :
      ContainerDir), ⟨List.replicate 32 'a', none⟩], ∀ root name, e.config = some root →
        root.getEx "name" = some name → name.getString = some "web".toList := by
    intro e he root name hroot hname
    rcases List.mem_pair.mp he with rfl | rfl
    · cases hroot
      obtain rfl : Value.str "web".toList = name := Option.some.inj hname
      rfl
    · cases hroot
  refine ((resolveContents_unambiguous_iff "aa".toList (by decide) (by decide) _ (by decide)).mpr
    ⟨?_, ?_⟩ _ (List.Perm.refl _)).1
  · rintro ⟨e, he, -, -, root, name, hroot, hname, htext⟩
    cases (hplain e he root name hroot hname).symm.trans htext
  · rintro ⟨e, he, -, -, root, name, text, hroot, hname, htext, hcut⟩
    obtain rfl := Option.some.inj ((hplain e he root name hroot hname).symm.trans htext)
    exact absurd hcut (by decide)

end Scan

/-! ## The program -/

section Program

variable {t : Tid} {w : World}

/-- The contents of the containers directory. -/
def World.contents (w : World) : List ContainerDir := w.dirs.keys.map fun d => ⟨d, w.config d⟩

/-- Where no stored name is a JSON null, the program of the command line returns what the scan
    of the directory's contents returns. -/
theorem alone_resolve_contents {reference : Text} (hne : reference ≠ [])
    (hdirs : w.dirs.keys ≠ []) (hnull : ¬ ∃ e ∈ w.contents, e.NullName reference) :
    Alone t (fun result w' => w' = w ∧ resolveContents reference w.contents = some result)
      (resolve reference) w := by
  rw [resolve, if_neg hne]
  refine Alone.opendir_andThen trivial (fun h => absurd h hdirs) fun names hnames => ?_
  refine Alone.lift_andThen ((alone_resolveIn reference names [] 0).mono ?_)
  rintro _ w' ⟨rfl, rfl⟩
  -- both scans filter the same entries
  have hperm : (names.map fun d => (⟨d, w'.config d⟩ : ContainerDir)).Perm w'.contents :=
    hnames.map _
  have hmatching : matching reference (names.map fun d => ⟨d, w'.config d⟩) =
      (names.filter (refersTo w'.config reference)).map fun d => ⟨d, w'.config d⟩ := by
    rw [matching, List.filter_map]
    rfl
  have hnull' : ¬ ∃ e ∈ names.map fun d => (⟨d, w'.config d⟩ : ContainerDir),
      e.NullName reference := by
    simpa only [hperm.mem_iff] using hnull
  rw [← resolveContents_perm hperm, resolveContents_eq hne hnull', hmatching]
  dsimp only
  rcases names.filter (refersTo w'.config reference) with - | ⟨d₁, - | ⟨d₂, rest⟩⟩
  · exact ⟨rfl, rfl⟩
  · exact ⟨rfl, rfl⟩
  · rw [if_neg (by simp), if_neg (by simp)]
    exact ⟨rfl, rfl⟩

end Program

end MiniContainer
