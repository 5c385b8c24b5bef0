import MiniContainer.ForStd.CString

/-!
# Slash-separated paths

A path text and the list of its components: splitting at the slashes (`pieces '/'` with the
empty components, `strtok '/'` without them) and spelling components as a text (`spell`) are
inverse to each other on components without slashes. A path continues another one behind a
slash when the components of the second start those of the first.
-/

namespace CString

variable {d : Char} {s : Text}

/-! ## Splitting -/

theorem pieces_ne_nil (d : Char) (s : Text) : pieces d s ≠ [] := by
  cases s with
  | nil => simp [pieces]
  | cons c s =>
    unfold pieces
    split
    · simp
    · split <;> simp

/-- A text splits where a separator was inserted. -/
theorem pieces_append_sep (d : Char) (a b : Text) :
    pieces d (a ++ d :: b) = pieces d a ++ pieces d b := by
  induction a with
  | nil => simp [pieces]
  | cons c a ih =>
    rw [List.cons_append, pieces, pieces, ih]
    split
    · rfl
    · cases hp : pieces d a with
      | nil => exact absurd hp (pieces_ne_nil d a)
      | cons p ps => rfl

theorem length_pieces (d : Char) (s : Text) : (pieces d s).length = s.count d + 1 := by
  induction s with
  | nil => rfl
  | cons c s ih =>
    unfold pieces
    split
    · rename_i hc
      rw [List.length_cons, ih, hc, List.count_cons_self]
    · rename_i hc
      rw [List.count_cons_of_ne hc, ← ih]
      cases hp : pieces d s with
      | nil => exact absurd hp (pieces_ne_nil d s)
      | cons p ps => rfl

/-- The last piece is empty behind a separator only. -/
theorem getLast_of_pieces_getLast (hne : s ≠ []) (h : (pieces d s).getLast? = some []) :
    s.getLast? = some d := by
  induction s with
  | nil => exact absurd rfl hne
  | cons c s ih =>
    cases s with
    | nil =>
      by_cases hc : c = d
      · rw [hc]
        rfl
      · simp [pieces, hc] at h
    | cons e s =>
      rw [List.getLast?_cons_cons]
      refine ih (List.cons_ne_nil _ _) ?_
      unfold pieces at h
      obtain ⟨p, ps, hp⟩ := List.exists_cons_of_ne_nil (pieces_ne_nil d (e :: s))
      rw [hp] at h ⊢
      split at h
      · rwa [List.getLast?_cons_cons] at h
      · cases ps with
        | nil => simp at h
        | cons q ps => rwa [List.getLast?_cons_cons] at h ⊢

/-- No piece contains the separator. -/
theorem not_mem_of_mem_pieces {p : Text} (h : p ∈ pieces d s) : d ∉ p := by
  induction s generalizing p with
  | nil =>
    obtain rfl := List.mem_singleton.mp h
    exact List.not_mem_nil
  | cons c s ih =>
    unfold pieces at h
    split at h
    · rcases List.mem_cons.mp h with rfl | h
      · exact List.not_mem_nil
      · exact ih h
    · rename_i hc
      cases hp : pieces d s with
      | nil => exact absurd hp (pieces_ne_nil d s)
      | cons q qs =>
        rw [hp] at h ih
        rcases List.mem_cons.mp h with rfl | h
        · simp [Ne.symm hc, ih List.mem_cons_self]
        · exact ih (List.mem_cons_of_mem _ h)

theorem strtok_append_sep (d : Char) (a b : Text) :
    strtok d (a ++ d :: b) = strtok d a ++ strtok d b := by
  rw [strtok, pieces_append_sep, List.filter_append]
  rfl

@[simp] theorem strtok_cons_sep (d : Char) (s : Text) : strtok d (d :: s) = strtok d s := by
  rw [← List.nil_append (d :: s), strtok_append_sep]
  rfl

/-- A text without delimiters is one token. -/
theorem strtok_of_not_mem (h : d ∉ s) (hne : s ≠ []) : strtok d s = [s] := by
  have hempty : s.isEmpty = false := List.isEmpty_eq_false_iff.mpr hne
  rw [strtok, pieces_of_not_mem h, List.filter_singleton, hempty]
  rfl

/-- Tokens end in front of a delimiter. -/
theorem strtok_append_of_head {a b : Text} (h : b.head? = some d) :
    strtok d (a ++ b) = strtok d a ++ strtok d b := by
  obtain ⟨b', rfl⟩ := List.head?_eq_some_iff.mp h
  rw [strtok_append_sep, strtok_cons_sep]

/-- Tokens start behind a delimiter. -/
theorem strtok_append_of_getLast {a b : Text} (h : a.getLast? = some d) :
    strtok d (a ++ b) = strtok d a ++ strtok d b := by
  obtain ⟨a', rfl⟩ := List.getLast?_eq_some_iff.mp h
  rw [List.append_assoc, List.singleton_append, strtok_append_sep, strtok_append_sep]
  simp [strtok, pieces]

/-! ## Spelling -/

/-- The path with these components, each of them behind a slash. -/
def spell (components : List Text) : Text := components.flatMap ('/' :: ·)

@[simp] theorem spell_nil : spell [] = [] := rfl

@[simp] theorem spell_cons (c : Text) (cs : List Text) :
    spell (c :: cs) = '/' :: (c ++ spell cs) := rfl

theorem spell_append (cs ds : List Text) : spell (cs ++ ds) = spell cs ++ spell ds :=
  List.flatMap_append

theorem pieces_append_spell {c : Text} {cs : List Text} (hc : '/' ∉ c) (hcs : ∀ e ∈ cs, '/' ∉ e) :
    pieces '/' (c ++ spell cs) = c :: cs := by
  induction cs generalizing c with
  | nil => rw [spell_nil, List.append_nil, pieces_of_not_mem hc]
  | cons e es ih =>
    obtain ⟨he, hes⟩ := List.forall_mem_cons.mp hcs
    rw [spell_cons, pieces_append hc, ih he hes]

/-- A spelled path starts with a slash, so its first piece is empty. -/
theorem pieces_spell {cs : List Text} (h : ∀ c ∈ cs, '/' ∉ c) :
    pieces '/' (spell cs) = [] :: cs :=
  pieces_append_spell List.not_mem_nil h

/-- Splitting and spelling again adds only the slash in front. -/
theorem spell_pieces (s : Text) : spell (pieces '/' s) = '/' :: s := by
  induction s with
  | nil => rfl
  | cons c s ih =>
    unfold pieces
    split
    · rename_i hc
      rw [spell_cons, ih, List.nil_append, hc]
    · cases hp : pieces '/' s with
      | nil => exact absurd hp (pieces_ne_nil '/' s)
      | cons p ps =>
        rw [hp, spell_cons] at ih
        obtain ⟨-, hs⟩ := List.cons.inj ih
        rw [spell_cons, List.cons_append, hs]

end CString
