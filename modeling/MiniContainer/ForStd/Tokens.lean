import MiniContainer.ForStd.Path

/-!
# Lines and tokens

Texts that are taken apart at separators: where a separator splits a text is determined
by the text alone, `fgets` reads a line, `strrchr` finds the last separator, and `strtok`
takes the fields of a line apart.
-/

namespace CString

/-- A text is split at the first occurrence of a separator in one way only. -/
theorem append_cons_inj {c : Char} {a a' b b' : Text} (ha : c ∉ a) (ha' : c ∉ a')
    (h : a ++ c :: b = a' ++ c :: b') : a = a' ∧ b = b' := by
  have hsplit := strchr_append (b := b) ha
  rw [h, strchr_append ha', Option.some.injEq, Prod.mk.injEq] at hsplit
  exact ⟨hsplit.1.symm, hsplit.2.symm⟩

/-! ## Lines -/

/-- The text up to the first newline, with it. -/
def upToNewline : Text → Text
  | [] => []
  | c :: s => if c = '\n' then [c] else c :: upToNewline s

/-- `fgets` with a buffer of this size, from the start of a file; `none` at its end. -/
def fgets (size : Nat) (content : Text) : Option Text :=
  if content = [] then none else some ((upToNewline content).take (size - 1))

theorem upToNewline_append {line rest : Text} (hline : '\n' ∉ line)
    (hrest : ∀ c ∈ rest.head?, c = '\n') :
    upToNewline (line ++ rest) = line ++ rest.take 1 := by
  induction line with
  | nil =>
    cases rest with
    | nil => rfl
    | cons c rest => simp [upToNewline, hrest c (by simp)]
  | cons c line ih =>
    simp only [List.mem_cons, not_or] at hline
    rw [List.cons_append, upToNewline, if_neg (Ne.symm hline.1), ih hline.2, List.cons_append]

/-- A line that fits into the buffer is read, with its newline if that fits too. -/
theorem fgets_line {size : Nat} {line rest : Text} (hne : line ≠ []) (hline : '\n' ∉ line)
    (hrest : ∀ c ∈ rest.head?, c = '\n') (hsize : line.length < size) :
    ∃ tail, fgets size (line ++ rest) = some (line ++ tail) ∧ (tail = [] ∨ tail = ['\n']) := by
  rw [fgets, if_neg (by simp [hne]), upToNewline_append hline hrest, List.take_append,
    List.take_of_length_le (by omega)]
  refine ⟨_, rfl, ?_⟩
  cases rest with
  | nil => simp
  | cons c rest =>
    obtain rfl := hrest c (by simp)
    cases size - 1 - line.length <;> simp

/-! ## The last separator -/

/-- `strrchr`: the text from the last occurrence of a character on. -/
def strrchr (c : Char) : Text → Option Text
  | [] => none
  | x :: s =>
    match strrchr c s with
    | some found => some found
    | none => if x = c then some (x :: s) else none

theorem strrchr_of_not_mem {c : Char} {s : Text} (h : c ∉ s) : strrchr c s = none := by
  induction s with
  | nil => rfl
  | cons x s ih =>
    simp only [List.mem_cons, not_or] at h
    simp [strrchr, ih h.2, Ne.symm h.1]

/-- Whatever stands in front of it, the last occurrence is found. -/
theorem strrchr_append {c : Char} (a : Text) {b : Text} (h : c ∉ b) :
    strrchr c (a ++ c :: b) = some (c :: b) := by
  induction a with
  | nil => simp [strrchr, strrchr_of_not_mem h]
  | cons x a ih => simp [strrchr, ih]

/-! ## Fields -/

/-- Fields with a separator between them. -/
def joinFields (d : Char) : List Text → Text
  | [] => []
  | f :: fs => f ++ fs.flatMap (d :: ·)

theorem joinFields_cons_cons (d : Char) (f g : Text) (fs : List Text) :
    joinFields d (f :: g :: fs) = f ++ d :: joinFields d (g :: fs) := rfl

/-- `strtok` finds the fields again; what follows the last one is taken for a part of it. -/
theorem strtok_joinFields {d : Char} {fields : List Text}
    (hfields : ∀ f ∈ fields, f ≠ [] ∧ d ∉ f) {tail : Text} (htail : d ∉ tail) {i : Nat}
    {field : Text} (hi : fields[i]? = some field) :
    ∃ t, (strtok d (joinFields d fields ++ tail))[i]? = some (field ++ t) ∧
      (t = [] ∨ t = tail) := by
  induction fields generalizing i with
  | nil => simp at hi
  | cons f fs ih =>
    obtain ⟨⟨hne, hnot⟩, hrest⟩ := List.forall_mem_cons.mp hfields
    cases fs with
    | nil =>
      obtain ⟨rfl, rfl⟩ : i = 0 ∧ f = field := by
        cases i <;> simp_all
      refine ⟨tail, ?_, .inr rfl⟩
      have hone : strtok d (f ++ tail) = [f ++ tail] :=
        strtok_of_not_mem (by simp [hnot, htail]) (by simp [hne])
      simp [joinFields, hone]
    | cons g gs =>
      have hsplit : strtok d (joinFields d (f :: g :: gs) ++ tail) =
          f :: strtok d (joinFields d (g :: gs) ++ tail) := by
        rw [joinFields_cons_cons, List.append_assoc, List.cons_append, strtok_append_sep,
          strtok_of_not_mem hnot hne]
        rfl
      rw [hsplit]
      cases i with
      | zero =>
        obtain rfl : f = field := by simpa using hi
        exact ⟨[], by simp, .inl rfl⟩
      | succ i => exact ih hrest hi

/-- Lines are found again, whether the last one ends with a separator or not. -/
theorem strtok_lines {d : Char} {lines : List Text} (h : ∀ l ∈ lines, l ≠ [] ∧ d ∉ l)
    {tail : Text} (htail : tail = [] ∨ tail = [d]) :
    strtok d (joinFields d lines ++ tail) = lines := by
  have hend : ∀ s, strtok d (s ++ tail) = strtok d s := by
    intro s
    rcases htail with rfl | rfl
    · rw [List.append_nil]
    · rw [strtok_append_sep]
      exact List.append_nil _
  rw [hend]
  induction lines with
  | nil => rfl
  | cons l ls ih =>
    obtain ⟨⟨hne, hnot⟩, hrest⟩ := List.forall_mem_cons.mp h
    cases ls with
    | nil =>
      show strtok d (l ++ []) = [l]
      rw [List.append_nil, strtok_of_not_mem hnot hne]
    | cons m ms =>
      rw [joinFields_cons_cons, strtok_append_sep, strtok_of_not_mem hnot hne, ih hrest]
      rfl

/-! ## Two delimiters -/

/-- The tokens that repeated calls of `strtok` with two delimiters return: the second one
    counts as the first. -/
def strtok₂ (d e : Char) (s : Text) : List Text := strtok d (s.map fun c => if c = e then d else c)

section TwoDelimiters

variable {d e : Char}

theorem strtok₂_append_sep {x : Char} (hx : x = d ∨ x = e) (a b : Text) :
    strtok₂ d e (a ++ x :: b) = strtok₂ d e a ++ strtok₂ d e b := by
  have hsep : (if x = e then d else x) = d := by
    rcases hx with rfl | rfl <;> simp
  rw [strtok₂, List.map_append, List.map_cons, hsep, strtok_append_sep]
  rfl

theorem strtok₂_of_not_mem {s : Text} (hd : d ∉ s) (he : e ∉ s) (hne : s ≠ []) :
    strtok₂ d e s = [s] := by
  have hself : ∀ c ∈ s, (if c = e then d else c) = c := by
    intro c hc
    rw [if_neg]
    rintro rfl
    exact he hc
  have hmap : (s.map fun c => if c = e then d else c) = s := by
    rw [List.map_congr_left hself]
    exact List.map_id s
  rw [strtok₂, hmap, strtok_of_not_mem hd hne]

/-- The tokens of lines are the tokens of each line. -/
theorem strtok₂_lines (lines : List Text) {tail : Text} (htail : tail = [] ∨ tail = [e]) :
    strtok₂ d e (joinFields e lines ++ tail) = lines.flatMap (strtok₂ d e) := by
  have hend : ∀ s, strtok₂ d e (s ++ tail) = strtok₂ d e s := by
    intro s
    rcases htail with rfl | rfl
    · rw [List.append_nil]
    · rw [strtok₂_append_sep (.inr rfl)]
      exact List.append_nil _
  rw [hend]
  induction lines with
  | nil => rfl
  | cons l ls ih =>
    cases ls with
    | nil => simp [joinFields]
    | cons m ms =>
      rw [joinFields_cons_cons, strtok₂_append_sep (.inr rfl), ih]
      rfl

end TwoDelimiters

/-! ## Numbers at the start of a token -/

/-- `strtoull` in base 10. -/
def strtoull (s : Text) : UInt64 := UInt64.ofNat ((strtou 64 s).elim 0 Conversion.value)

/-- Digits that denote a number of 64 bits are read as it. -/
theorem strtoull_digits {s : Text} (hne : s ≠ []) (hdigits : ∀ c ∈ s, c.isDigit = true)
    (hlt : Nat.ofDigitChars 10 s 0 < 2 ^ 64) :
    (strtoull s).toNat = Nat.ofDigitChars 10 s 0 := by
  have hread := strtou_digits hne hdigits noDigit_nil hlt
  rw [List.append_nil] at hread
  rw [strtoull, hread, Option.elim_some, UInt64.toNat_ofNat', Nat.mod_eq_of_lt hlt]

/-- Digits that denote more are read as the largest number. -/
theorem strtoull_saturates {s : Text} (hne : s ≠ []) (hdigits : ∀ c ∈ s, c.isDigit = true)
    (hle : 2 ^ 64 ≤ Nat.ofDigitChars 10 s 0) : (strtoull s).toNat = 2 ^ 64 - 1 := by
  have hspan := span_digits hdigits noDigit_nil
  have hsign : takeSign ((s ++ []).dropWhile isSpace) = (false, s ++ []) :=
    takeSign_digits hne hdigits
  rw [List.append_nil] at hspan hsign
  rw [strtoull, strtou, hsign]
  dsimp only
  rw [hspan.1, if_neg hne, if_pos hle]
  rfl

/-- Only a first character can be taken for a sign. -/
theorem takeSign_append {s : Text} (hne : s ≠ []) (t : Text) :
    takeSign (s ++ t) = ((takeSign s).1, (takeSign s).2 ++ t) := by
  cases s with
  | nil => exact absurd rfl hne
  | cons c s =>
    by_cases hminus : c = '-'
    · subst hminus
      rfl
    by_cases hplus : c = '+'
    · subst hplus
      rfl
    have hother : ∀ r, takeSign (c :: r) = (false, c :: r) := by
      intro r
      unfold takeSign
      split
      · rename_i heq
        exact absurd (List.cons.inj heq).1 hminus
      · rename_i heq
        exact absurd (List.cons.inj heq).1 hplus
      · rfl
    rw [List.cons_append, hother, hother]
    rfl

/-- White space behind a token does not change what is read from it. -/
theorem strtou_append_newline (w : Nat) (s : Text) :
    (strtou w (s ++ ['\n'])).map Conversion.value = (strtou w s).map Conversion.value := by
  by_cases hspace : s.dropWhile isSpace = []
  · -- nothing is there to convert
    have hall : (s ++ ['\n']).dropWhile isSpace = [] := by
      rw [List.dropWhile_append, hspace]
      decide
    simp only [strtou, hspace, hall]
  · have hdrop : (s ++ ['\n']).dropWhile isSpace = s.dropWhile isSpace ++ ['\n'] := by
      rw [List.dropWhile_append, if_neg (by simpa using hspace)]
    have hdigits : ∀ body : Text, (body ++ ['\n']).takeWhile Char.isDigit =
        body.takeWhile Char.isDigit := by
      intro body
      rw [List.takeWhile_append]
      split
      · rename_i hall
        have hself := (List.takeWhile_prefix Char.isDigit (l := body)).eq_of_length hall
        rw [hself]
        exact List.append_nil body
      · rfl
    simp only [strtou, hdrop, takeSign_append hspace, hdigits]
    split
    · rfl
    · split <;> rfl

theorem strtoull_append_newline (s : Text) : strtoull (s ++ ['\n']) = strtoull s := by
  have helim : ∀ o : Option Conversion,
      o.elim 0 Conversion.value = (o.map Conversion.value).getD 0 := by
    intro o
    cases o <;> rfl
  rw [strtoull, strtoull, helim, helim, strtou_append_newline]

end CString
