import MiniContainer.ForStd.CString

/-!
# Positions in C strings

The functions of `<string.h>` once more, at the positions that they examine. `peek` is the
only access to a string: it answers the terminating NUL as `none` and fails behind it. A
computation that returns has therefore examined no position behind a terminating NUL.

Each function is related to its counterpart on lists at the text from a position on.
-/

namespace CString

/-- An access behind the terminating NUL of a string. -/
structure Outside where
  string : Text
  position : Nat
  deriving DecidableEq, Repr

/-- The character at a position, and `none` for the terminating NUL. -/
def peek (s : Text) (i : Nat) : Except Outside (Option Char) :=
  if i ≤ s.length then .ok s[i]? else .error ⟨s, i⟩

theorem peek_eq {s : Text} {i : Nat} (h : i ≤ s.length) : peek s i = .ok (s.drop i).head? := by
  rw [peek, if_pos h, List.head?_drop]

theorem peek_of_lt {s : Text} {i : Nat} (h : s.length < i) : peek s i = .error ⟨s, i⟩ := by
  rw [peek, if_neg (by omega)]

theorem lt_of_peek_eq_some {s : Text} {i : Nat} {c : Char} (h : peek s i = .ok (some c)) :
    i < s.length := by
  unfold peek at h
  split at h
  · exact (List.getElem?_eq_some_iff.mp (Except.ok.inj h)).1
  · cases h

/-! ## Searching and comparing -/

/-- `strlen(s + i)`. -/
def strlenAt (s : Text) (i : Nat) : Except Outside Nat :=
  match h : peek s i with
  | .error e => .error e
  | .ok none => .ok 0
  | .ok (some _) => (strlenAt s (i + 1)).map (· + 1)
termination_by s.length - i
decreasing_by
  have := lt_of_peek_eq_some h
  omega

/-- `strchr(s + i, c)`, as a position. -/
def strchrAt (s : Text) (c : Char) (i : Nat) : Except Outside (Option Nat) :=
  match h : peek s i with
  | .error e => .error e
  | .ok none => .ok none
  | .ok (some d) => if d = c then .ok (some i) else strchrAt s c (i + 1)
termination_by s.length - i
decreasing_by
  have := lt_of_peek_eq_some h
  omega

/-- `strncmp(s + i, t + j, n) == 0`. -/
def strncmpAt (s t : Text) : Nat → Nat → Nat → Except Outside Bool
  | 0, _, _ => .ok true
  | n + 1, i, j => do
    let a ← peek s i
    let b ← peek t j
    if a ≠ b then return false
    else if a = none then return true
    else strncmpAt s t n (i + 1) (j + 1)

/-- `strcmp(s, t) == 0`. -/
def strcmpAt (s t : Text) : Except Outside Bool := strncmpAt s t (s.length + 1) 0 0

/-- `strstr(s + i, needle)`, as a position. -/
def strstrAt (s needle : Text) (i : Nat) : Except Outside (Option Nat) :=
  match strncmpAt s needle needle.length i 0 with
  | .error e => .error e
  | .ok true => .ok (some i)
  | .ok false =>
    match h : peek s i with
    | .error e => .error e
    | .ok none => .ok none
    | .ok (some _) => strstrAt s needle (i + 1)
termination_by s.length - i
decreasing_by
  have := lt_of_peek_eq_some h
  omega

/-! ## The text from a position on -/

/-- The two ways in which a position lies in a string. -/
theorem peek_cases {s : Text} {i : Nat} (h : i ≤ s.length) :
    (i = s.length ∧ s.drop i = [] ∧ peek s i = .ok none) ∨
      ∃ c, i < s.length ∧ s.drop i = c :: s.drop (i + 1) ∧ peek s i = .ok (some c) := by
  rcases Nat.lt_or_eq_of_le h with hlt | rfl
  · refine .inr ⟨s[i], hlt, List.drop_eq_getElem_cons hlt, ?_⟩
    rw [peek, if_pos h, List.getElem?_eq_getElem hlt]
  · exact .inl ⟨rfl, List.drop_length, by simp [peek]⟩

/-- Induction from the end of a string towards its start. -/
theorem position_induction {s : Text} {motive : Nat → Prop}
    (last : motive s.length)
    (before : ∀ i c, i < s.length → s.drop i = c :: s.drop (i + 1) → peek s i = .ok (some c) →
      motive (i + 1) → motive i)
    {i : Nat} (h : i ≤ s.length) : motive i := by
  induction hn : s.length - i generalizing i with
  | zero =>
    obtain rfl : i = s.length := by omega
    exact last
  | succ n ih =>
    obtain ⟨hi, -⟩ | ⟨c, hlt, hdrop, hpeek⟩ := peek_cases h
    · omega
    · exact before i c hlt hdrop hpeek (ih hlt (by omega))

theorem peek_length (s : Text) : peek s s.length = .ok none := by simp [peek]

theorem strlenAt_char {s : Text} {i : Nat} {c : Char} (h : peek s i = .ok (some c)) :
    strlenAt s i = (strlenAt s (i + 1)).map (· + 1) := by
  rw [strlenAt]
  split <;> simp_all

theorem strlenAt_eq {s : Text} {i : Nat} (h : i ≤ s.length) :
    strlenAt s i = .ok (s.length - i) := by
  refine position_induction (motive := fun i => strlenAt s i = .ok (s.length - i)) ?_ ?_ h
  · rw [strlenAt]
    split <;> simp_all [peek_length]
  · intro i c hlt hdrop hpeek ih
    rw [strlenAt_char hpeek, ih, Except.map]
    congr 1
    omega

theorem strchrAt_char {s : Text} {c d : Char} {i : Nat} (h : peek s i = .ok (some d)) :
    strchrAt s c i = if d = c then .ok (some i) else strchrAt s c (i + 1) := by
  rw [strchrAt]
  split <;> simp_all

/-- `strchr` finds what stands in front of the first occurrence. -/
theorem strchrAt_eq {s : Text} (c : Char) {i : Nat} (h : i ≤ s.length) :
    strchrAt s c i = .ok ((strchr c (s.drop i)).map (i + ·.1.length)) := by
  refine position_induction (motive := fun i =>
    strchrAt s c i = .ok ((strchr c (s.drop i)).map (i + ·.1.length))) ?_ ?_ h
  · rw [strchrAt, List.drop_length]
    split <;> simp_all [peek_length, strchr]
  · intro i d hlt hdrop hpeek ih
    rw [strchrAt_char hpeek, hdrop, strchr, ih]
    split
    · rfl
    · rw [Option.map_map]
      congr 2
      funext p
      simp only [Function.comp_apply, List.length_cons]
      omega

theorem strchrAt_of_lt {s : Text} {c : Char} {i : Nat} (h : s.length < i) :
    strchrAt s c i = .error ⟨s, i⟩ := by
  rw [strchrAt]
  split <;> simp_all [peek_of_lt h]

/-- `strncmp` compares the texts cut to `n` characters. -/
theorem strncmpAt_eq {s t : Text} (n : Nat) {i j : Nat} (hi : i ≤ s.length) (hj : j ≤ t.length) :
    strncmpAt s t n i j = .ok ((s.drop i).take n == (t.drop j).take n) := by
  induction n generalizing i j with
  | zero => simp [strncmpAt]
  | succ n ih =>
    obtain ⟨-, hs, hpeek⟩ | ⟨c, hlt, hs, hpeek⟩ := peek_cases hi <;>
      obtain ⟨-, ht, hpeek'⟩ | ⟨d, hlt', ht, hpeek'⟩ := peek_cases hj
    · simp [strncmpAt, hpeek, hpeek', hs, ht, bind, Except.bind, pure, Except.pure]
    · simp [strncmpAt, hpeek, hpeek', hs, ht, bind, Except.bind, pure, Except.pure]
    · simp [strncmpAt, hpeek, hpeek', hs, ht, bind, Except.bind, pure, Except.pure]
    · rw [hs, ht, List.take_succ_cons, List.take_succ_cons]
      by_cases hcd : c = d
      · simp [strncmpAt, hpeek, hpeek', bind, Except.bind, hcd, ih hlt hlt']
      · simp [strncmpAt, hpeek, hpeek', bind, Except.bind, pure, Except.pure, hcd]

/-- Comparing as many characters as the other text has asks whether that text starts here. -/
theorem strncmpAt_length {s : Text} (t : Text) {i : Nat} (hi : i ≤ s.length) :
    strncmpAt s t t.length i 0 = .ok (t.isPrefixOf (s.drop i)) := by
  rw [strncmpAt_eq _ hi (Nat.zero_le _), List.drop_zero, List.take_length]
  congr 1
  rw [Bool.eq_iff_iff, beq_iff_eq, List.isPrefixOf_iff_prefix, List.prefix_iff_eq_take]
  exact eq_comm

/-- `strcmp` reads no further than the ends. -/
theorem strcmpAt_eq (s t : Text) : strcmpAt s t = .ok (s == t) := by
  rw [strcmpAt, strncmpAt_eq _ (Nat.zero_le _) (Nat.zero_le _), List.drop_zero, List.drop_zero,
    List.take_of_length_le (Nat.le_succ _)]
  congr 1
  rw [Bool.eq_iff_iff, beq_iff_eq, beq_iff_eq]
  constructor
  · intro h
    have hlength := congrArg List.length h
    rw [List.length_take] at hlength
    rwa [List.take_of_length_le (by omega)] at h
  · intro h
    rw [← h, List.take_of_length_le (Nat.le_succ _)]

theorem strstrAt_char {s needle : Text} {c : Char} {i : Nat} (h : peek s i = .ok (some c)) :
    strstrAt s needle i =
      if needle.isPrefixOf (s.drop i) then .ok (some i) else strstrAt s needle (i + 1) := by
  have hle : i ≤ s.length := Nat.le_of_lt (lt_of_peek_eq_some h)
  rw [strstrAt, strncmpAt_length needle hle]
  cases needle.isPrefixOf (s.drop i) with
  | true => rfl
  | false =>
    dsimp only
    split <;> simp_all

/-- `strstr` finds the text from the first occurrence on. -/
theorem strstrAt_eq {s : Text} (needle : Text) {i : Nat} (h : i ≤ s.length) :
    strstrAt s needle i =
      .ok ((strstr needle (s.drop i)).map fun found => s.length - found.length) := by
  refine position_induction (motive := fun i => strstrAt s needle i =
    .ok ((strstr needle (s.drop i)).map fun found => s.length - found.length)) ?_ ?_ h
  · rw [strstrAt, strncmpAt_length needle (Nat.le_refl _), List.drop_length]
    cases needle with
    | nil => simp [strstr]
    | cons c needle =>
      simp only [List.isPrefixOf]
      split <;> simp_all [peek_length, strstr]
  · intro i c hlt hdrop hpeek ih
    rw [strstrAt_char hpeek, ih, hdrop, strstr, ← hdrop]
    split
    · rw [Option.map_some, List.length_drop]
      congr 2
      omega
    · rfl

/-! ## Where something is found -/

theorem strchrAt_eq_some {s : Text} {c : Char} {i j : Nat} (h : strchrAt s c i = .ok (some j)) :
    i ≤ j ∧ j < s.length := by
  rcases Nat.lt_or_ge s.length i with hlt | hle
  · rw [strchrAt_of_lt hlt] at h
    cases h
  · rw [strchrAt_eq c hle] at h
    obtain ⟨⟨a, b⟩, hab, rfl⟩ := Option.map_eq_some_iff.mp (Except.ok.inj h)
    have hlength := congrArg List.length (strchr_eq_some hab).1
    simp only [List.length_drop, List.length_append, List.length_cons] at hlength
    dsimp only
    constructor <;> omega

theorem strstrAt_of_lt {s needle : Text} (hne : needle ≠ []) {i : Nat} (h : s.length < i) :
    strstrAt s needle i = .error ⟨s, i⟩ := by
  cases needle with
  | nil => exact absurd rfl hne
  | cons c needle => simp [strstrAt, strncmpAt, peek_of_lt h, bind, Except.bind]

theorem strstrAt_eq_some {s needle : Text} (hne : needle ≠ []) {i j : Nat}
    (h : strstrAt s needle i = .ok (some j)) :
    i ≤ j ∧ j + needle.length ≤ s.length ∧ needle <+: s.drop j := by
  rcases Nat.lt_or_ge s.length i with hlt | hle
  · rw [strstrAt_of_lt hne hlt] at h
    cases h
  · rw [strstrAt_eq needle hle] at h
    obtain ⟨found, hfound, rfl⟩ := Option.map_eq_some_iff.mp (Except.ok.inj h)
    obtain ⟨hstart, hrest⟩ := strstr_mem hfound
    have hlength := hrest.length_le
    rw [List.length_drop] at hlength
    have hneedle := hstart.length_le
    have hdrop : found = s.drop (s.length - found.length) :=
      List.suffix_iff_eq_drop.mp (hrest.trans (List.drop_suffix i s))
    exact ⟨by omega, by omega, hdrop ▸ hstart⟩

end CString
