import Mathlib.Algebra.Order.Ring.Int
import Mathlib.Data.List.Basic
import Mathlib.Data.List.TakeWhile

/-!
# C strings

The parts of `<string.h>`, `<stdlib.h>` and `<stdio.h>` that parsers and printers
of small text formats rely on. A C string is the list of its characters without
the terminating NUL; positions returned by the C functions become the list that
starts there.

The lemmas at the end of each section are the round trips between printing and
scanning: a decimal number reads back, and a separator splits a text where it was
inserted.
-/

namespace CString

/-- A C string, without its terminating NUL. -/
abbrev Text := List Char

instance instLawfulBEqText : LawfulBEq Text := inferInstance

/-! ## Searching -/

/-- `strchr`: the text before and after the first occurrence of `c`. -/
def strchr (c : Char) : Text → Option (Text × Text)
  | [] => none
  | d :: s => if d = c then some ([], s) else (strchr c s).map fun (a, b) => (d :: a, b)

/-- `strstr`: the text from the first occurrence of `needle` on. -/
def strstr (needle : Text) : Text → Option Text
  | [] => if needle = [] then some [] else none
  | d :: s => if needle.isPrefixOf (d :: s) then some (d :: s) else strstr needle s

/-- The pieces of a text between the occurrences of `d`, empty ones included. -/
def pieces (d : Char) : Text → List Text
  | [] => [[]]
  | c :: s =>
    if c = d then [] :: pieces d s
    else
      match pieces d s with
      | [] => [[c]]
      | l :: ls => (c :: l) :: ls

/-- The tokens that repeated calls of `strtok` with one delimiter return. -/
def strtok (d : Char) (s : Text) : List Text := (pieces d s).filter (!·.isEmpty)

theorem strchr_of_not_mem {c : Char} {s : Text} (h : c ∉ s) : strchr c s = none := by
  induction s with
  | nil => rfl
  | cons d s ih =>
    simp only [List.mem_cons, not_or] at h
    simp [strchr, Ne.symm h.1, ih h.2]

/-- A separator that does not occur before splits where it was inserted. -/
theorem strchr_append {c : Char} {a b : Text} (h : c ∉ a) :
    strchr c (a ++ c :: b) = some (a, b) := by
  induction a with
  | nil => simp [strchr]
  | cons d a ih =>
    simp only [List.mem_cons, not_or] at h
    simp [strchr, Ne.symm h.1, ih h.2]

/-- `strchr` takes the text apart at a separator. -/
theorem strchr_eq_some {c : Char} {s a b : Text} (h : strchr c s = some (a, b)) :
    s = a ++ c :: b ∧ c ∉ a := by
  induction s generalizing a b with
  | nil => simp [strchr] at h
  | cons d s ih =>
    simp only [strchr] at h
    split at h
    · rename_i heq
      obtain ⟨rfl, rfl⟩ := h
      simp [heq]
    · rename_i hne
      obtain ⟨⟨a', b'⟩, hs, heq⟩ := Option.map_eq_some_iff.mp h
      obtain ⟨rfl, rfl⟩ := Prod.mk.inj heq
      obtain ⟨rfl, hmem⟩ := ih hs
      exact ⟨rfl, by simp [Ne.symm hne, hmem]⟩

theorem strchr_eq_none {c : Char} {s : Text} : strchr c s = none ↔ c ∉ s := by
  refine ⟨fun h hmem => ?_, strchr_of_not_mem⟩
  obtain ⟨a, b, rfl, ha⟩ := List.eq_append_cons_of_mem hmem
  rw [strchr_append ha] at h
  exact nomatch h

theorem pieces_of_not_mem {d : Char} {s : Text} (h : d ∉ s) : pieces d s = [s] := by
  induction s with
  | nil => rfl
  | cons c s ih =>
    simp only [List.mem_cons, not_or] at h
    rw [pieces, if_neg (Ne.symm h.1), ih h.2]

/-- The text before the first delimiter is the first piece. -/
theorem pieces_append {d : Char} {a b : Text} (h : d ∉ a) :
    pieces d (a ++ d :: b) = a :: pieces d b := by
  induction a with
  | nil => simp [pieces]
  | cons c a ih =>
    simp only [List.mem_cons, not_or] at h
    rw [List.cons_append, pieces, if_neg (Ne.symm h.1), ih h.2]

/-- Where a text is found: at the first position where it starts. -/
theorem strstr_eq_some {needle s : Text} {n : Nat} (hn : n ≤ s.length)
    (h : needle <+: s.drop n) (hmin : ∀ m < n, ¬needle <+: s.drop m) :
    strstr needle s = some (s.drop n) := by
  induction s generalizing n with
  | nil =>
    obtain rfl : n = 0 := by simpa using hn
    have : needle = [] := by simpa using h
    simp [strstr, this]
  | cons c s ih =>
    cases n with
    | zero =>
      rw [List.drop_zero] at h ⊢
      rw [strstr, if_pos (List.isPrefixOf_iff_prefix.mpr h)]
    | succ n =>
      have h₀ : ¬needle <+: c :: s := hmin 0 (Nat.succ_pos n)
      rw [strstr, if_neg (by rwa [List.isPrefixOf_iff_prefix])]
      exact ih (by simpa using hn) h fun m hm => hmin (m + 1) (by omega)

/-- A text is found at the start of what it begins. -/
theorem strstr_append (a b : Text) : strstr a (a ++ b) = some (a ++ b) :=
  strstr_eq_some (n := 0) (Nat.zero_le _) (List.prefix_append a b)
    fun m hm => absurd hm (Nat.not_lt_zero m)

/-- A text that starts nowhere is not found. -/
theorem strstr_eq_none {needle s : Text} (h : ∀ n, ¬needle <+: s.drop n) :
    strstr needle s = none := by
  induction s with
  | nil =>
    have : needle ≠ [] := fun h₀ => h 0 (by simp [h₀])
    simp [strstr, this]
  | cons c s ih =>
    rw [strstr, if_neg (by rw [List.isPrefixOf_iff_prefix]; exact h 0)]
    exact ih fun n => h (n + 1)

/-- What is found starts with the searched text and reaches to the end. -/
theorem strstr_mem {needle s found : Text} (h : strstr needle s = some found) :
    needle <+: found ∧ found <:+ s := by
  induction s with
  | nil =>
    unfold strstr at h
    split at h
    · rename_i hneedle
      cases h
      exact ⟨by simp [hneedle], List.suffix_rfl⟩
    · cases h
  | cons c s ih =>
    unfold strstr at h
    split at h
    · rename_i hprefix
      cases h
      exact ⟨List.isPrefixOf_iff_prefix.mp hprefix, List.suffix_rfl⟩
    · exact ⟨(ih h).1, (ih h).2.trans (List.suffix_cons c s)⟩

/-- Only a text that does not occur is not found. -/
theorem strstr_eq_none_iff {needle s : Text} : strstr needle s = none ↔ ¬needle <:+: s := by
  constructor
  · intro h hinfix
    induction s with
    | nil =>
      rw [List.infix_nil] at hinfix
      simp [strstr, hinfix] at h
    | cons c s ih =>
      unfold strstr at h
      split at h
      · cases h
      · rename_i hstarts
        rcases List.infix_cons_iff.mp hinfix with hprefix | hinfix
        · exact hstarts (List.isPrefixOf_iff_prefix.mpr hprefix)
        · exact ih h hinfix
  · intro h
    refine strstr_eq_none fun n hstarts => h ?_
    exact hstarts.isInfix.trans (List.drop_suffix n s).isInfix

/-- Characters in front of the first one of the searched text are skipped. -/
theorem strstr_skip {d : Char} {needle a s : Text} (h : d ∉ a) :
    strstr (d :: needle) (a ++ s) = strstr (d :: needle) s := by
  induction a with
  | nil => rfl
  | cons c a ih =>
    simp only [List.mem_cons, not_or] at h
    have hp : ¬(d :: needle).isPrefixOf (c :: (a ++ s)) = true := by
      simp [List.isPrefixOf, h.1]
    rw [List.cons_append, strstr, if_neg hp, ih h.2]

/-! ## Numbers -/

/-- `isspace` in the C locale. -/
def isSpace (c : Char) : Bool :=
  c == ' ' || c == '\t' || c == '\n' || c == '\x0b' || c == '\x0c' || c == '\r'

/-- The text that `%u`, `%lu` and `%llu` print. -/
def decimal (n : Nat) : Text := Nat.toDigits 10 n

/-- The outcome of `strtoul` or `strtoull`: the value, whether `errno` is `ERANGE`,
    and the text from `*end` on. -/
structure Conversion where
  value : Nat
  erange : Bool
  rest : Text
  deriving DecidableEq, Repr

/-- Split an optional sign off; `true` for a minus sign. -/
def takeSign : Text → Bool × Text
  | '-' :: s => (true, s)
  | '+' :: s => (false, s)
  | s => (false, s)

/-- `strtoul` and `strtoull` in base 10 for a result of `w` bits: white space is
    skipped, a minus sign negates modulo `2 ^ w`, and too large a value saturates.
    `none` when there is no digit to convert, so that `end` is the start of the text. -/
def strtou (w : Nat) (s : Text) : Option Conversion :=
  let (negative, body) := takeSign (s.dropWhile isSpace)
  let digits := body.takeWhile Char.isDigit
  if digits = [] then none
  else
    let n := Nat.ofDigitChars 10 digits 0
    let rest := body.dropWhile Char.isDigit
    if 2 ^ w ≤ n then some ⟨2 ^ w - 1, true, rest⟩
    else some ⟨if negative then (2 ^ w - n) % 2 ^ w else n, false, rest⟩

/-- `strtol` in base 10, with 64-bit results: the value, whether `errno` is `ERANGE`, and
    the text from `*end` on; `none` when there is no digit to convert. -/
def strtol (s : Text) : Option (Int × Bool × Text) :=
  let (negative, body) := takeSign (s.dropWhile isSpace)
  let digits := body.takeWhile Char.isDigit
  if digits = [] then none
  else
    let n : Int := Nat.ofDigitChars 10 digits 0
    let rest := body.dropWhile Char.isDigit
    if negative then
      some (if 2 ^ 63 < n then (-2 ^ 63, true, rest) else (-n, false, rest))
    else some (if 2 ^ 63 ≤ n then (2 ^ 63 - 1, true, rest) else (n, false, rest))

theorem isDigit_of_mem_decimal {n : Nat} {c : Char} (h : c ∈ decimal n) : c.isDigit = true :=
  Nat.isDigit_of_mem_toDigits (by decide) (by decide) h

theorem decimal_ne_nil (n : Nat) : decimal n ≠ [] := Nat.toDigits_ne_nil

/-- The value of the digits printed for `n` is `n`. -/
@[simp] theorem ofDigitChars_decimal (n : Nat) : Nat.ofDigitChars 10 (decimal n) 0 = n :=
  Nat.ofDigitChars_ten_toDigits

/-- A number below `10 ^ k` prints with at most `k` digits. -/
theorem decimal_length_le {n k : Nat} (hk : 0 < k) (h : n < 10 ^ k) : (decimal n).length ≤ k :=
  (Nat.length_toDigits_le_iff (by decide) hk).mpr h

theorem decimal_injective {m n : Nat} (h : decimal m = decimal n) : m = n := by
  rw [← ofDigitChars_decimal m, h, ofDigitChars_decimal]

theorem toNat_sub_lt_of_isDigit {c : Char} (h : c.isDigit = true) : c.toNat - '0'.toNat < 10 := by
  unfold Char.isDigit at h
  rw [Bool.and_eq_true, decide_eq_true_iff, decide_eq_true_iff] at h
  have hle : c.toNat ≤ '9'.toNat := UInt32.le_iff_toNat_le.mp h.2
  have hzero : '0'.toNat = 48 := rfl
  have hnine : '9'.toNat = 57 := rfl
  omega

/-- A run of digits is below the power of ten with as many zeros. -/
theorem ofDigitChars_lt {ds : Text} (h : ∀ c ∈ ds, c.isDigit = true) :
    Nat.ofDigitChars 10 ds 0 < 10 ^ ds.length := by
  induction ds with
  | nil => decide
  | cons c ds ih =>
    obtain ⟨hc, hds⟩ := List.forall_mem_cons.mp h
    have hdigit := toNat_sub_lt_of_isDigit hc
    have hrest := ih hds
    rw [Nat.ofDigitChars_cons, Nat.ofDigitChars_eq_ofDigitChars_zero, List.length_cons,
      Nat.pow_succ, Nat.mul_zero, Nat.zero_add]
    have := Nat.mul_le_mul_left (10 ^ ds.length) (Nat.le_of_lt_succ hdigit)
    omega

/-- A number and its first and last digits. -/
theorem decimal_split (n k : Nat) :
    n = 10 ^ ((decimal n).drop k).length * Nat.ofDigitChars 10 ((decimal n).take k) 0 +
      Nat.ofDigitChars 10 ((decimal n).drop k) 0 := by
  conv_lhs => rw [← ofDigitChars_decimal n, ← List.take_append_drop k (decimal n)]
  rw [Nat.ofDigitChars_append, Nat.ofDigitChars_eq_ofDigitChars_zero]

/-- A number that lost some of its last digits is smaller, unless nothing is left of it. -/
theorem ofDigitChars_take_decimal {n k : Nat} (hk : k < (decimal n).length)
    (hpos : 0 < Nat.ofDigitChars 10 ((decimal n).take k) 0) :
    Nat.ofDigitChars 10 ((decimal n).take k) 0 < n := by
  have hdrop : 0 < ((decimal n).drop k).length := by rw [List.length_drop]; omega
  have hsplit := decimal_split n k
  have hten : 10 ≤ 10 ^ ((decimal n).drop k).length := Nat.le_self_pow (by omega) 10
  have := Nat.mul_le_mul_right (Nat.ofDigitChars 10 ((decimal n).take k) 0) hten
  omega

/-- The first `k` digits of a longer number have no zero in front. -/
theorem le_ofDigitChars_take_decimal {n k : Nat} (hpos : 0 < k) (hk : k < (decimal n).length) :
    10 ^ (k - 1) ≤ Nat.ofDigitChars 10 ((decimal n).take k) 0 := by
  have hlower : 10 ^ ((decimal n).length - 1) ≤ n := by
    by_contra hlarge
    have := decimal_length_le (n := n) (k := (decimal n).length - 1) (by omega) (by omega)
    omega
  have hsplit := decimal_split n k
  have hlast : Nat.ofDigitChars 10 ((decimal n).drop k) 0 < 10 ^ ((decimal n).drop k).length :=
    ofDigitChars_lt fun c hc => isDigit_of_mem_decimal (List.mem_of_mem_drop hc)
  have hpower : 10 ^ ((decimal n).length - 1) =
      10 ^ ((decimal n).drop k).length * 10 ^ (k - 1) := by
    rw [← Nat.pow_add, List.length_drop]
    congr 1
    omega
  by_contra hsmall
  have := Nat.mul_le_mul_left (10 ^ ((decimal n).drop k).length) (Nat.lt_of_not_le hsmall)
  rw [Nat.mul_succ] at this
  omega

/-- A digit is neither white space nor a sign. -/
theorem not_space_of_isDigit {c : Char} (h : c.isDigit = true) :
    isSpace c = false ∧ c ≠ '-' ∧ c ≠ '+' := by
  refine ⟨?_, ?_, ?_⟩
  · by_contra hs
    simp only [isSpace, Bool.not_eq_false, Bool.or_eq_true, beq_iff_eq] at hs
    rcases hs with ((((rfl | rfl) | rfl) | rfl) | rfl) | rfl <;> exact absurd h (by decide)
  · rintro rfl; exact absurd h (by decide)
  · rintro rfl; exact absurd h (by decide)

/-- Text after a number that cannot be read as part of it. -/
def NoDigit (s : Text) : Prop := ∀ c ∈ s.head?, c.isDigit = false

@[simp] theorem noDigit_nil : NoDigit [] := by simp [NoDigit]

@[simp] theorem noDigit_cons (c : Char) (s : Text) : NoDigit (c :: s) ↔ c.isDigit = false := by
  simp [NoDigit]

/-- Scanning digits in front of a text without one stops exactly there. -/
theorem span_digits {ds rest : Text} (hd : ∀ c ∈ ds, c.isDigit = true) (hr : NoDigit rest) :
    (ds ++ rest).takeWhile Char.isDigit = ds ∧ (ds ++ rest).dropWhile Char.isDigit = rest := by
  induction ds with
  | nil =>
    cases rest with
    | nil => simp
    | cons c s =>
      rw [noDigit_cons] at hr
      simp [hr]
  | cons d ds ih =>
    have hd' := ih fun c hc => hd c (List.mem_cons_of_mem _ hc)
    simp [hd d List.mem_cons_self, hd'.1, hd'.2]

/-- A digit is not taken for a sign. -/
theorem takeSign_digit {d : Char} {s : Text} (hd : d.isDigit = true) :
    takeSign (d :: s) = (false, d :: s) := by
  obtain ⟨-, hm, hp⟩ := not_space_of_isDigit hd
  unfold takeSign
  split
  · rename_i heq; exact absurd (List.cons.inj heq).1 hm
  · rename_i heq; exact absurd (List.cons.inj heq).1 hp
  · rfl

/-- Digits start a number: nothing is skipped and no sign is taken. -/
theorem takeSign_digits {ds rest : Text} (hne : ds ≠ []) (hd : ∀ c ∈ ds, c.isDigit = true) :
    takeSign ((ds ++ rest).dropWhile isSpace) = (false, ds ++ rest) := by
  cases ds with
  | nil => exact absurd rfl hne
  | cons d ds =>
    have hdigit := hd d List.mem_cons_self
    have hdrop : (d :: ds ++ rest).dropWhile isSpace = d :: (ds ++ rest) := by
      simp [(not_space_of_isDigit hdigit).1]
    rw [hdrop]
    exact takeSign_digit hdigit

/-- A run of digits is read to its end. -/
theorem strtou_digits {w : Nat} {ds rest : Text} (hne : ds ≠ []) (hd : ∀ c ∈ ds, c.isDigit = true)
    (hr : NoDigit rest) (hlt : Nat.ofDigitChars 10 ds 0 < 2 ^ w) :
    strtou w (ds ++ rest) = some ⟨Nat.ofDigitChars 10 ds 0, false, rest⟩ := by
  have hspan := span_digits hd hr
  simp only [strtou, takeSign_digits hne hd, hspan.1, hspan.2, hne, if_false, Bool.false_eq_true]
  rw [if_neg (by omega)]

/-- A number in front of which white space and a sign may stand. -/
structure Numeral where
  spaces : Text
  sign : Text
  digits : Text
  isSpace_of_mem : ∀ c ∈ spaces, isSpace c = true
  sign_cases : sign = [] ∨ sign = ['+'] ∨ sign = ['-']
  digits_ne_nil : digits ≠ []
  isDigit_of_mem : ∀ c ∈ digits, c.isDigit = true

namespace Numeral

def text (n : Numeral) : Text := n.spaces ++ (n.sign ++ n.digits)

/-- The value without the sign. -/
def magnitude (n : Numeral) : Nat := Nat.ofDigitChars 10 n.digits 0

/-- The value in `w` bits. -/
def value (n : Numeral) (w : Nat) : Nat :=
  if n.sign = ['-'] then (2 ^ w - n.magnitude) % 2 ^ w else n.magnitude

/-- The sign and the digits do not begin with white space. -/
theorem dropWhile_text (n : Numeral) (rest : Text) :
    (n.text ++ rest).dropWhile isSpace = n.sign ++ (n.digits ++ rest) := by
  have hfirst : (n.sign ++ (n.digits ++ rest)).dropWhile isSpace =
      n.sign ++ (n.digits ++ rest) := by
    rcases n.sign_cases with hsign | hsign | hsign
    · rw [hsign, List.nil_append]
      cases hdigits : n.digits with
      | nil => exact absurd hdigits n.digits_ne_nil
      | cons d ds =>
        have hd := (not_space_of_isDigit (n.isDigit_of_mem d (hdigits ▸ List.mem_cons_self))).1
        simp [hd]
    · rw [hsign]
      rfl
    · rw [hsign]
      rfl
  rw [text, List.append_assoc, List.append_assoc, List.dropWhile_append_of_pos n.isSpace_of_mem,
    hfirst]

theorem takeSign_text (n : Numeral) (rest : Text) :
    takeSign (n.sign ++ (n.digits ++ rest)) = (decide (n.sign = ['-']), n.digits ++ rest) := by
  rcases n.sign_cases with hsign | hsign | hsign
  · rw [hsign, List.nil_append]
    cases hdigits : n.digits with
    | nil => exact absurd hdigits n.digits_ne_nil
    | cons d ds => exact takeSign_digit (n.isDigit_of_mem d (hdigits ▸ List.mem_cons_self))
  · rw [hsign]
    rfl
  · rw [hsign]
    rfl

/-- A run of digits as a number. -/
def ofDigits (digits : Text) (hne : digits ≠ []) (hd : ∀ c ∈ digits, c.isDigit = true) : Numeral :=
  ⟨[], [], digits, by simp, .inl rfl, hne, hd⟩

/-- Nothing stands in front of the digits. -/
def Plain (n : Numeral) : Prop := n.spaces = [] ∧ n.sign = []

theorem Plain.text_eq {n : Numeral} (h : n.Plain) : n.text = n.digits := by
  rw [text, h.1, h.2, List.nil_append, List.nil_append]

theorem Plain.value_eq {n : Numeral} (h : n.Plain) (w : Nat) : n.value w = n.magnitude := by
  simp [value, h.2]

theorem text_ne_nil (n : Numeral) : n.text ≠ [] := by
  have := n.digits_ne_nil
  simp [text, this]

/-- The characters of a number. -/
theorem mem_text {n : Numeral} {c : Char} (h : c ∈ n.text) :
    isSpace c = true ∨ c = '+' ∨ c = '-' ∨ c.isDigit = true := by
  simp only [text, List.mem_append] at h
  rcases h with hspace | hsign | hdigit
  · exact .inl (n.isSpace_of_mem c hspace)
  · rcases n.sign_cases with heq | heq | heq
    · simp [heq] at hsign
    · exact .inr (.inl (by simpa [heq] using hsign))
    · exact .inr (.inr (.inl (by simpa [heq] using hsign)))
  · exact .inr (.inr (.inr (n.isDigit_of_mem c hdigit)))

/-- A number that consists of digits is plain. -/
theorem plain_of_isDigit {n : Numeral} (h : ∀ c ∈ n.text, c.isDigit = true) : n.Plain := by
  constructor
  · apply List.eq_nil_iff_forall_not_mem.mpr
    intro c hc
    have hdigit := h c (by simp [text, hc])
    exact absurd (n.isSpace_of_mem c hc) (by simp [(not_space_of_isDigit hdigit).1])
  · rcases n.sign_cases with heq | heq | heq
    · exact heq
    · exact absurd (h '+' (by simp [text, heq])) (by decide)
    · exact absurd (h '-' (by simp [text, heq])) (by decide)

end Numeral

/-- A number is read to its end. -/
theorem strtou_numeral {w : Nat} (n : Numeral) {rest : Text} (hr : NoDigit rest) :
    strtou w (n.text ++ rest) = some (if 2 ^ w ≤ n.magnitude then ⟨2 ^ w - 1, true, rest⟩
      else ⟨n.value w, false, rest⟩) := by
  have hspan := span_digits n.isDigit_of_mem hr
  simp only [strtou, n.dropWhile_text, n.takeSign_text, hspan.1, hspan.2, n.digits_ne_nil, if_false,
    decide_eq_true_eq]
  show (if 2 ^ w ≤ n.magnitude then _ else _) = _
  by_cases hlarge : 2 ^ w ≤ n.magnitude
  · rw [if_pos hlarge, if_pos hlarge]
  · rw [if_neg hlarge, if_neg hlarge]
    rfl

/-- What is read is a number, and the rest does not go on with it. -/
theorem exists_numeral {w : Nat} {s : Text} {c : Conversion} (h : strtou w s = some c) :
    ∃ n : Numeral, s = n.text ++ c.rest ∧ NoDigit c.rest := by
  have hsign : ∀ t : Text, ∃ sign, (sign = [] ∨ sign = ['+'] ∨ sign = ['-']) ∧
      t = sign ++ (takeSign t).2 := by
    intro t
    unfold takeSign
    split
    · exact ⟨['-'], .inr (.inr rfl), rfl⟩
    · exact ⟨['+'], .inr (.inl rfl), rfl⟩
    · exact ⟨[], .inl rfl, rfl⟩
  obtain ⟨sign, hcases, hbody⟩ := hsign (s.dropWhile isSpace)
  simp only [strtou] at h
  split at h
  · exact nomatch h
  · rename_i hdigits
    have hrest : c.rest = (takeSign (s.dropWhile isSpace)).2.dropWhile Char.isDigit := by
      split at h
      · exact Option.some.inj h ▸ rfl
      · exact Option.some.inj h ▸ rfl
    refine ⟨⟨s.takeWhile isSpace, sign, _, fun d => List.mem_takeWhile_imp, hcases, hdigits,
      fun d => List.mem_takeWhile_imp⟩, ?_, ?_⟩
    · rw [Numeral.text, List.append_assoc, List.append_assoc, hrest,
        List.takeWhile_append_dropWhile, ← hbody, List.takeWhile_append_dropWhile]
    · intro d hd
      have hfirst := List.head?_dropWhile_not Char.isDigit (takeSign (s.dropWhile isSpace)).2
      rw [← hrest, hd] at hfirst
      exact hfirst

/-- What is read without `ERANGE`: a number whose digits fit. -/
theorem strtou_eq_some_iff {w v : Nat} {s rest : Text} :
    strtou w s = some ⟨v, false, rest⟩ ↔
      ∃ n : Numeral, s = n.text ++ rest ∧ NoDigit rest ∧ n.magnitude < 2 ^ w ∧ v = n.value w := by
  constructor
  · intro h
    obtain ⟨n, htext, hrest⟩ := exists_numeral h
    rw [htext, strtou_numeral n hrest] at h
    split at h
    · exact absurd (Option.some.inj h) (by simp)
    · rename_i hfits
      have hvalue := congrArg Conversion.value (Option.some.inj h)
      exact ⟨n, htext, hrest, Nat.not_le.mp hfits, hvalue.symm⟩
  · rintro ⟨n, rfl, hrest, hfits, rfl⟩
    rw [strtou_numeral n hrest, if_neg (Nat.not_le.mpr hfits)]

/-- A printed number that fits reads back, and scanning stops behind it. -/
theorem strtou_decimal {w n : Nat} {rest : Text} (hn : n < 2 ^ w) (hr : NoDigit rest) :
    strtou w (decimal n ++ rest) = some ⟨n, false, rest⟩ := by
  have h := strtou_digits (decimal_ne_nil n) (fun c => isDigit_of_mem_decimal) hr
    (by rwa [ofDigitChars_decimal])
  rwa [ofDigitChars_decimal] at h

/-- A printed number that fits a `long` reads back. -/
theorem strtol_decimal {n : Nat} {rest : Text} (hn : n < 2 ^ 63) (hr : NoDigit rest) :
    strtol (decimal n ++ rest) = some ((n : Int), false, rest) := by
  have hd : ∀ c ∈ decimal n, c.isDigit = true := fun c => isDigit_of_mem_decimal
  have hspan := span_digits hd hr
  simp only [strtol, takeSign_digits (decimal_ne_nil n) hd, hspan.1, hspan.2,
    decimal_ne_nil, ofDigitChars_decimal, if_false, Bool.false_eq_true]
  rw [if_neg (by omega)]

/-- Values that `strtou` reports without `ERANGE` fit. -/
theorem strtou_lt {w : Nat} {s : Text} {c : Conversion} (h : strtou w s = some c) :
    c.value < 2 ^ w := by
  have hpos : 0 < 2 ^ w := Nat.two_pow_pos w
  simp only [strtou] at h
  split at h
  · exact nomatch h
  · split at h
    · cases h
      show 2 ^ w - 1 < 2 ^ w
      omega
    · cases h
      show (if _ then _ else _) < 2 ^ w
      split
      · exact Nat.mod_lt _ hpos
      · omega

/-! ## Fixed-size buffers -/

/-- The text left in a buffer of `size` bytes by `snprintf`, which keeps room for the
    terminating NUL and drops the rest. -/
def snprintf (size : Nat) (text : Text) : Text := text.take (size - 1)

theorem snprintf_of_fits {size : Nat} {text : Text} (h : text.length < size) :
    snprintf size text = text := by
  simp only [snprintf]
  exact List.take_of_length_le (by omega)

end CString
