import MiniContainer.ForStd.CString

/-!
# JSON texts

A reader of RFC 8259 texts that accepts nothing but the grammar. A text is well-formed when
`parse` returns a value; the members of an object are kept in order, with repetitions.

The reader recurses on fuel. `parse` starts with more fuel than the text has characters, and
every level of the recursion consumes one at least.

* `Reads text v`: the reader finds `v` in `text`, whatever follows
* `readString_eq_self`: a text between quotes that reads as itself is plain
-/

namespace JsonText

open CString (Text decimal)

/-- A document as a reader sees it. -/
inductive Json where
  | null
  | bool (b : Bool)
  /-- `mantissa * 10 ^ exponent` -/
  | num (mantissa exponent : Int)
  | str (s : Text)
  | arr (items : List Json)
  | obj (members : List (Text × Json))

/-! ## The reader -/

def isSpace (c : Char) : Bool := c = ' ' || c = '\t' || c = '\n' || c = '\r'

def skipSpace (s : Text) : Text := s.dropWhile isSpace

/-- The text behind `c`, which is the next character but for white space. -/
def expect (c : Char) (s : Text) : Option Text :=
  match skipSpace s with
  | [] => none
  | d :: t => if d = c then some t else none

def hexValue (c : Char) : Option Nat :=
  if c.isDigit then some (c.toNat - 48)
  else if 'a' ≤ c ∧ c ≤ 'f' then some (c.toNat - 87)
  else if 'A' ≤ c ∧ c ≤ 'F' then some (c.toNat - 55)
  else none

def readHex4 : Text → Option (Nat × Text)
  | a :: b :: c :: d :: s => do
    some ((← hexValue a) * 4096 + (← hexValue b) * 256 + (← hexValue c) * 16 + (← hexValue d), s)
  | _ => none

/-- The characters that may stand behind a backslash, `u` apart. -/
def escapes : List (Char × Char) :=
  [('"', '"'), ('\\', '\\'), ('/', '/'), ('b', '\x08'), ('f', '\x0c'), ('n', '\n'), ('r', '\r'),
    ('t', '\t')]

/-- What a surrogate without its other half stands for. -/
def replacement : Char := '\ufffd'

/-- The character of a code unit, with the second half of a surrogate pair if it follows. -/
def readUnit (unit : Nat) (s : Text) : Char × Text :=
  if 0xd800 ≤ unit ∧ unit < 0xdc00 then
    match s with
    | '\\' :: 'u' :: t =>
      match readHex4 t with
      | some (low, u) =>
        if 0xdc00 ≤ low ∧ low < 0xe000 then
          (Char.ofNat (0x10000 + (unit - 0xd800) * 1024 + (low - 0xdc00)), u)
        else (replacement, s)
      | none => (replacement, s)
    | _ => (replacement, s)
  else if 0xdc00 ≤ unit ∧ unit < 0xe000 then (replacement, s)
  else (Char.ofNat unit, s)

/-- An escape sequence, behind its backslash. -/
def readEscape : Text → Option (Char × Text)
  | [] => none
  | c :: s =>
    if c = 'u' then (readHex4 s).map fun (unit, t) => readUnit unit t
    else (escapes.lookup c).map fun d => (d, s)

/-- A string, behind its first quote: the content, and the text behind the last quote. -/
def readString : Nat → Text → Option (Text × Text)
  | 0, _ => none
  | _ + 1, [] => none
  | n + 1, c :: s =>
    if c = '"' then some ([], s)
    else if c = '\\' then
      (readEscape s).bind fun (d, t) => (readString n t).map fun (r, u) => (d :: r, u)
    else if c.toNat < 0x20 then none
    else (readString n s).map fun (r, u) => (c :: r, u)

/-- The digits behind a decimal point, if there is one. -/
def readFraction : Text → Option (Text × Text)
  | [] => some ([], [])
  | c :: s =>
    if c = '.' then
      if s.takeWhile Char.isDigit = [] then none
      else some (s.takeWhile Char.isDigit, s.dropWhile Char.isDigit)
    else some ([], c :: s)

/-- The exponent, if there is one. -/
def readExponent : Text → Option (Int × Text)
  | [] => some (0, [])
  | c :: s =>
    if c = 'e' ∨ c = 'E' then
      let (sign, t) : Int × Text := match s with
        | [] => (1, [])
        | d :: t => if d = '-' then (-1, t) else if d = '+' then (1, t) else (1, d :: t)
      if t.takeWhile Char.isDigit = [] then none
      else some (sign * Nat.ofDigitChars 10 (t.takeWhile Char.isDigit) 0, t.dropWhile Char.isDigit)
    else some (0, c :: s)

/-- A number without its sign. -/
def readUnsigned (s : Text) : Option (Nat × Int × Text) :=
  let int := s.takeWhile Char.isDigit
  -- no digit, or a zero that is not the only one
  if int = [] ∨ int.head? = some '0' ∧ int ≠ ['0'] then none
  else
    (readFraction (s.dropWhile Char.isDigit)).bind fun (fraction, t) =>
      (readExponent t).map fun (exponent, u) =>
        (Nat.ofDigitChars 10 (int ++ fraction) 0, exponent - fraction.length, u)

def readNumber : Text → Option (Json × Text)
  | [] => none
  | c :: s =>
    if c = '-' then (readUnsigned s).map fun (m, e, t) => (.num (-m) e, t)
    else (readUnsigned (c :: s)).map fun (m, e, t) => (.num m e, t)

/-- The names that stand for themselves. -/
def readName (s : Text) : Option (Json × Text) :=
  if "null".toList.isPrefixOf s then some (.null, s.drop 4)
  else if "true".toList.isPrefixOf s then some (.bool true, s.drop 4)
  else if "false".toList.isPrefixOf s then some (.bool false, s.drop 5)
  else none

mutual

/-- A value, with fuel for the depth and the length. -/
def readValue : Nat → Text → Option (Json × Text)
  | 0, _ => none
  | n + 1, s =>
    match skipSpace s with
    | [] => none
    | c :: t =>
      if c = '\x7b' then
        match expect '\x7d' t with
        | some u => some (.obj [], u)
        | none => (readMembers n t).map fun (members, u) => (.obj members, u)
      else if c = '[' then
        match expect ']' t with
        | some u => some (.arr [], u)
        | none => (readItems n t).map fun (items, u) => (.arr items, u)
      else if c = '"' then (readString n t).map fun (r, u) => (.str r, u)
      else (readName (c :: t)).or (readNumber (c :: t))

/-- The members of an object, one at least, and its closing brace. -/
def readMembers : Nat → Text → Option (List (Text × Json) × Text)
  | 0, _ => none
  | n + 1, s =>
    (expect '"' s).bind fun t =>
    (readString n t).bind fun (key, u) =>
    (expect ':' u).bind fun v =>
    (readValue n v).bind fun (value, w) =>
      match expect ',' w with
      | some x => (readMembers n x).map fun (members, y) => ((key, value) :: members, y)
      | none => (expect '\x7d' w).map fun y => ([(key, value)], y)

/-- The items of an array, one at least, and its closing bracket. -/
def readItems : Nat → Text → Option (List Json × Text)
  | 0, _ => none
  | n + 1, s =>
    (readValue n s).bind fun (value, t) =>
      match expect ',' t with
      | some u => (readItems n u).map fun (items, v) => (value :: items, v)
      | none => (expect ']' t).map fun u => ([value], u)

end

/-- The value of a whole text. -/
def parse (s : Text) : Option Json :=
  (readValue (s.length + 1) s).bind fun (value, t) => if skipSpace t = [] then some value else none

/-- The text is a JSON document. -/
def WellFormed (s : Text) : Prop := (parse s).isSome = true

instance (s : Text) : Decidable (WellFormed s) := inferInstanceAs (Decidable (_ = true))

/-! ## Strings -/

/-- A text that stands for itself between quotes. -/
def Plain (s : Text) : Prop := ∀ c ∈ s, c ≠ '"' ∧ c ≠ '\\' ∧ 0x20 ≤ c.toNat

instance (s : Text) : Decidable (Plain s) := List.decidableBAll _ s

theorem plain_nil : Plain [] := fun _ h => nomatch h

theorem plain_cons {c : Char} {s : Text} :
    Plain (c :: s) ↔ (c ≠ '"' ∧ c ≠ '\\' ∧ 0x20 ≤ c.toNat) ∧ Plain s := by
  simp [Plain]

/-- The reader takes a plain text as it is, if it has the fuel. -/
theorem readString_plain {s : Text} (h : Plain s) (n : Nat) (t : Text) :
    readString n (s ++ '"' :: t) = if s.length < n then some (s, t) else none := by
  induction s generalizing n with
  | nil => cases n <;> simp [readString]
  | cons c s ih =>
    obtain ⟨⟨hquote, hbackslash, hcontrol⟩, hs⟩ := plain_cons.mp h
    cases n with
    | zero => rfl
    | succ n =>
      rw [List.cons_append, readString, if_neg hquote, if_neg hbackslash, if_neg (by omega), ih hs,
        List.length_cons]
      by_cases hn : s.length < n
      · rw [if_pos hn, if_pos (by omega), Option.map_some]
      · rw [if_neg hn, if_neg (by omega), Option.map_none]

theorem readHex4_used {s t : Text} {unit : Nat} (h : readHex4 s = some (unit, t)) :
    ∃ used, s = used ++ t ∧ '"' ∉ used := by
  have hhex {c : Char} {v : Nat} (hc : hexValue c = some v) : c ≠ '"' := by
    rintro rfl
    exact nomatch hc.symm.trans (show hexValue '"' = none by decide)
  match s, h with
  | a :: b :: c :: d :: s, h =>
    simp only [readHex4, bind, Option.bind_eq_some_iff, Option.some.injEq, Prod.mk.injEq] at h
    obtain ⟨_, ha, _, hb, _, hc, _, hd, -, rfl⟩ := h
    refine ⟨[a, b, c, d], rfl, ?_⟩
    simp [Ne.symm (hhex ha), Ne.symm (hhex hb), Ne.symm (hhex hc), Ne.symm (hhex hd)]

theorem readUnit_used (unit : Nat) (s : Text) : ∃ used, s = used ++ (readUnit unit s).2 ∧
    '"' ∉ used := by
  unfold readUnit
  split
  · split
    · split
      · rename_i hread
        split
        · obtain ⟨used, rfl, hused⟩ := readHex4_used hread
          exact ⟨'\\' :: 'u' :: used, rfl, by simpa using hused⟩
        · exact ⟨[], rfl, by simp⟩
      · exact ⟨[], rfl, by simp⟩
    · exact ⟨[], rfl, by simp⟩
  · split <;> exact ⟨[], rfl, by simp⟩

/-- A quote takes part in no escape sequence but its own. -/
theorem readEscape_used {s t : Text} {d : Char} (h : readEscape s = some (d, t)) :
    ∃ used, s = used ++ t ∧ used ≠ [] ∧ (used = ['"'] ∧ d = '"' ∨ '"' ∉ used) := by
  match s, h with
  | c :: s, h =>
    rw [readEscape] at h
    split at h
    · rename_i hu
      obtain ⟨⟨unit, u⟩, hread, heq⟩ := Option.map_eq_some_iff.mp h
      obtain ⟨used, rfl, hused⟩ := readHex4_used hread
      obtain ⟨used', hu', hused'⟩ := readUnit_used unit u
      rw [show readUnit unit u = (d, t) from heq] at hu'
      refine ⟨c :: (used ++ used'), by simp [← hu'], by simp, .inr ?_⟩
      simp [hu, hused, hused']
    · obtain ⟨d', hlookup, heq⟩ := Option.map_eq_some_iff.mp h
      obtain ⟨rfl, rfl⟩ := Prod.mk.inj heq
      refine ⟨[c], rfl, by simp, ?_⟩
      by_cases hquote : c = '"'
      · subst hquote
        exact .inl ⟨rfl, (Option.some.inj hlookup).symm⟩
      · exact .inr (by simpa using Ne.symm hquote)

/-- An escape sequence that does not go beyond a text. -/
theorem eq_append_of_not_mem {c : Char} {a t used u : Text} (h : a ++ c :: t = used ++ u)
    (hused : c ∉ used) : ∃ b, a = used ++ b ∧ u = b ++ c :: t := by
  rcases List.append_eq_append_iff.mp h with ⟨b, rfl, hb⟩ | ⟨b, rfl, hb⟩
  · cases b with
    | nil => exact ⟨[], by simp, by simpa using hb.symm⟩
    | cons d b =>
      obtain ⟨rfl, -⟩ := List.cons.inj hb
      exact absurd (by simp) hused
  · exact ⟨b, rfl, hb⟩

/-- A reader that has fallen behind what it should return does not catch up: every character
    it reads is due again, and the closing quote comes too early. -/
theorem readString_behind {n : Nat} {a b t r : Text} (hb : b ≠ []) :
    readString n (a ++ '"' :: ',' :: '"' :: t) ≠ some (b ++ a, r) := by
  induction n generalizing a b with
  | zero => exact nofun
  | succ n ih =>
    intro h
    obtain ⟨b₀, b, rfl⟩ := List.exists_cons_of_ne_nil hb
    cases a with
    | nil => simp [readString] at h
    | cons c a =>
      rw [List.cons_append, readString] at h
      split at h
      · simp at h
      split at h
      · rename_i hc
        -- an escape sequence consumes more than it returns
        obtain ⟨⟨d, u⟩, hescape, h⟩ := Option.bind_eq_some_iff.mp h
        obtain ⟨⟨r', v⟩, hread, heq⟩ := Option.map_eq_some_iff.mp h
        have heq' : d :: r' = b₀ :: (b ++ c :: a) := (Prod.mk.inj heq).1
        obtain ⟨rfl, rfl⟩ := List.cons.inj heq'
        obtain ⟨used, hused, -, ⟨rfl, -⟩ | hquote⟩ := readEscape_used hescape
        · cases a with
          | nil =>
            -- the backslash hides the closing quote, so the next one closes
            obtain rfl : ',' :: '"' :: t = u := (List.cons.inj hused).2
            match n, hread with
            | n + 2, hread =>
              have hcomma : readString (n + 2) (',' :: '"' :: t) = some ([','], t) := by
                simp [readString]
              rw [hcomma] at hread
              have := congrArg List.getLast? (Prod.mk.inj (Option.some.inj hread)).1
              simp [hc] at this
          | cons e a =>
            obtain ⟨-, rfl⟩ := List.cons.inj hused
            refine ih (b := b ++ [c, e]) (by simp) (hread.trans ?_)
            simp [(Prod.mk.inj heq).2]
        · obtain ⟨a', rfl, rfl⟩ := eq_append_of_not_mem hused hquote
          refine ih (b := b ++ c :: used) (by simp) (hread.trans ?_)
          simp [(Prod.mk.inj heq).2]
      split at h
      · exact nomatch h
      · obtain ⟨⟨r', v⟩, hread, heq⟩ := Option.map_eq_some_iff.mp h
        have heq' : c :: r' = b₀ :: (b ++ c :: a) := (Prod.mk.inj heq).1
        obtain ⟨rfl, rfl⟩ := List.cons.inj heq'
        refine ih (b := b ++ [c]) (by simp) (hread.trans ?_)
        simp [(Prod.mk.inj heq).2]

/-- What reads as itself in front of a further member is plain. -/
theorem readString_eq_self {n : Nat} {s t r : Text}
    (h : readString n (s ++ '"' :: ',' :: '"' :: t) = some (s, r)) :
    Plain s ∧ r = ',' :: '"' :: t := by
  induction n generalizing s with
  | zero => exact nomatch h
  | succ n ih =>
    cases s with
    | nil =>
      simp only [List.nil_append, readString, if_true, Option.some.injEq, Prod.mk.injEq] at h
      exact ⟨plain_nil, h.2.symm⟩
    | cons c s =>
      rw [List.cons_append, readString] at h
      split at h
      · simp at h
      rename_i hquote
      split at h
      · rename_i hc
        obtain ⟨⟨d, u⟩, hescape, h⟩ := Option.bind_eq_some_iff.mp h
        obtain ⟨⟨r', v⟩, hread, heq⟩ := Option.map_eq_some_iff.mp h
        have heq' : d :: r' = c :: s := (Prod.mk.inj heq).1
        obtain ⟨rfl, rfl⟩ := List.cons.inj heq'
        obtain ⟨used, hused, hne, ⟨-, hd⟩ | hmem⟩ := readEscape_used hescape
        · exact absurd hd hquote
        · obtain ⟨a, rfl, rfl⟩ := eq_append_of_not_mem hused hmem
          exact absurd hread (readString_behind hne)
      rename_i hbackslash
      split at h
      · exact nomatch h
      · rename_i hcontrol
        obtain ⟨⟨r', v⟩, hread, heq⟩ := Option.map_eq_some_iff.mp h
        have heq' : c :: r' = c :: s := (Prod.mk.inj heq).1
        obtain ⟨-, rfl⟩ := List.cons.inj heq'
        obtain rfl : v = r := (Prod.mk.inj heq).2
        obtain ⟨hs, rfl⟩ := ih hread
        exact ⟨plain_cons.mpr ⟨⟨hquote, hbackslash, by omega⟩, hs⟩, rfl⟩

/-! ## Numbers -/

/-- What may follow a value: the end of the text, or the end of a member, item or line. -/
def Delimited (s : Text) : Prop :=
  ∀ c ∈ s.head?, c = ',' ∨ c = '\x7d' ∨ c = ']' ∨ c = '\n'

theorem Delimited.noDigit {s : Text} (h : Delimited s) : CString.NoDigit s := by
  intro c hc
  rcases h c hc with rfl | rfl | rfl | rfl <;> decide

theorem ofDigitChars_lt {ds : Text} (h : ∀ c ∈ ds, c.isDigit = true) (m : Nat) :
    Nat.ofDigitChars 10 ds m < (m + 1) * 10 ^ ds.length := by
  induction ds generalizing m with
  | nil => simp [Nat.ofDigitChars]
  | cons c ds ih =>
    have hc : c.toNat - '0'.toNat < 10 := by
      have := h c List.mem_cons_self
      simp only [Char.isDigit, Bool.and_eq_true, decide_eq_true_eq] at this
      have hle : c.toNat ≤ 57 := this.2
      have hzero : '0'.toNat = 48 := rfl
      omega
    calc Nat.ofDigitChars 10 (c :: ds) m
        = Nat.ofDigitChars 10 ds (10 * m + (c.toNat - '0'.toNat)) := rfl
      _ < (10 * m + (c.toNat - '0'.toNat) + 1) * 10 ^ ds.length :=
        ih (fun d hd => h d (List.mem_cons_of_mem _ hd)) _
      _ ≤ ((m + 1) * 10) * 10 ^ ds.length := Nat.mul_le_mul_right _ (by omega)
      _ = (m + 1) * 10 ^ (c :: ds).length := by
        rw [List.length_cons, Nat.pow_succ', Nat.mul_assoc]

/-- A number that is printed with more than one digit does not start with a zero. -/
theorem decimal_no_leading_zero {n : Nat} (h : (decimal n).head? = some '0') :
    decimal n = ['0'] := by
  obtain ⟨ds, hds⟩ : ∃ ds, decimal n = '0' :: ds := by
    cases hn : decimal n with
    | nil => exact absurd hn (CString.decimal_ne_nil n)
    | cons c ds =>
      rw [hn] at h
      exact ⟨ds, by rw [Option.some.inj h]⟩
  cases ds with
  | nil => exact hds
  | cons d ds =>
    -- the other digits would be enough for the number
    exfalso
    have hvalue : Nat.ofDigitChars 10 (d :: ds) 0 = n := by
      rw [← CString.ofDigitChars_decimal n, hds]
      rfl
    have hdigits : ∀ c ∈ d :: ds, c.isDigit = true := fun c hc =>
      CString.isDigit_of_mem_decimal (hds ▸ List.mem_cons_of_mem _ hc)
    have hlt := ofDigitChars_lt hdigits 0
    rw [hvalue, Nat.zero_add, Nat.one_mul] at hlt
    have hlength := CString.decimal_length_le (List.length_pos_of_ne_nil (by simp)) hlt
    rw [hds, List.length_cons] at hlength
    omega

theorem readFraction_delimited {s : Text} (h : Delimited s) : readFraction s = some ([], s) := by
  cases s with
  | nil => rfl
  | cons c s =>
    have hc : c ≠ '.' := by rcases h c rfl with rfl | rfl | rfl | rfl <;> decide
    rw [readFraction, if_neg hc]

theorem readExponent_delimited {s : Text} (h : Delimited s) : readExponent s = some (0, s) := by
  cases s with
  | nil => rfl
  | cons c s =>
    have hc : ¬(c = 'e' ∨ c = 'E') := by rcases h c rfl with rfl | rfl | rfl | rfl <;> decide
    simp only [readExponent, if_neg hc]

theorem readNumber_decimal (n : Nat) {rest : Text} (h : Delimited rest) :
    readNumber (decimal n ++ rest) = some (.num n 0, rest) := by
  obtain ⟨htake, hdrop⟩ := CString.span_digits
    (fun _ => CString.isDigit_of_mem_decimal (n := n)) h.noDigit
  have hunsigned : readUnsigned (decimal n ++ rest) = some (n, 0, rest) := by
    simp only [readUnsigned, htake, hdrop]
    rw [if_neg, readFraction_delimited h]
    · simp [readExponent_delimited h]
    · rintro (hnil | ⟨hzero, hne⟩)
      · exact CString.decimal_ne_nil n hnil
      · exact hne (decimal_no_leading_zero hzero)
  cases hn : decimal n with
  | nil => exact absurd hn (CString.decimal_ne_nil n)
  | cons c ds =>
    have hc := (CString.not_space_of_isDigit
      (CString.isDigit_of_mem_decimal (n := n) (by rw [hn]; exact List.mem_cons_self))).2.1
    rw [hn] at hunsigned
    rw [List.cons_append, readNumber, if_neg hc, ← List.cons_append, hunsigned]
    rfl

/-! ## Values -/

/-- The reader finds the value in the text, whatever follows it. -/
def Reads (text : Text) (v : Json) : Prop :=
  ∀ n rest, text.length < n → Delimited rest → readValue n (text ++ rest) = some (v, rest)

/-- The reader finds no value at the start of the text. -/
def Fails (text : Text) : Prop :=
  ∀ n rest, text.length < n → readValue n (text ++ rest) = none

/-- A character that starts a value or separates two of them. -/
theorem skipSpace_cons {c : Char} (h : isSpace c = false) (s : Text) :
    skipSpace (c :: s) = c :: s := by
  simp [skipSpace, h]

theorem expect_self {c : Char} (h : isSpace c = false) (s : Text) : expect c (c :: s) = some s := by
  simp [expect, skipSpace_cons h]

theorem expect_other {c d : Char} (h : isSpace d = false) (hne : d ≠ c) (s : Text) :
    expect c (d :: s) = none := by
  simp [expect, skipSpace_cons h, hne]

def quoted (s : Text) : Text := '"' :: s ++ ['"']

theorem readValue_quote (n : Nat) (s : Text) :
    readValue (n + 1) ('"' :: s) = (readString n s).map fun (r, u) => (.str r, u) := by
  rw [readValue, skipSpace_cons rfl]
  rfl

theorem reads_quoted {s : Text} (h : Plain s) : Reads (quoted s) (.str s) := by
  intro n rest hn _
  obtain ⟨n, rfl⟩ := Nat.exists_eq_succ_of_ne_zero (by omega : n ≠ 0)
  have hlength : s.length < n := by
    simp only [quoted, List.length_append, List.length_cons, List.length_nil] at hn
    omega
  rw [quoted, List.cons_append, List.cons_append, List.append_assoc, Nat.succ_eq_add_one,
    readValue_quote]
  rw [List.singleton_append, readString_plain h, if_pos hlength]
  rfl

theorem reads_decimal (m : Nat) : Reads (decimal m) (.num m 0) := by
  intro n rest hn hrest
  obtain ⟨n, rfl⟩ := Nat.exists_eq_succ_of_ne_zero (by omega : n ≠ 0)
  rw [← readNumber_decimal m hrest]
  cases hm : decimal m with
  | nil => exact absurd hm (CString.decimal_ne_nil m)
  | cons c ds =>
    have hdigit : c.isDigit = true :=
      CString.isDigit_of_mem_decimal (n := m) (by rw [hm]; exact List.mem_cons_self)
    have hne (d : Char) (hd : d.isDigit = false) : c ≠ d := by
      rintro rfl
      exact Bool.false_ne_true (hd.symm.trans hdigit)
    have hspace : isSpace c = false := by
      simp [isSpace, hne ' ' rfl, hne '\t' rfl, hne '\n' rfl, hne '\r' rfl]
    have hname : readName (c :: (ds ++ rest)) = none := by
      simp [readName, Ne.symm (hne 'n' rfl), Ne.symm (hne 't' rfl), Ne.symm (hne 'f' rfl)]
    rw [List.cons_append, Nat.succ_eq_add_one, readValue, skipSpace_cons hspace]
    simp [hne '\x7b' rfl, hne '[' rfl, hne '"' rfl, hname]

/-! ## Objects -/

/-- Texts with commas between them. -/
def commaSeparated : List Text → Text
  | [] => []
  | [t] => t
  | t :: u :: ts => t ++ ',' :: commaSeparated (u :: ts)

/-- A member, as its key and the text of its value. -/
def memberText (m : Text × Text) : Text := quoted m.1 ++ ':' :: m.2

def membersText (ms : List (Text × Text)) : Text := commaSeparated (ms.map memberText)

def objectText (ms : List (Text × Text)) : Text := '\x7b' :: membersText ms ++ ['\x7d']

/-- The reader up to the value of a member. -/
theorem readMembers_member {key : Text} (h : Plain key) (n : Nat) (t : Text) :
    readMembers (n + 1) (quoted key ++ ':' :: t) =
      if key.length < n then
        (readValue n t).bind fun (value, u) =>
          match expect ',' u with
          | some v => (readMembers n v).map fun (members, w) => ((key, value) :: members, w)
          | none => (expect '\x7d' u).map fun w => ([(key, value)], w)
      else none := by
  rw [quoted, List.cons_append, List.cons_append, List.append_assoc, readMembers, expect_self rfl,
    Option.bind_some, List.singleton_append, readString_plain h]
  split
  · simp only [Option.bind_some, expect_self (c := ':') rfl]
  · rfl

theorem length_memberText (key text : Text) :
    (memberText (key, text)).length = key.length + text.length + 3 := by
  simp [memberText, quoted]
  omega

theorem membersText_single (m : Text × Text) : membersText [m] = memberText m := rfl

theorem membersText_cons (m m' : Text × Text) (ms : List (Text × Text)) :
    membersText (m :: m' :: ms) = memberText m ++ ',' :: membersText (m' :: ms) := rfl

/-- The texts of the members read as the members. -/
inductive MembersRead : List (Text × Text) → List (Text × Json) → Prop where
  | single {key text : Text} {v : Json} :
      Plain key → Reads text v → MembersRead [(key, text)] [(key, v)]
  | cons {key text : Text} {v : Json} {m : Text × Text} {ms : List (Text × Text)}
      {vs : List (Text × Json)} : Plain key → Reads text v → MembersRead (m :: ms) vs →
      MembersRead ((key, text) :: m :: ms) ((key, v) :: vs)

theorem delimited_brace (t : Text) : Delimited ('\x7d' :: t) := by simp [Delimited]

theorem delimited_comma (t : Text) : Delimited (',' :: t) := by simp [Delimited]

theorem MembersRead.readMembers {ms : List (Text × Text)} {vs : List (Text × Json)}
    (h : MembersRead ms vs) {n : Nat} (hn : (membersText ms).length < n) (rest : Text) :
    readMembers n (membersText ms ++ '\x7d' :: rest) = some (vs, rest) := by
  induction h generalizing n with
  | @single key text v hkey htext =>
    rw [membersText_single, length_memberText] at hn
    obtain ⟨n, rfl⟩ := Nat.exists_eq_succ_of_ne_zero (by omega : n ≠ 0)
    rw [membersText_single, memberText, List.append_assoc, List.cons_append, Nat.succ_eq_add_one,
      readMembers_member hkey, if_pos (by omega), htext n _ (by omega) (delimited_brace rest),
      Option.bind_some]
    simp [expect_other (c := ',') (d := '\x7d') rfl (by decide), expect_self (c := '\x7d') rfl]
  | @cons key text v m ms vs hkey htext _ ih =>
    rw [membersText_cons, List.length_append, length_memberText, List.length_cons] at hn
    obtain ⟨n, rfl⟩ := Nat.exists_eq_succ_of_ne_zero (by omega : n ≠ 0)
    rw [membersText_cons, memberText, List.append_assoc, List.append_assoc, List.cons_append,
      List.cons_append, Nat.succ_eq_add_one, readMembers_member hkey, if_pos (by omega),
      htext n _ (by omega) (delimited_comma _), Option.bind_some]
    simp [expect_self (c := ',') rfl, ih (by omega : _ < n)]

theorem readValue_object (n : Nat) (t : Text) :
    readValue (n + 1) ('\x7b' :: '"' :: t) =
      (readMembers n ('"' :: t)).map fun (members, u) => (.obj members, u) := by
  rw [readValue, skipSpace_cons rfl]
  simp [expect_other (c := '\x7d') (d := '"') rfl (by decide)]

/-- The text of a member starts with a quote. -/
theorem membersText_eq_quote {ms : List (Text × Text)} (h : ms ≠ []) :
    ∃ t, membersText ms = '"' :: t := by
  match ms, h with
  | [m], _ => exact ⟨_, rfl⟩
  | m :: m' :: ms, _ => exact ⟨_, rfl⟩

theorem readValue_objectText {ms : List (Text × Text)} (h : ms ≠ []) (n : Nat) (rest : Text) :
    readValue (n + 1) (objectText ms ++ rest) =
      (readMembers n (membersText ms ++ '\x7d' :: rest)).map fun (members, u) =>
        (.obj members, u) := by
  obtain ⟨t, ht⟩ := membersText_eq_quote h
  rw [objectText, List.cons_append, List.cons_append, List.append_assoc, List.singleton_append, ht,
    List.cons_append, readValue_object]

theorem length_objectText (ms : List (Text × Text)) :
    (objectText ms).length = (membersText ms).length + 2 := by
  simp [objectText]

/-- An object whose members read reads. -/
theorem reads_object {ms : List (Text × Text)} {vs : List (Text × Json)} (h : MembersRead ms vs) :
    Reads (objectText ms) (.obj vs) := by
  intro n rest hn _
  obtain ⟨n, rfl⟩ := Nat.exists_eq_succ_of_ne_zero (by omega : n ≠ 0)
  rw [length_objectText] at hn
  rw [Nat.succ_eq_add_one, readValue_objectText (by cases h <;> simp),
    h.readMembers (by omega) rest]
  rfl

/-- The value of some member is not read, and those before it are. -/
inductive MembersFail : List (Text × Text) → Prop where
  | here {key text : Text} {ms : List (Text × Text)} :
      Plain key → Fails text → MembersFail ((key, text) :: ms)
  | there {key text : Text} {v : Json} {ms : List (Text × Text)} :
      Plain key → Reads text v → MembersFail ms → MembersFail ((key, text) :: ms)

theorem MembersFail.readMembers {ms : List (Text × Text)} (h : MembersFail ms) {n : Nat}
    (hn : (membersText ms).length < n) (rest : Text) :
    readMembers n (membersText ms ++ rest) = none := by
  induction h generalizing n with
  | @here key text ms hkey htext =>
    -- whatever follows the value
    obtain ⟨more, hmore⟩ : ∃ more, membersText ((key, text) :: ms) =
        memberText (key, text) ++ more := by
      cases ms with
      | nil => exact ⟨[], by rw [membersText_single, List.append_nil]⟩
      | cons m ms => exact ⟨_, rfl⟩
    rw [hmore, List.length_append, length_memberText] at hn
    obtain ⟨n, rfl⟩ := Nat.exists_eq_succ_of_ne_zero (by omega : n ≠ 0)
    rw [hmore, memberText, List.append_assoc, List.append_assoc, List.cons_append,
      Nat.succ_eq_add_one, readMembers_member hkey, if_pos (by omega), htext n _ (by omega)]
    rfl
  | @there key text v ms hkey htext hms ih =>
    cases ms with
    | nil => exact nomatch hms
    | cons m ms =>
      rw [membersText_cons, List.length_append, length_memberText, List.length_cons] at hn
      obtain ⟨n, rfl⟩ := Nat.exists_eq_succ_of_ne_zero (by omega : n ≠ 0)
      rw [membersText_cons, memberText, List.append_assoc, List.append_assoc, List.cons_append,
        List.cons_append, Nat.succ_eq_add_one, readMembers_member hkey, if_pos (by omega),
        htext n _ (by omega) (delimited_comma _), Option.bind_some]
      simp [expect_self (c := ',') rfl, ih (by omega : _ < n)]

/-- A member that does not read spoils its object. -/
theorem fails_object {ms : List (Text × Text)} (h : MembersFail ms) : Fails (objectText ms) := by
  intro n rest hn
  obtain ⟨n, rfl⟩ := Nat.exists_eq_succ_of_ne_zero (by omega : n ≠ 0)
  rw [length_objectText] at hn
  rw [Nat.succ_eq_add_one, readValue_objectText (by cases h <;> simp),
    h.readMembers (by omega) ('\x7d' :: rest)]
  rfl

/-- The first member that is read has the value that is found behind its key. -/
theorem readMembers_first {key text rest u : Text} {n : Nat} {ms : List (Text × Json)}
    (hkey : Plain key) (h : readMembers (n + 1) (memberText (key, text) ++ rest) = some (ms, u)) :
    ∃ v ms' r, ms = (key, v) :: ms' ∧ readValue n (text ++ rest) = some (v, r) := by
  rw [memberText, List.append_assoc, List.cons_append, readMembers_member hkey] at h
  split at h
  · obtain ⟨⟨v, r⟩, hread, h⟩ := Option.bind_eq_some_iff.mp h
    cases hcomma : expect ',' r with
    | none =>
      simp only [hcomma] at h
      obtain ⟨w, -, heq⟩ := Option.map_eq_some_iff.mp h
      exact ⟨v, [], r, (Prod.mk.inj heq).1.symm, hread⟩
    | some t =>
      simp only [hcomma] at h
      obtain ⟨⟨ms', w⟩, -, heq⟩ := Option.map_eq_some_iff.mp h
      exact ⟨v, ms', r, (Prod.mk.inj heq).1.symm, hread⟩
  · exact nomatch h

/-- A member whose value is a text between quotes, in front of a further member. If the value
    is read as the text, the text is plain and the reader goes on behind it. -/
theorem readMembers_quoted {key s rest u : Text} {m : Text × Text} {ms : List (Text × Text)}
    {n : Nat} {vs : List (Text × Json)} (hkey : Plain key)
    (h : readMembers n (membersText ((key, quoted s) :: m :: ms) ++ rest) = some (vs, u)) :
    ∃ s' vs', vs = (key, .str s') :: vs' ∧
      (s' = s →
        Plain s ∧ ∃ n', readMembers n' (membersText (m :: ms) ++ rest) = some (vs', u)) := by
  obtain ⟨t, ht⟩ : ∃ t, membersText (m :: ms) ++ rest = '"' :: t := by
    obtain ⟨t, ht⟩ := membersText_eq_quote (List.cons_ne_nil m ms)
    exact ⟨t ++ rest, by rw [ht, List.cons_append]⟩
  have htext : membersText ((key, quoted s) :: m :: ms) ++ rest =
      quoted key ++ ':' :: '"' :: (s ++ '"' :: ',' :: '"' :: t) := by
    rw [membersText_cons, List.append_assoc, List.cons_append, ht]
    simp [memberText, quoted]
  rw [ht]
  match n, h with
  | n + 1, h =>
    rw [htext, readMembers_member hkey] at h
    split at h
    · match n, h with
      | n + 1, h =>
        rw [readValue_quote] at h
        cases hread : readString n (s ++ '"' :: ',' :: '"' :: t) with
        | none => simp [hread] at h
        | some found =>
          obtain ⟨s', r⟩ := found
          simp only [hread, Option.map_some, Option.bind_some] at h
          cases hcomma : expect ',' r with
          | none =>
            rw [hcomma] at h
            obtain ⟨w, hw, heq⟩ := Option.map_eq_some_iff.mp h
            refine ⟨s', [], (Prod.mk.inj heq).1.symm, ?_⟩
            rintro rfl
            rw [(readString_eq_self hread).2, expect_self rfl] at hcomma
            exact nomatch hcomma
          | some v =>
            rw [hcomma] at h
            obtain ⟨⟨ms', w⟩, hmembers, heq⟩ := Option.map_eq_some_iff.mp h
            refine ⟨s', ms', (Prod.mk.inj heq).1.symm, ?_⟩
            rintro rfl
            obtain ⟨hplain, rfl⟩ := readString_eq_self hread
            rw [expect_self rfl] at hcomma
            cases hcomma
            exact ⟨hplain, n + 1, (Prod.mk.inj heq).2 ▸ hmembers⟩
    · exact nomatch h

/-- A member that is read, in front of a further one. -/
theorem readMembers_reads {key text rest u : Text} {m : Text × Text} {ms : List (Text × Text)}
    {v : Json} {n : Nat} {vs : List (Text × Json)} (hkey : Plain key) (htext : Reads text v)
    (hn : text.length + 1 < n)
    (h : readMembers n (membersText ((key, text) :: m :: ms) ++ rest) = some (vs, u)) :
    ∃ vs' n', vs = (key, v) :: vs' ∧ readMembers n' (membersText (m :: ms) ++ rest) =
      some (vs', u) := by
  obtain ⟨n, rfl⟩ := Nat.exists_eq_succ_of_ne_zero (by omega : n ≠ 0)
  rw [membersText_cons, memberText, List.append_assoc, List.append_assoc, List.cons_append,
    List.cons_append, Nat.succ_eq_add_one, readMembers_member hkey] at h
  split at h
  · rw [htext n _ (by omega) (delimited_comma _), Option.bind_some] at h
    simp only [expect_self (c := ',') rfl] at h
    obtain ⟨⟨ms', w⟩, hmembers, heq⟩ := Option.map_eq_some_iff.mp h
    exact ⟨ms', n, (Prod.mk.inj heq).1.symm, (Prod.mk.inj heq).2 ▸ hmembers⟩
  · exact nomatch h

/-! ## Arrays -/

def arrayText (items : List Text) : Text := '[' :: commaSeparated items ++ [']']

theorem delimited_bracket (t : Text) : Delimited (']' :: t) := by simp [Delimited]

theorem readItems_commaSeparated {text : Text} {texts : List Text} {v : Json} {vs : List Json}
    (htext : Reads text v) (htexts : List.Forall₂ Reads texts vs) {n : Nat}
    (hn : (commaSeparated (text :: texts)).length + 1 < n) (rest : Text) :
    readItems n (commaSeparated (text :: texts) ++ ']' :: rest) = some (v :: vs, rest) := by
  obtain ⟨n, rfl⟩ := Nat.exists_eq_succ_of_ne_zero (by omega : n ≠ 0)
  induction htexts generalizing n text v with
  | nil =>
    rw [commaSeparated] at hn ⊢
    rw [readItems, htext n _ (by omega) (delimited_bracket rest), Option.bind_some]
    simp [expect_other (c := ',') (d := ']') rfl (by decide), expect_self (c := ']') rfl]
  | @cons text' v' texts vs htext' _ ih =>
    rw [commaSeparated, List.length_append, List.length_cons] at hn
    obtain ⟨n, rfl⟩ := Nat.exists_eq_succ_of_ne_zero (by omega : n ≠ 0)
    rw [commaSeparated, List.append_assoc, List.cons_append, readItems,
      htext _ _ (by omega) (delimited_comma _), Option.bind_some]
    simp [expect_self (c := ',') rfl, ih htext' n (by omega)]

/-- Items that start with a brace, as objects do. -/
theorem reads_array {texts : List Text} {vs : List Json} (h : List.Forall₂ Reads texts vs)
    (hbrace : ∀ text ∈ texts, text.head? = some '\x7b') : Reads (arrayText texts) (.arr vs) := by
  intro n rest hn _
  obtain ⟨n, rfl⟩ := Nat.exists_eq_succ_of_ne_zero (by omega : n ≠ 0)
  rw [arrayText, List.cons_append, List.cons_append, List.append_assoc, List.singleton_append,
    readValue, skipSpace_cons rfl]
  cases h with
  | nil => simp [commaSeparated, expect_self (c := ']') rfl]
  | @cons text v texts vs htext htexts =>
    have hlength : (commaSeparated (text :: texts)).length + 1 < n := by
      simp only [arrayText, List.length_append, List.length_cons, List.length_nil] at hn
      omega
    have hread := readItems_commaSeparated htext htexts hlength rest
    obtain ⟨t, ht⟩ : ∃ t, commaSeparated (text :: texts) ++ ']' :: rest = '\x7b' :: t := by
      obtain ⟨u, rfl⟩ : ∃ u, text = '\x7b' :: u :=
        List.head?_eq_some_iff.mp (hbrace text List.mem_cons_self)
      cases texts with
      | nil | cons text' texts => exact ⟨_, rfl⟩
    rw [ht] at hread ⊢
    simp [expect_other (c := ']') (d := '\x7b') rfl (by decide), hread]

/-! ## Whole texts -/

/-- A line that reads is a document. -/
theorem parse_of_reads {text : Text} {v : Json} (h : Reads text v) :
    parse (text ++ ['\n']) = some v := by
  have hlength : text.length < (text ++ ['\n']).length + 1 := by
    rw [List.length_append]
    omega
  have hread := h ((text ++ ['\n']).length + 1) ['\n'] hlength (by simp [Delimited])
  rw [parse, hread]
  rfl

theorem parse_of_fails {text : Text} (h : Fails text) (rest : Text) :
    parse (text ++ rest) = none := by
  have hlength : text.length < (text ++ rest).length + 1 := by
    rw [List.length_append]
    omega
  rw [parse, h _ rest hlength]
  rfl

end JsonText
