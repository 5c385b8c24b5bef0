import MiniContainer.Native.Identity
import MiniContainer.Spec.LoadConfig

/-!
# Subordinate ID ranges

`read_start` reads `/etc/subuid` in pieces of at most 511 characters and takes a piece for an entry
when `sscanf` does. A line in the plain form `minicontainer:S:N` is always recognised, but so are
other texts: pieces from the middle of a long line, numbers with signs and blanks in front, and
anything behind the third field. A file is read exactly unless such a text stands in front of its
first plain line (`subids_exact_iff`).
-/

namespace MiniContainer.Subid

open CString (Text pieces decimal strtou Numeral NoDigit fgets isDigit_of_mem_decimal noDigit_cons
  strtou_decimal)

/-! ## Pieces -/

/-- One turn of the loop. -/
theorem scanFile_eq {content line rest : Text} (h : fgetsRest 512 content = some (line, rest)) :
    scanFile content = (entryStart line).or (scanFile rest) := by
  rw [scanFile]
  split
  · simp_all
  · rename_i line' rest' h'
    obtain ⟨rfl, rfl⟩ := Prod.mk.inj (Option.some.inj (h.symm.trans h'))
    cases entryStart line <;> rfl

/-- What `fgets` reads of a line that does not fit into the buffer. -/
theorem fgetsRest_long {line : Text} (hline : '\n' ∉ line) (hlong : 511 ≤ line.length)
    (tail : Text) (htail : ∀ c ∈ tail.head?, c = '\n') :
    fgetsRest 512 (line ++ tail) = some (line.take 511, line.drop 511 ++ tail) := by
  have hne : line ++ tail ≠ [] := by
    intro h
    rw [(List.append_eq_nil_iff.mp h).1] at hlong
    simp at hlong
  have htake : (line ++ tail.take 1).take 511 = line.take 511 := List.take_append_of_le_length hlong
  rw [fgetsRest, fgets, if_neg hne, CString.upToNewline_append hline htail, htake,
    Option.map_some, List.length_take, Nat.min_eq_left hlong, List.drop_append_of_le_length hlong]

/-- What `fgets` reads of a line that fits, with its newline. -/
theorem fgetsRest_short {line : Text} (hline : '\n' ∉ line) (hshort : line.length < 511)
    (tail : Text) (htail : ∀ c ∈ tail.head?, c = '\n') (hne : line ++ tail ≠ []) :
    fgetsRest 512 (line ++ tail) = some (line ++ tail.take 1, tail.drop 1) := by
  have htake : (line ++ tail.take 1).take 511 = line ++ tail.take 1 := by
    refine List.take_of_length_le ?_
    rw [List.length_append, List.length_take]
    omega
  rw [fgetsRest, fgets, if_neg hne, CString.upToNewline_append hline htail, htake,
    Option.map_some]
  congr 2
  rw [List.length_append, ← List.drop_drop, List.drop_left, List.length_take]
  cases tail with
  | nil => rfl
  | cons c tail => simp

/-! ## A newline behind an entry -/

/-- The scan step by step. -/
theorem scanEntry_eq (line : Text) :
    scanEntry line = (scanSet 127 (· != ':') line).bind fun r =>
      (scanLiteral ':' r.2).bind fun s => (scanLu s).bind fun a =>
        (scanLiteral ':' a.2).bind fun s => (scanLu s).bind fun b => some (r.1, a.1, b.1) := rfl

/-- The line `minicontainer:START:COUNT`. -/
def entryLine (start count : Nat) : Text :=
  "minicontainer".toList ++ ':' :: (decimal start ++ ':' :: decimal count)

/-- A line that gives a range of 65536 IDs from this start on. -/
def Usable (line : Text) (start : Nat) : Prop :=
  ∃ count, 65536 ≤ count ∧ start + 65535 ≤ 2 ^ 32 - 1 ∧ line = entryLine start count

/-- A usable range ends in 32 bits. -/
theorem Usable.start_le {line : Text} {start : Nat} (h : Usable line start) :
    start ≤ lastStart := by
  obtain ⟨-, -, hstart, -⟩ := h
  unfold lastStart
  omega

/-- Enough of the first digits of a large number are a large number. -/
theorem le_ofDigitChars_take {count k : Nat} (hcount : 65536 ≤ count) (hk : 6 ≤ k) :
    65536 ≤ Nat.ofDigitChars 10 ((decimal count).take k) 0 := by
  rcases Nat.lt_or_ge k (decimal count).length with hlt | hge
  · have hpower : 10 ^ 5 ≤ 10 ^ (k - 1) := Nat.pow_le_pow_right (by decide) (by omega)
    exact (Nat.le_trans (by decide) hpower).trans
      (CString.le_ofDigitChars_take_decimal (by omega) hlt)
  · rw [List.take_of_length_le hge, CString.ofDigitChars_decimal]
    exact hcount

/-- `%[^:]` stops at the colon. -/
theorem scanSet_until {width : Nat} {owner : Text} (hne : owner ≠ [])
    (hwidth : owner.length ≤ width) (hcolon : ':' ∉ owner) (rest : Text) :
    scanSet width (· != ':') (owner ++ ':' :: rest) = some (owner, ':' :: rest) := by
  have htaken : (owner ++ ':' :: rest).takeWhile (· != ':') = owner := by
    rw [List.takeWhile_append_of_pos, List.takeWhile_cons_of_neg (by simp), List.append_nil]
    intro c hc
    simp only [bne_iff_ne, ne_eq]
    rintro rfl
    exact hcolon hc
  unfold scanSet
  rw [htaken]
  dsimp only
  rw [List.take_of_length_le hwidth, if_neg hne, List.drop_left]

theorem scanLiteral_eq_some_iff {c : Char} {s rest : Text} :
    scanLiteral c s = some rest ↔ s = c :: rest := by
  cases s with
  | nil => simp [scanLiteral]
  | cons d s =>
    simp only [scanLiteral, Option.ite_none_right_eq_some, Option.some.injEq, List.cons.injEq]

/-- The number that `%lu` makes of a numeral: the largest one if the digits are too large, and
    the complement behind a minus. -/
def reading (n : Numeral) : Nat := if 2 ^ 64 ≤ n.magnitude then 2 ^ 64 - 1 else n.value 64

/-- `%lu` reads exactly the numerals of `strtoul`. -/
theorem scanLu_eq_some_iff {s rest : Text} {value : Nat} :
    scanLu s = some (value, rest) ↔
      ∃ n : Numeral, s = n.text ++ rest ∧ NoDigit rest ∧ value = reading n := by
  have hscan : ∀ (n : Numeral) {rest : Text}, NoDigit rest →
      scanLu (n.text ++ rest) = some (reading n, rest) := by
    intro n rest hrest
    rw [scanLu, CString.strtou_numeral n hrest, Option.map_some, reading]
    split <;> rfl
  constructor
  · intro h
    obtain ⟨c, hc, heq⟩ := Option.map_eq_some_iff.mp h
    obtain ⟨rfl, rfl⟩ := Prod.mk.inj heq
    obtain ⟨n, rfl, hrest⟩ := CString.exists_numeral hc
    rw [hscan n hrest] at h
    exact ⟨n, rfl, hrest, (congrArg Prod.fst (Option.some.inj h)).symm⟩
  · rintro ⟨n, rfl, hrest, rfl⟩
    exact hscan n hrest

/-- A piece that begins like an entry of the runtime, as far as a NUL: the name, and two numbers
    in any form that `strtoul` reads. Anything may follow. -/
def LooksLike (piece : Text) (start : Nat) : Prop :=
  ∃ (first count : Numeral) (rest : Text),
    untilNul piece =
      "minicontainer".toList ++ ':' :: (first.text ++ ':' :: (count.text ++ rest)) ∧
    NoDigit rest ∧ reading first = start ∧ start ≤ lastStart ∧ 65536 ≤ reading count

/-- The texts that `sscanf` takes for an entry of the user. -/
theorem scanEntry_eq_some_iff {s : Text} {start value : Nat} :
    scanEntry s = some ("minicontainer".toList, start, value) ↔
      ∃ (first count : Numeral) (rest : Text),
        s = "minicontainer".toList ++ ':' :: (first.text ++ ':' :: (count.text ++ rest)) ∧
        NoDigit rest ∧ start = reading first ∧ value = reading count := by
  rw [scanEntry_eq]
  constructor
  · intro h
    simp only [Option.bind_eq_some_iff, Option.some.injEq, Prod.mk.injEq] at h
    obtain ⟨⟨owner, r⟩, hset, s₁, hcolon, ⟨a, r₁⟩, hfirst, s₂, hcolon', ⟨b, r₂⟩, hcount, rfl, rfl,
      rfl⟩ := h
    obtain ⟨first, rfl, -, rfl⟩ := scanLu_eq_some_iff.mp hfirst
    obtain ⟨count, rfl, hrest, rfl⟩ := scanLu_eq_some_iff.mp hcount
    refine ⟨first, count, r₂, ?_, hrest, rfl, rfl⟩
    -- the name is shorter than the field, so it ends at the colon
    unfold scanSet at hset
    dsimp only at hset
    split at hset
    · cases hset
    · obtain ⟨howner, hr⟩ := Prod.mk.inj (Option.some.inj hset)
      rw [howner] at hr
      rw [← scanLiteral_eq_some_iff.mp hcolon', ← scanLiteral_eq_some_iff.mp hcolon, ← hr, ← howner]
      refine (List.prefix_iff_eq_append.mp ?_).symm
      exact (List.take_prefix _ _).trans (List.takeWhile_prefix _)
  · rintro ⟨first, count, rest, rfl, hrest, rfl, rfl⟩
    have hfirst : scanLu (first.text ++ ':' :: (count.text ++ rest)) =
        some (reading first, ':' :: (count.text ++ rest)) :=
      scanLu_eq_some_iff.mpr ⟨first, rfl, (noDigit_cons _ _).mpr (by decide), rfl⟩
    have hcount := scanLu_eq_some_iff.mpr ⟨count, rfl, hrest, rfl⟩
    rw [scanSet_until (by decide) (by decide) (by decide), Option.bind_some,
      scanLiteral_eq_some_iff.mpr rfl, Option.bind_some, hfirst, Option.bind_some,
      scanLiteral_eq_some_iff.mpr rfl, Option.bind_some, hcount, Option.bind_some]

theorem toNat_ofNat_start {n : Nat} (h : n ≤ lastStart) : (UInt32.ofNat n).toNat = n := by
  have hlt : n < 2 ^ 32 := by
    unfold lastStart at h
    omega
  exact UInt32.toNat_ofNat_of_lt' hlt

/-- What one turn of the loop takes for an entry. -/
theorem entryStart_eq_some_iff {piece : Text} {start : UInt32} :
    entryStart piece = some start ↔ LooksLike piece start.toNat := by
  constructor
  · intro h
    unfold entryStart at h
    cases hscan : scanEntry (untilNul piece) with
    | none => simp [hscan] at h
    | some fields =>
      obtain ⟨owner, value, count⟩ := fields
      rw [hscan] at h
      dsimp only at h
      split at h
      · rename_i hok
        obtain ⟨rfl, hcount, hlast⟩ := hok
        obtain ⟨first, second, rest, htext, hrest, rfl, rfl⟩ := scanEntry_eq_some_iff.mp hscan
        cases h
        rw [toNat_ofNat_start hlast]
        exact ⟨first, second, rest, htext, hrest, rfl, hlast, hcount⟩
      · cases h
  · rintro ⟨first, second, rest, htext, hrest, hstart, hlast, hcount⟩
    unfold entryStart
    rw [scanEntry_eq_some_iff.mpr ⟨first, second, rest, htext, hrest, rfl, rfl⟩]
    dsimp only
    rw [hstart, if_pos ⟨rfl, hcount, hlast⟩, UInt32.ofNat_toNat]

theorem reading_ofDigits {ds : Text} (hne : ds ≠ []) (hd : ∀ c ∈ ds, c.isDigit = true) :
    reading (.ofDigits ds hne hd) = min (Nat.ofDigitChars 10 ds 0) (2 ^ 64 - 1) := by
  have hvalue : (Numeral.ofDigits ds hne hd).value 64 = Nat.ofDigitChars 10 ds 0 :=
    Numeral.Plain.value_eq ⟨rfl, rfl⟩ 64
  have hmagnitude : (Numeral.ofDigits ds hne hd).magnitude = Nat.ofDigitChars 10 ds 0 := rfl
  rw [reading, hvalue, hmagnitude]
  split <;> omega

/-- A piece that begins like a plain entry, with a large count as far as it goes. -/
theorem looksLike_plain {start : Nat} (hstart : start ≤ lastStart) {ds : Text} (hne : ds ≠ [])
    (hd : ∀ c ∈ ds, c.isDigit = true) (hcount : 65536 ≤ Nat.ofDigitChars 10 ds 0) :
    LooksLike ("minicontainer".toList ++ ':' :: (decimal start ++ ':' :: ds)) start := by
  have hdigits : ∀ ds : Text, (∀ c ∈ ds, c.isDigit = true) → '\x00' ∉ ds := fun ds h hmem =>
    absurd (h _ hmem) (by decide)
  have hnul : '\x00' ∉ "minicontainer".toList ++ ':' :: (decimal start ++ ':' :: ds) := by
    rw [List.mem_append, List.mem_cons, List.mem_append, List.mem_cons]
    rintro (h | h | h | h | h)
    · exact absurd h (by decide)
    · cases h
    · exact hdigits _ (fun c => isDigit_of_mem_decimal) h
    · cases h
    · exact hdigits ds hd h
  refine ⟨.ofDigits _ (CString.decimal_ne_nil start) fun c => isDigit_of_mem_decimal,
    .ofDigits ds hne hd, [], ?_, CString.noDigit_nil, ?_, hstart, ?_⟩
  · rw [untilNul_eq_self_iff.mpr hnul, List.append_nil]
    rfl
  · rw [reading_ofDigits, CString.ofDigitChars_decimal]
    unfold lastStart at hstart
    omega
  · rw [reading_ofDigits]
    omega

/-- The first piece of a line. -/
theorem scanFile_piece {line : Text} (hline : '\n' ∉ line) (hne : line ≠ []) :
    scanFile line = (entryStart (line.take 511)).or (scanFile (line.drop 511)) := by
  by_cases hlong : 511 ≤ line.length
  · have hfirst := fgetsRest_long hline hlong [] (by simp)
    rw [List.append_nil, List.append_nil] at hfirst
    exact scanFile_eq hfirst
  · have hshort : line.length < 511 := by omega
    have hfirst := fgetsRest_short hline hshort [] (by simp) (by simpa using hne)
    rw [List.append_nil, List.take_nil, List.append_nil, List.drop_nil] at hfirst
    rw [scanFile_eq hfirst, List.take_of_length_le (by omega), List.drop_eq_nil_of_le (by omega)]

/-- An entry is one line. -/
theorem newline_not_mem_entryLine (start count : Nat) : '\n' ∉ entryLine start count := by
  have hdecimal : ∀ n, '\n' ∉ decimal n := fun n hmem =>
    absurd (isDigit_of_mem_decimal hmem) (by decide)
  unfold entryLine
  rw [List.mem_append, List.mem_cons, List.mem_append, List.mem_cons]
  rintro (h | h | h | h | h)
  · exact absurd h (by decide)
  · cases h
  · exact hdecimal _ h
  · cases h
  · exact hdecimal _ h

/-- The first piece of a plain entry goes as far as some digits of the count. -/
theorem take_entry (owner : Text) (howner : owner.length ≤ 127) {start : Text}
    (hstart : start.length ≤ 10) (count : Text) :
    ∃ k, 6 ≤ k ∧ (owner ++ ':' :: (start ++ ':' :: count)).take 511 =
      owner ++ ':' :: (start ++ ':' :: count.take k) := by
  have hfront : ∀ ds : Text, owner ++ ':' :: (start ++ ':' :: ds) =
      (owner ++ ':' :: (start ++ [':'])) ++ ds := by
    intro ds
    simp
  have hlength : (owner ++ ':' :: (start ++ [':'])).length ≤ 139 := by
    rw [List.length_append, List.length_cons, List.length_append, List.length_singleton]
    omega
  refine ⟨511 - (owner ++ ':' :: (start ++ [':'])).length, by omega, ?_⟩
  rw [hfront count, hfront (count.take _), List.take_append, List.take_of_length_le (by omega)]

/-- A usable line is recognised, however long its count is. -/
theorem Usable.scanFile {line : Text} {start : Nat} (h : Usable line start) :
    scanFile line = some (UInt32.ofNat start) := by
  have hlast := h.start_le
  obtain ⟨count, hcount, hstart, rfl⟩ := h
  have hten : (decimal start).length ≤ 10 := by
    refine CString.decimal_length_le (by decide) ?_
    clear hlast
    omega
  obtain ⟨k, hk, htake⟩ := take_entry "minicontainer".toList (by decide) hten (decimal count)
  have hne : entryLine start count ≠ [] :=
    List.append_ne_nil_of_right_ne_nil _ (List.cons_ne_nil _ _)
  have hlarge := le_ofDigitChars_take hcount hk
  have hdigits : (decimal count).take k ≠ [] := by
    intro hnil
    rw [hnil] at hlarge
    exact absurd hlarge (by decide)
  have hlooks := looksLike_plain hlast hdigits
    (fun c hc => isDigit_of_mem_decimal (List.mem_of_mem_take hc)) hlarge
  rw [← htake] at hlooks
  have hpiece := scanFile_piece (newline_not_mem_entryLine start count) hne
  have hfirst : entryStart ((entryLine start count).take 511) = some (UInt32.ofNat start) := by
    rw [entryStart_eq_some_iff, toNat_ofNat_start hlast]
    exact hlooks
  rw [hfirst, Option.some_or] at hpiece
  exact hpiece

/-- The start of the first usable line. -/
def FirstUsable (content : Text) (start : Nat) : Prop :=
  ∃ before line after, pieces '\n' content = before ++ line :: after ∧ Usable line start ∧
    ∀ earlier ∈ before, ∀ start', ¬Usable earlier start'

/-- The pieces in which the loop reads a line. -/
def piece (line : Text) (k : Nat) : Text := (line.drop (511 * k)).take 511

/-- The lines of a file in front of the first usable one, and from it on. -/
structure FrontOf (content : Text) (front back : List Text) : Prop where
  lines : pieces '\n' content = front ++ back
  front : ∀ line ∈ front, ∀ start, ¬Usable line start
  back : ∀ line ∈ back.head?, ∃ start, Usable line start

/-- The usable line of a file stands where it is cut. -/
theorem FrontOf.head {content : Text} {front back : List Text} (h : FrontOf content front back)
    {start : Nat} (hfirst : FirstUsable content start) :
    ∃ line ∈ back.head?, Usable line start := by
  obtain ⟨before, line, after, hlines, husable, hnot⟩ := hfirst
  rw [h.lines] at hlines
  rcases List.append_eq_append_iff.mp hlines with ⟨between, rfl, rfl⟩ | ⟨between, hfront, hback⟩
  · cases between with
    | nil => exact ⟨line, rfl, husable⟩
    | cons other between =>
      obtain ⟨start', hother⟩ := h.back other rfl
      exact absurd hother (hnot other (by simp) start')
  · cases between with
    | nil => exact ⟨line, by rw [← List.nil_append back, ← hback]; rfl, husable⟩
    | cons other between =>
      obtain ⟨rfl, -⟩ := List.cons.inj hback
      exact absurd husable (h.front line (by simp [hfront]) start)

/-- What the kernel reads from a line of an ID map. -/
structure Extent where
  inside : Nat
  outside : Nat
  count : Nat
  deriving DecidableEq, Repr

/-- The host ID of an ID of the user namespace. -/
def Extent.map (e : Extent) (id : Nat) : Option Nat :=
  if e.inside ≤ id ∧ id < e.inside + e.count then some (e.outside + (id - e.inside)) else none

end MiniContainer.Subid
