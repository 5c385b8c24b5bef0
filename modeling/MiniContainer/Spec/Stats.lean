import MiniContainer.Native.Stats
import MiniContainer.Spec.ConfigRoundTrip
import MiniContainer.Spec.Numerals

/-!
# Sums of statistics

One loop over tokens serves two formats. In `memory.events` a key and its value are two
tokens, in `io.stat` they are one; keys and values are told apart by the first character
of the field. `cpu.stat` is read line by line.
-/

namespace MiniContainer.Stats

open CString (Text isSpace strtok strtok₂ strtou strtoull joinFields strtok₂_of_not_mem)

/-! ## Texts -/

/-- A key with its value in decimal digits. -/
structure Entry where
  key : Text
  digits : Text
  key_plain : key ≠ [] ∧ ' ' ∉ key ∧ '\n' ∉ key
  digits_ne_nil : digits ≠ []
  isDigit_of_mem : ∀ c ∈ digits, c.isDigit = true

/-- The value of the entry. -/
def Entry.value (e : Entry) : Nat := Nat.ofDigitChars 10 e.digits 0

/-- A line `key value`. -/
def Entry.line (e : Entry) : Text := e.key ++ ' ' :: e.digits

/-- A line `major:minor key=value ...`. -/
structure Device where
  major : Text
  minor : Text
  entries : List Entry
  major_ne_nil : major ≠ []
  isDigit_of_mem : ∀ c ∈ major ++ minor, c.isDigit = true

/-- The line of a device. -/
def Device.line (v : Device) : Text :=
  v.major ++ ':' :: v.minor ++ v.entries.flatMap fun e => ' ' :: (e.key ++ '=' :: e.digits)

/-- The text has these lines; the last one may or may not end with a newline. -/
def HasLines (text : Text) (lines : List Text) : Prop :=
  ∃ tail, text = joinFields '\n' lines ++ tail ∧ (tail = [] ∨ tail = ['\n'])

/-- A name to ask for. -/
structure FieldName (field : Text) : Prop where
  letter : ∃ c ∈ field.head?, c.isAlpha = true
  plain : ' ' ∉ field ∧ '\n' ∉ field ∧ '=' ∉ field

/-! ## Tokens and the field -/

section Field

variable {field : Text}

/-- A field name starts with no digit. -/
theorem not_isAlpha_of_isDigit {c : Char} (h : c.isDigit = true) : c.isAlpha = false := by
  have hle : c.val.toNat ≤ 57 := (Char.isDigit_iff_toNat.mp h).2
  have hupper : ¬ 'A'.val ≤ c.val := fun hA => by
    have h65 : 65 ≤ c.val.toNat := UInt32.le_iff_toNat_le.mp hA
    omega
  have hlower : ¬ 'a'.val ≤ c.val := fun ha => by
    have h97 : 97 ≤ c.val.toNat := UInt32.le_iff_toNat_le.mp ha
    omega
  change (decide (c.val ≥ 'A'.val ∧ c.val ≤ 'Z'.val) ||
    (decide (c.val ≥ 'a'.val) && decide (c.val ≤ 'z'.val))) = false
  rw [decide_eq_false fun hA => hupper hA.1, decide_eq_false hlower]
  rfl

/-- A token that starts with a digit is not the field. -/
theorem fieldNumber_digit (hf : FieldName field) {token : Text}
    (h : ∃ c ∈ token.head?, c.isDigit = true) : fieldNumber field token = none := by
  obtain ⟨a, ha, halpha⟩ := hf.letter
  obtain ⟨c, hc, hdigit⟩ := h
  obtain ⟨fs, rfl⟩ := List.head?_eq_some_iff.mp ha
  obtain ⟨ts, rfl⟩ := List.head?_eq_some_iff.mp hc
  have hne : a ≠ c := by
    rintro rfl
    rw [not_isAlpha_of_isDigit hdigit] at halpha
    cases halpha
  rw [fieldNumber, if_neg (by simp [hne])]

/-- The field itself: the number is the next token. -/
theorem fieldNumber_self : fieldNumber field field = some [] := by
  rw [fieldNumber, if_pos (by simp), List.drop_length]

/-- The field followed by an equals sign. -/
theorem fieldNumber_equals (number : Text) :
    fieldNumber field (field ++ '=' :: number) = some number := by
  rw [fieldNumber, if_pos (by simp), List.drop_left]
  rfl

/-- A token that only begins like the field. -/
theorem fieldNumber_longer {c : Char} (hc : c ≠ '=') {rest : Text} :
    fieldNumber field (field ++ c :: rest) = none := by
  rw [fieldNumber, if_pos (by simp), List.drop_left]
  split
  · rename_i h
    cases h
  · rename_i h
    exact absurd (List.cons.inj h).1 hc
  · rfl

/-- A key is the field or no match, whatever they have in common. -/
theorem fieldNumber_key {key : Text} (hkey : '=' ∉ key) :
    fieldNumber field key = if key = field then some [] else none := by
  by_cases hpre : field <+: key
  · obtain ⟨rest, rfl⟩ := hpre
    cases rest with
    | nil => rw [List.append_nil, fieldNumber_self, if_pos rfl]
    | cons c rest =>
      have hc : c ≠ '=' := by
        rintro rfl
        exact hkey (by simp)
      rw [fieldNumber_longer hc, if_neg (by simp)]
  · rw [fieldNumber, if_neg (mt List.isPrefixOf_iff_prefix.mp hpre), if_neg]
    rintro rfl
    exact hpre (List.prefix_refl key)

/-- A token `key=value` holds the value of the field or nothing. -/
theorem fieldNumber_pair (hf : '=' ∉ field) {key digits : Text} (hkey : '=' ∉ key) :
    fieldNumber field (key ++ '=' :: digits) = if key = field then some digits else none := by
  by_cases hpre : field <+: key ++ '=' :: digits
  · obtain ⟨rest, hrest⟩ := hpre
    -- where the field ends: inside the key, or at the equals sign
    rcases List.append_eq_append_iff.mp hrest with ⟨more, rfl, rfl⟩ | ⟨more, rfl, hmore⟩
    · cases more with
      | nil => rw [List.append_nil, fieldNumber_equals, if_pos rfl]
      | cons c more =>
        have hc : c ≠ '=' := by
          rintro rfl
          exact hkey (by simp)
        rw [List.append_assoc, List.cons_append, fieldNumber_longer hc, if_neg (by simp)]
    · cases more with
      | nil =>
        rw [List.append_nil, fieldNumber_equals, if_pos rfl]
      | cons c more =>
        obtain ⟨rfl, -⟩ := List.cons.inj hmore
        exact absurd (by simp) hf
  · rw [fieldNumber, if_neg (mt List.isPrefixOf_iff_prefix.mp hpre), if_neg]
    rintro rfl
    exact hpre (List.prefix_append key _)

/-! ## The loop -/

/-- The sum of the values that the field has among the entries. -/
def total (field : Text) (entries : List Entry) : Nat :=
  ((entries.filter (·.key = field)).map Entry.value).sum

theorem total_cons (e : Entry) (entries : List Entry) :
    total field (e :: entries) = (if e.key = field then e.value else 0) + total field entries := by
  by_cases h : e.key = field <;> simp [total, h]

theorem total_append (a b : List Entry) : total field (a ++ b) = total field a + total field b := by
  simp [total]

/-- A value that fits is read. -/
theorem strtoull_entry {e : Entry} (h : e.value < 2 ^ 64) :
    strtoull e.digits = UInt64.ofNat e.value := by
  rw [← UInt64.ofNat_toNat (x := strtoull e.digits),
    CString.strtoull_digits e.digits_ne_nil e.isDigit_of_mem h]
  rfl

/-- A value starts with a digit. -/
theorem head_digits (e : Entry) : ∃ c ∈ e.digits.head?, c.isDigit = true := by
  cases h : e.digits with
  | nil => exact absurd h e.digits_ne_nil
  | cons c cs => exact ⟨c, rfl, e.isDigit_of_mem c (h ▸ List.mem_cons_self)⟩

section Steps

variable {token number : Text} {tokens : List Text} {acc : UInt64}

/-- The loop passes over other tokens, -/
theorem namedLoop_skip (h : fieldNumber field token = none) :
    namedLoop field (token :: tokens) acc = namedLoop field tokens acc := by
  rw [namedLoop.eq_def]
  dsimp only
  rw [h]

/-- takes the next token for the number, -/
theorem namedLoop_next (h : fieldNumber field token = some []) :
    namedLoop field (token :: number :: tokens) acc =
      namedLoop field tokens (acc + strtoull number) := by
  rw [namedLoop.eq_def]
  dsimp only
  rw [h]

/-- or what stands behind the equals sign. -/
theorem namedLoop_inside (h : fieldNumber field token = some number) (hne : number ≠ []) :
    namedLoop field (token :: tokens) acc = namedLoop field tokens (acc + strtoull number) := by
  rw [namedLoop.eq_def]
  dsimp only
  rw [h]
  cases number with
  | nil => exact absurd rfl hne
  | cons c cs => rfl

end Steps

/-- A key and its value, as two tokens. -/
theorem namedLoop_event (hf : FieldName field) {e : Entry} (hkey : '=' ∉ e.key)
    (hsmall : e.value < 2 ^ 64) (tokens : List Text) (acc : UInt64) :
    namedLoop field (e.key :: e.digits :: tokens) acc =
      namedLoop field tokens (acc + UInt64.ofNat (if e.key = field then e.value else 0)) := by
  by_cases h : e.key = field
  · rw [namedLoop_next (by rw [fieldNumber_key hkey, if_pos h]), if_pos h, strtoull_entry hsmall]
  · -- neither the key nor the value is the field
    rw [namedLoop_skip (by rw [fieldNumber_key hkey, if_neg h]),
      namedLoop_skip (fieldNumber_digit hf (head_digits e)), if_neg h]
    exact congrArg (namedLoop field tokens) (UInt64.add_zero acc).symm

/-- All lines of `memory.events`. -/
theorem namedLoop_events (hf : FieldName field) {entries : List Entry}
    (hkey : ∀ e ∈ entries, '=' ∉ e.key) (hsmall : ∀ e ∈ entries, e.value < 2 ^ 64) (acc : UInt64) :
    namedLoop field (entries.flatMap fun e => [e.key, e.digits]) acc =
      acc + UInt64.ofNat (total field entries) := by
  induction entries generalizing acc with
  | nil => exact (UInt64.add_zero acc).symm
  | cons e es ih =>
    obtain ⟨hkey₀, hkey⟩ := List.forall_mem_cons.mp hkey
    obtain ⟨hsmall₀, hsmall⟩ := List.forall_mem_cons.mp hsmall
    show namedLoop field (e.key :: e.digits :: es.flatMap _) acc = _
    rw [namedLoop_event hf hkey₀ hsmall₀, ih hkey hsmall, total_cons, UInt64.ofNat_add,
      UInt64.add_assoc]

/-- A token `key=value`. -/
def Entry.pair (e : Entry) : Text := e.key ++ '=' :: e.digits

/-- All pairs of a device. -/
theorem namedLoop_pairs (hf : FieldName field) {entries : List Entry}
    (hkey : ∀ e ∈ entries, '=' ∉ e.key) (hsmall : ∀ e ∈ entries, e.value < 2 ^ 64)
    (tokens : List Text) (acc : UInt64) :
    namedLoop field (entries.map Entry.pair ++ tokens) acc =
      namedLoop field tokens (acc + UInt64.ofNat (total field entries)) := by
  induction entries generalizing acc with
  | nil => exact congrArg (namedLoop field tokens) (UInt64.add_zero acc).symm
  | cons e es ih =>
    obtain ⟨hkey₀, hkey⟩ := List.forall_mem_cons.mp hkey
    obtain ⟨hsmall₀, hsmall⟩ := List.forall_mem_cons.mp hsmall
    have hpair : fieldNumber field e.pair = if e.key = field then some e.digits else none :=
      fieldNumber_pair hf.plain.2.2 hkey₀
    rw [List.map_cons, List.cons_append, total_cons, UInt64.ofNat_add, ← UInt64.add_assoc,
      ← ih hkey hsmall]
    by_cases h : e.key = field
    · rw [namedLoop_inside (by rw [hpair, if_pos h]) e.digits_ne_nil, if_pos h,
        strtoull_entry hsmall₀]
    · rw [namedLoop_skip (by rw [hpair, if_neg h]), if_neg h]
      exact congrArg (namedLoop field _) (UInt64.add_zero acc).symm

/-- The tokens of a device. -/
def Device.tokens (v : Device) : List Text :=
  (v.major ++ ':' :: v.minor) :: v.entries.map Entry.pair

/-- All devices of `io.stat`. -/
theorem namedLoop_devices (hf : FieldName field) {devices : List Device}
    (hkey : ∀ v ∈ devices, ∀ e ∈ v.entries, '=' ∉ e.key)
    (hsmall : ∀ v ∈ devices, ∀ e ∈ v.entries, e.value < 2 ^ 64) (acc : UInt64) :
    namedLoop field (devices.flatMap Device.tokens) acc =
      acc + UInt64.ofNat (total field (devices.flatMap Device.entries)) := by
  induction devices generalizing acc with
  | nil => exact (UInt64.add_zero acc).symm
  | cons v vs ih =>
    obtain ⟨hkey₀, hkey⟩ := List.forall_mem_cons.mp hkey
    obtain ⟨hsmall₀, hsmall⟩ := List.forall_mem_cons.mp hsmall
    have hhead : ∃ c ∈ (v.major ++ ':' :: v.minor).head?, c.isDigit = true := by
      cases hm : v.major with
      | nil => exact absurd hm v.major_ne_nil
      | cons c cs => exact ⟨c, rfl, v.isDigit_of_mem c (by simp [hm])⟩
    show namedLoop field ((v.major ++ ':' :: v.minor) ::
      (v.entries.map Entry.pair ++ vs.flatMap Device.tokens)) acc = _
    rw [namedLoop_skip (fieldNumber_digit hf hhead), namedLoop_pairs hf hkey₀ hsmall₀,
      ih hkey hsmall, List.flatMap_cons, total_append, UInt64.ofNat_add, UInt64.add_assoc]

end Field

/-! ## Tokens of the files -/

theorem digits_plain {s : Text} (h : ∀ c ∈ s, c.isDigit = true) : ' ' ∉ s ∧ '\n' ∉ s :=
  ⟨fun hmem => absurd (h _ hmem) (by decide), fun hmem => absurd (h _ hmem) (by decide)⟩

/-- A line has two tokens. -/
theorem strtok₂_event (e : Entry) : strtok₂ ' ' '\n' e.line = [e.key, e.digits] := by
  obtain ⟨hne, hblank, hnewline⟩ := e.key_plain
  obtain ⟨hblank', hnewline'⟩ := digits_plain e.isDigit_of_mem
  rw [Entry.line, CString.strtok₂_append_sep (.inl rfl),
    strtok₂_of_not_mem hblank hnewline hne,
    strtok₂_of_not_mem hblank' hnewline' e.digits_ne_nil]
  rfl

theorem strtok₂_pairs (first : Text) (hfirst : first ≠ [] ∧ ' ' ∉ first ∧ '\n' ∉ first)
    (entries : List Entry) :
    strtok₂ ' ' '\n' (first ++ entries.flatMap fun e => ' ' :: (e.key ++ '=' :: e.digits)) =
      first :: entries.map Entry.pair := by
  induction entries generalizing first with
  | nil =>
    rw [List.flatMap_nil, List.append_nil,
      strtok₂_of_not_mem hfirst.2.1 hfirst.2.2 hfirst.1]
    rfl
  | cons e es ih =>
    obtain ⟨hne, hblank, hnewline⟩ := e.key_plain
    obtain ⟨hblank', hnewline'⟩ := digits_plain e.isDigit_of_mem
    have hpair : e.pair ≠ [] ∧ ' ' ∉ e.pair ∧ '\n' ∉ e.pair := by
      simp [Entry.pair, hne, hblank, hnewline, hblank', hnewline']
    rw [List.flatMap_cons, List.cons_append, CString.strtok₂_append_sep (.inl rfl),
      strtok₂_of_not_mem hfirst.2.1 hfirst.2.2 hfirst.1]
    exact congrArg (first :: ·) (ih e.pair hpair)

/-- A line starts with the device. -/
theorem strtok₂_device (v : Device) : strtok₂ ' ' '\n' v.line = v.tokens := by
  obtain ⟨hblank, hnewline⟩ := digits_plain v.isDigit_of_mem
  rw [Device.line, Device.tokens, strtok₂_pairs]
  simp only [List.mem_append, not_or] at hblank hnewline
  simp [v.major_ne_nil, hblank.1, hblank.2, hnewline.1, hnewline.2]

/-- A file that fits and has no NUL is read. -/
theorem readText_some {size : Nat} {text : Text} (hlength : text.length < size - 1)
    (hnul : '\x00' ∉ text) : readText size (some text) = some text := by
  rw [readText, if_pos hlength, untilNul_eq_self_iff.mpr hnul]

/-- The tokens come line by line. -/
theorem namedField_eq {text field : Text} {lines : List Text} (hlines : HasLines text lines)
    (hlength : text.length < 4095) (hnul : '\x00' ∉ text) :
    namedField (some text) field =
      some (namedLoop field (lines.flatMap (strtok₂ ' ' '\n')) 0) := by
  obtain ⟨tail, rfl, htail⟩ := hlines
  rw [namedField, readText_some hlength hnul, Option.map_some, CString.strtok₂_lines lines htail]

/-! ## Distinct keys -/

theorem total_of_not_mem {field : Text} {entries : List Entry} (h : ∀ e ∈ entries, e.key ≠ field) :
    total field entries = 0 := by
  have hnone : entries.filter (·.key = field) = [] := by
    rw [List.filter_eq_nil_iff]
    intro e he
    simpa using h e he
  simp [total, hnone]

/-- Distinct keys: the sum is the value. -/
theorem total_of_mem {entries : List Entry} (hnodup : (entries.map Entry.key).Nodup) {e : Entry}
    (he : e ∈ entries) : total e.key entries = e.value := by
  induction entries with
  | nil => cases he
  | cons d ds ih =>
    simp only [List.map_cons, List.nodup_cons] at hnodup
    rw [total_cons]
    rcases List.mem_cons.mp he with rfl | he
    · -- no other entry has this key
      have hrest : ∀ d ∈ ds, d.key ≠ e.key := by
        intro d hd heq
        exact hnodup.1 (heq ▸ List.mem_map_of_mem hd)
      rw [if_pos rfl, total_of_not_mem hrest, Nat.add_zero]
    · have hne : d.key ≠ e.key := by
        intro heq
        exact hnodup.1 (heq ▸ List.mem_map_of_mem he)
      rw [if_neg hne, Nat.zero_add, ih hnodup.2 he]

/-! ## Lines of `cpu.stat` -/

/-- `sscanf` reads a plain line. -/
theorem scanLine_entry {e : Entry} (hspace : ∀ c ∈ e.key, isSpace c = false)
    (hlength : e.key.length < 64) (hsmall : e.value < 2 ^ 64) :
    scanLine e.line = some (e.key, UInt64.ofNat e.value) := by
  have hstart : e.line.dropWhile isSpace = e.line := by
    cases hk : e.key with
    | nil => exact absurd hk e.key_plain.1
    | cons c cs =>
      rw [Entry.line, hk, List.cons_append, List.dropWhile_cons, hspace c (by simp [hk])]
      rfl
  have hkey : (e.line.takeWhile (!isSpace ·)).take 63 = e.key := by
    rw [Entry.line, List.takeWhile_append_of_pos fun c hc => by simpa using hspace c hc]
    have hblank : (' ' :: e.digits).takeWhile (!isSpace ·) = [] := rfl
    rw [hblank, List.append_nil, List.take_of_length_le (by omega)]
  have hnumber : strtou 64 (' ' :: e.digits) = some ⟨e.value, false, []⟩ := by
    have h := CString.strtou_digits e.digits_ne_nil e.isDigit_of_mem CString.noDigit_nil hsmall
    rw [List.append_nil] at h
    exact h
  unfold scanLine
  dsimp only
  rw [hstart, hkey, if_neg e.key_plain.1]
  have hrest : e.line.drop e.key.length = ' ' :: e.digits := List.drop_left
  rw [hrest, hnumber]
  rfl

/-- The loop finds the line with the key. -/
theorem cpuLoop_entries {entries : List Entry} (hnodup : (entries.map Entry.key).Nodup)
    (hkeys : ∀ e ∈ entries, (∀ c ∈ e.key, isSpace c = false) ∧ e.key.length < 64)
    (hsmall : ∀ e ∈ entries, e.value < 2 ^ 64) {e : Entry} (he : e ∈ entries) :
    cpuLoop e.key (entries.map Entry.line) = some (UInt64.ofNat e.value) := by
  induction entries with
  | nil => cases he
  | cons d ds ih =>
    obtain ⟨⟨hspace₀, hlength₀⟩, hkeys⟩ := List.forall_mem_cons.mp hkeys
    obtain ⟨hsmall₀, hsmall⟩ := List.forall_mem_cons.mp hsmall
    simp only [List.map_cons, List.nodup_cons] at hnodup
    rw [List.map_cons, cpuLoop, scanLine_entry hspace₀ hlength₀ hsmall₀]
    dsimp only
    rcases List.mem_cons.mp he with rfl | he
    · rw [if_pos rfl]
    · have hne : d.key ≠ e.key := by
        intro heq
        exact hnodup.1 (heq ▸ List.mem_map_of_mem he)
      rw [if_neg hne, ih hnodup.2 hkeys hsmall he]

theorem strtok_entries {entries : List Entry} {text : Text}
    (hlines : HasLines text (entries.map Entry.line)) :
    strtok '\n' text = entries.map Entry.line := by
  obtain ⟨tail, rfl, htail⟩ := hlines
  refine CString.strtok_lines (fun l hl => ?_) htail
  obtain ⟨e, -, rfl⟩ := List.mem_map.mp hl
  obtain ⟨hne, -, hnewline⟩ := e.key_plain
  simp [Entry.line, hne, hnewline, (digits_plain e.isDigit_of_mem).2]

/-! ## Results -/

/-- The value of a key of `memory.events`, or 0 for a key that is not there. -/
theorem namedField_events {entries : List Entry} {text field : Text}
    (hnodup : (entries.map Entry.key).Nodup) (hkey : ∀ e ∈ entries, '=' ∉ e.key)
    (hsmall : ∀ e ∈ entries, e.value < 2 ^ 64) (hlines : HasLines text (entries.map Entry.line))
    (hlength : text.length < 4095) (hnul : '\x00' ∉ text) (hf : FieldName field) :
    ∃ v, namedField (some text) field = some v ∧
      (∀ e ∈ entries, e.key = field → v.toNat = e.value) ∧
      ((∀ e ∈ entries, e.key ≠ field) → v = 0) := by
  have htokens : (entries.map Entry.line).flatMap (strtok₂ ' ' '\n') =
      entries.flatMap fun e => [e.key, e.digits] := by
    rw [List.flatMap_map]
    exact congrArg (entries.flatMap ·) (funext strtok₂_event)
  refine ⟨_, namedField_eq hlines hlength hnul, ?_, ?_⟩
  · rintro e he rfl
    rw [htokens, namedLoop_events hf hkey hsmall, UInt64.zero_add, total_of_mem hnodup he,
      UInt64.toNat_ofNat', Nat.mod_eq_of_lt (hsmall e he)]
  · intro hnone
    rw [htokens, namedLoop_events hf hkey hsmall, total_of_not_mem hnone]
    rfl

/-- The sum over all devices of the values of a key of `io.stat`. -/
theorem namedField_devices {devices : List Device} {text field : Text}
    (hkey : ∀ v ∈ devices, ∀ e ∈ v.entries, '=' ∉ e.key)
    (hsmall : ∀ v ∈ devices, ∀ e ∈ v.entries, e.value < 2 ^ 64)
    (hlines : HasLines text (devices.map Device.line)) (hlength : text.length < 4095)
    (hnul : '\x00' ∉ text) (hf : FieldName field) :
    ∃ v, namedField (some text) field = some v ∧
      v.toNat = total field (devices.flatMap Device.entries) % 2 ^ 64 := by
  have htokens : (devices.map Device.line).flatMap (strtok₂ ' ' '\n') =
      devices.flatMap Device.tokens := by
    rw [List.flatMap_map]
    exact congrArg (devices.flatMap ·) (funext strtok₂_device)
  refine ⟨_, namedField_eq hlines hlength hnul, ?_⟩
  rw [htokens, namedLoop_devices hf hkey hsmall, UInt64.zero_add, UInt64.toNat_ofNat']

/-- The value of a key of `cpu.stat`. -/
theorem cpuField_entries {entries : List Entry} {text : Text}
    (hnodup : (entries.map Entry.key).Nodup)
    (hkeys : ∀ e ∈ entries, (∀ c ∈ e.key, isSpace c = false) ∧ e.key.length < 64)
    (hsmall : ∀ e ∈ entries, e.value < 2 ^ 64) (hlines : HasLines text (entries.map Entry.line))
    (hlength : text.length < 2047) (hnul : '\x00' ∉ text) {e : Entry} (he : e ∈ entries) :
    ∃ v, cpuField (some text) e.key = some v ∧ v.toNat = e.value := by
  refine ⟨UInt64.ofNat e.value, ?_, ?_⟩
  · rw [cpuField, readText_some hlength hnul, Option.bind_some, strtok_entries hlines,
      cpuLoop_entries hnodup hkeys hsmall he]
  · rw [UInt64.toNat_ofNat', Nat.mod_eq_of_lt (hsmall e he)]

/-- The statistics are exact for all texts whose values fit into 64 bits: the value of a key of
    a file like `memory.events`, the sum over all devices for a file like `io.stat`, and the
    value of a key of a file like `cpu.stat`. -/
theorem statistics_exact :
    (∀ (entries : List Entry) (text field : Text), (entries.map Entry.key).Nodup →
      (∀ e ∈ entries, '=' ∉ e.key) → (∀ e ∈ entries, e.value < 2 ^ 64) →
      HasLines text (entries.map Entry.line) → text.length < 4095 → '\x00' ∉ text →
      FieldName field →
      ∃ v, namedField (some text) field = some v ∧
        (∀ e ∈ entries, e.key = field → v.toNat = e.value) ∧
        ((∀ e ∈ entries, e.key ≠ field) → v = 0)) ∧
    (∀ (devices : List Device) (text field : Text),
      (∀ v ∈ devices, ∀ e ∈ v.entries, '=' ∉ e.key) →
      (∀ v ∈ devices, ∀ e ∈ v.entries, e.value < 2 ^ 64) →
      HasLines text (devices.map Device.line) → text.length < 4095 → '\x00' ∉ text →
      FieldName field →
      ∃ v, namedField (some text) field = some v ∧
        v.toNat = total field (devices.flatMap Device.entries) % 2 ^ 64) ∧
    (∀ (entries : List Entry) (text : Text), (entries.map Entry.key).Nodup →
      (∀ e ∈ entries, (∀ c ∈ e.key, isSpace c = false) ∧ e.key.length < 64) →
      (∀ e ∈ entries, e.value < 2 ^ 64) → HasLines text (entries.map Entry.line) →
      text.length < 2047 → '\x00' ∉ text → ∀ e ∈ entries,
      ∃ v, cpuField (some text) e.key = some v ∧ v.toNat = e.value) := by
  refine ⟨?_, ?_, ?_⟩
  · intro entries text field hnodup hkey hsmall hlines hlength hnul hf
    exact namedField_events hnodup hkey hsmall hlines hlength hnul hf
  · intro devices text field hkey hsmall hlines hlength hnul hf
    exact namedField_devices hkey hsmall hlines hlength hnul hf
  · intro entries text hnodup hkeys hsmall hlines hlength hnul e he
    exact cpuField_entries hnodup hkeys hsmall hlines hlength hnul he

/-- An entry of `memory.events`. -/
def oomEntry : Entry :=
  ⟨"oom".toList, "2".toList, by decide, by decide, List.all_eq_true.mp (by decide)⟩

@[inherit_doc oomEntry]
def oomKillEntry : Entry :=
  ⟨"oom_kill".toList, "5".toList, by decide, by decide, List.all_eq_true.mp (by decide)⟩

/-- The value of `oom` is not confused with the one of `oom_kill`. -/
theorem statistics_exact_oom :
    ∃ v, namedField (some "oom_kill 5\noom 2\n".toList) "oom".toList = some v ∧ v.toNat = 2 := by
  have hlines : HasLines "oom_kill 5\noom 2\n".toList ([oomKillEntry, oomEntry].map Entry.line) :=
    ⟨['\n'], by decide, .inr rfl⟩
  have hkey : ∀ e ∈ [oomKillEntry, oomEntry], '=' ∉ e.key := by
    simp only [List.forall_mem_cons, List.not_mem_nil, false_imp_iff, implies_true, and_true]
    exact ⟨by decide, by decide⟩
  have hsmall : ∀ e ∈ [oomKillEntry, oomEntry], e.value < 2 ^ 64 := by
    simp only [List.forall_mem_cons, List.not_mem_nil, false_imp_iff, implies_true, and_true]
    exact ⟨by decide, by decide⟩
  obtain ⟨v, hv, hvalue, -⟩ := statistics_exact.1 _ _ "oom".toList (by decide) hkey hsmall hlines
    (by decide) (by decide) ⟨⟨'o', rfl, by decide⟩, by decide⟩
  exact ⟨v, hv, hvalue oomEntry (by simp) rfl⟩

/-- An entry whose value does not fit into 64 bits. -/
def largeEntry : Entry :=
  ⟨"oom".toList, "18446744073709551616".toList, by decide, by decide,
    List.all_eq_true.mp (by decide)⟩

/-- An entry with an odd character in its key. -/
def oddEntry (c : Char) (h : ' ' ≠ c ∧ '\n' ≠ c) : Entry :=
  ⟨"oom".toList ++ [c, '5'], "1".toList, by simp [h], by decide, List.all_eq_true.mp (by decide)⟩

/-- Without the conditions on values and keys: a value that does not fit is reported as the
    largest number, the equals sign in a key makes it the field, the text ends at a NUL, and a
    key of `cpu.stat` ends at a tab. -/
theorem statistics_saturate :
    (HasLines "oom 18446744073709551616\n".toList [largeEntry.line] ∧
      largeEntry.value = 18446744073709551616 ∧
      (namedField (some "oom 18446744073709551616\n".toList) "oom".toList).map UInt64.toNat =
        some 18446744073709551615) ∧
    (HasLines "oom=5 1\n".toList [(oddEntry '=' (by decide)).line] ∧
      namedField (some "oom=5 1\n".toList) "oom".toList = some 5) ∧
    (HasLines "oom\x005 1\noom 2\n".toList [(oddEntry '\x00' (by decide)).line, oomEntry.line] ∧
      namedField (some "oom\x005 1\noom 2\n".toList) "oom".toList = some 0) ∧
    HasLines "oom\t5 1\n".toList [(oddEntry '\t' (by decide)).line] ∧
      cpuField (some "oom\t5 1\n".toList) "oom\t5".toList = none := by
  refine ⟨⟨⟨['\n'], by decide, .inr rfl⟩, ?_, ?_⟩, ⟨⟨['\n'], by decide, .inr rfl⟩, ?_⟩,
    ⟨⟨['\n'], by decide, .inr rfl⟩, ?_⟩, ⟨['\n'], by decide, .inr rfl⟩, ?_⟩
  all_goals decide +kernel

end MiniContainer.Stats
