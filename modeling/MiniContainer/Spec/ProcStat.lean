import MiniContainer.Native.ProcStat
import MiniContainer.Spec.Numerals

/-!
# Start times whatever the name

The name of a process stands in parentheses in front of the fields and may itself contain
parentheses and blanks. The fields contain no closing parenthesis, so the last one of the
line ends the name, and the twentieth token behind it is the field 22.
-/

namespace MiniContainer.ProcStat

open CString (Text fgets strrchr strtok strtoull joinFields)
open JsonC (Value)

/-- A line `PID (COMM) F3 ... Fn`. -/
structure StatLine where
  pid : Text
  comm : Text
  /-- The fields from the third one on. -/
  fields : List Text
  many : 20 ≤ fields.length
  plain : ∀ f ∈ fields, f ≠ [] ∧ ' ' ∉ f ∧ ')' ∉ f ∧ '\n' ∉ f
  oneLine : '\n' ∉ pid ∧ '\n' ∉ comm

namespace StatLine

def text (l : StatLine) : Text :=
  l.pid ++ " (".toList ++ l.comm ++ ") ".toList ++ joinFields ' ' l.fields

/-- The field 22. -/
def start (l : StatLine) : Text := l.fields.get ⟨19, l.many⟩

/-- The file holds the line, with or without a newline behind it. -/
def InFile (l : StatLine) (stat : Text) : Prop :=
  ∃ rest, stat = l.text ++ rest ∧ ∀ c ∈ rest.head?, c = '\n'

end StatLine

/-! ## Finding the field -/

theorem nextFields_eq {field : Nat} (h : field ≤ 22) (tokens : List Text) :
    nextFields field tokens = tokens[22 - field]? := by
  induction tokens generalizing field with
  | nil => rfl
  | cons token tokens ih =>
    rw [nextFields]
    split
    · rename_i hlt
      rw [ih hlt, show 22 - field = (22 - (field + 1)) + 1 by omega, List.getElem?_cons_succ]
    · rw [show 22 - field = 0 by omega, List.getElem?_cons_zero]

theorem not_mem_joinFields {c d : Char} (hcd : c ≠ d) {fields : List Text}
    (h : ∀ f ∈ fields, c ∉ f) : c ∉ joinFields d fields := by
  cases fields with
  | nil => simp [joinFields]
  | cons f fs =>
    simp only [joinFields, List.mem_append, List.mem_flatMap, List.mem_cons, not_or, not_exists,
      not_and]
    exact ⟨h f (by simp), fun g hg => ⟨hcd, h g (by simp [hg])⟩⟩

variable {l : StatLine}

/-- The token is the field 22, at most with the newline of the line. -/
theorem startToken_line {tail : Text} (htail : tail = [] ∨ tail = ['\n']) :
    ∃ t, startToken (l.text ++ tail) = some (l.start ++ t) ∧ (t = [] ∨ t = ['\n']) := by
  have hnot : ')' ∉ joinFields ' ' l.fields ++ tail := by
    rw [List.mem_append, not_or]
    refine ⟨not_mem_joinFields (by decide) fun f hf => (l.plain f hf).2.2.1, ?_⟩
    rcases htail with rfl | rfl <;> decide
  have htext : l.text ++ tail =
      (l.pid ++ " (".toList ++ l.comm) ++ ')' :: ' ' :: (joinFields ' ' l.fields ++ tail) := by
    simp [StatLine.text]
  have hlast : strrchr ')' (l.text ++ tail) =
      some (')' :: ' ' :: (joinFields ' ' l.fields ++ tail)) := by
    rw [htext]
    exact CString.strrchr_append _ (by simpa using hnot)
  have hstart : l.fields[19]? = some l.start := List.getElem?_eq_getElem l.many
  have hblank : ' ' ∉ tail := by
    rcases htail with rfl | rfl <;> decide
  obtain ⟨t, htoken, ht⟩ := CString.strtok_joinFields
    (fun f hf => ⟨(l.plain f hf).1, (l.plain f hf).2.1⟩) hblank hstart
  refine ⟨t, ?_, ?_⟩
  · rw [startToken, hlast]
    show nextFields 3 (strtok ' ' (joinFields ' ' l.fields ++ tail)) = _
    rw [nextFields_eq (by decide), htoken]
  · rcases ht with rfl | rfl
    · exact .inl rfl
    · exact htail

/-! ## The three parsers -/

variable {stat : Text}

theorem text_ne_nil (l : StatLine) : l.text ≠ [] := by
  simp [StatLine.text]

theorem newline_not_mem_text (l : StatLine) : '\n' ∉ l.text := by
  have hfields : '\n' ∉ joinFields ' ' l.fields :=
    not_mem_joinFields (by decide) fun f hf => (l.plain f hf).2.2.2
  simp [StatLine.text, l.oneLine, hfields]

/-- All of them convert the same token. -/
theorem exists_startToken (hfile : l.InFile stat) (hlength : l.text.length < 4096) :
    ∃ token, (fgets 4096 stat).bind startToken = some token ∧
      strtoull token = strtoull l.start := by
  obtain ⟨rest, rfl, hrest⟩ := hfile
  obtain ⟨tail, hgets, htail⟩ :=
    CString.fgets_line (text_ne_nil l) (newline_not_mem_text l) hrest hlength
  obtain ⟨t, htoken, ht⟩ := startToken_line (l := l) htail
  refine ⟨l.start ++ t, by rw [hgets, Option.bind_some, htoken], ?_⟩
  rcases ht with rfl | rfl
  · rw [List.append_nil]
  · exact CString.strtoull_append_newline _

theorem shimStartTime_line (hfile : l.InFile stat) (hlength : l.text.length < 4096) :
    shimStartTime (some stat) = strtoull l.start := by
  obtain ⟨token, htoken, hvalue⟩ := exists_startToken hfile hlength
  rw [shimStartTime, Option.bind_some, htoken]
  exact hvalue

theorem initStartTime_line {initPid : Int} (hpid : 0 < initPid) (hfile : l.InFile stat)
    (hlength : l.text.length < 4096) : initStartTime initPid (some stat) = strtoull l.start := by
  rw [initStartTime, if_pos hpid]
  exact shimStartTime_line hfile hlength

theorem processStartTime_line (hfile : l.InFile stat) (hlength : l.text.length < 4096) :
    processStartTime (some stat) = strtoull l.start := by
  obtain ⟨token, htoken, hvalue⟩ := exists_startToken hfile hlength
  obtain ⟨line, hline, hstart⟩ := Option.bind_eq_some_iff.mp htoken
  rw [processStartTime, Option.bind_some, hline]
  dsimp only
  rw [hstart]
  exact hvalue

/-- A recorded start time is read back as it is. -/
theorem sameStart_recorded (start : UInt64) :
    sameStart (some stat) (recorded start) = (processStartTime (some stat) == start) := by
  rw [sameStart, recorded, JsonC.Value.getUint64_int, UInt64.ofNat_toNat]

/-- What digits denote, as far as 64 bits go. -/
theorem strtoull_denotes {s : Text} {n : Nat} (h : DenotesNumber s n) :
    (strtoull s).toNat = min n (2 ^ 64 - 1) := by
  obtain ⟨hne, hdigits, rfl⟩ := h
  by_cases hlt : Nat.ofDigitChars 10 s 0 < 2 ^ 64
  · rw [CString.strtoull_digits hne hdigits hlt]
    omega
  · rw [CString.strtoull_saturates hne hdigits (by omega)]
    omega

/-- For every line in a file that fits into the buffer, whatever the name of the process: the
    three parsers agree and read the number that the field 22 denotes, cut off at the largest
    of 64 bits; and start times that were recorded from one line and are compared with another
    one differ only if the fields 22 differ. -/
theorem startTime_eq (l : StatLine) (stat : Text) (hfile : l.InFile stat)
    (hlength : l.text.length < 4096) :
    (∀ n, DenotesNumber l.start n → (processStartTime (some stat)).toNat = min n (2 ^ 64 - 1)) ∧
    shimStartTime (some stat) = processStartTime (some stat) ∧
    (∀ initPid, 0 < initPid → initStartTime initPid (some stat) = processStartTime (some stat)) ∧
    sameStart (some stat) (recorded (shimStartTime (some stat))) = true ∧
    ∀ (l' : StatLine) (stat' : Text), l'.InFile stat' → l'.text.length < 4096 →
      sameStart (some stat') (recorded (shimStartTime (some stat))) = false →
        l'.start ≠ l.start := by
  refine ⟨fun n hn => ?_, ?_, fun initPid hpid => ?_, ?_, ?_⟩
  · rw [processStartTime_line hfile hlength, strtoull_denotes hn]
  · rw [processStartTime_line hfile hlength, shimStartTime_line hfile hlength]
  · rw [processStartTime_line hfile hlength, initStartTime_line hpid hfile hlength]
  · rw [sameStart_recorded, processStartTime_line hfile hlength, shimStartTime_line hfile hlength]
    exact beq_self_eq_true _
  · intro l' stat' hfile' hlength' hdiffers hstart
    rw [sameStart_recorded, processStartTime_line hfile' hlength',
      shimStartTime_line hfile hlength, hstart] at hdiffers
    simp at hdiffers

/-- A line of a process called `a) (b` with this field 22. -/
def lineWith (start : Text) (h : start ≠ [] ∧ ' ' ∉ start ∧ ')' ∉ start ∧ '\n' ∉ start) :
    StatLine where
  pid := "7".toList
  comm := "a) (b".toList
  fields := List.replicate 19 "0".toList ++ [start]
  many := by simp
  plain := by
    intro f hf
    rcases List.mem_append.mp hf with hf | hf
    · rw [List.eq_of_mem_replicate hf]
      decide
    · rw [List.mem_singleton.mp hf]
      exact h
  oneLine := by decide

/-- The start time of such a line is read. -/
theorem startTime_parentheses :
    (lineWith "4711".toList (by decide)).text =
        "7 (a) (b) 0 0 0 0 0 0 0 0 0 0 0 0 0 0 0 0 0 0 0 4711".toList ∧
      (processStartTime (some (lineWith "4711".toList (by decide)).text)).toNat = 4711 := by
  have hfile : (lineWith "4711".toList (by decide)).InFile
      (lineWith "4711".toList (by decide)).text := ⟨[], by simp, by simp⟩
  refine ⟨by decide +kernel, ?_⟩
  exact (startTime_eq _ _ hfile (by decide +kernel)).1 4711
    ⟨by decide, List.all_eq_true.mp (by decide), by decide⟩

/-- A field that denotes `2 ^ 64` is not read as the number it denotes. -/
theorem startTime_saturates :
    DenotesNumber (lineWith "18446744073709551616".toList (by decide)).start (2 ^ 64) ∧
      (processStartTime (some
        (lineWith "18446744073709551616".toList (by decide)).text)).toNat = 2 ^ 64 - 1 := by
  have hstart : (lineWith "18446744073709551616".toList (by decide)).start =
      "18446744073709551616".toList := rfl
  rw [hstart]
  exact ⟨⟨by decide, List.all_eq_true.mp (by decide), by decide +kernel⟩, by decide +kernel⟩

end MiniContainer.ProcStat
