import Mathlib.Algebra.Order.Floor.Semifield
import Mathlib.Data.Rat.Floor
import Mathlib.Tactic.FieldSimp
import Mathlib.Tactic.Linarith
import Mathlib.Tactic.NormNum
import Mathlib.Tactic.Ring
import MiniContainer.Native.Parse

/-!
# Sizes and processor quotas

What `mc_parse_bytes` and `mc_parse_cpu_quota` accept, against the numbers that the texts
denote. A size is read by `strtoull`, which accepts white space and a sign in front of its
digits; only a minus sign at the very start is refused. A quota is read digit by digit,
and no intermediate value leaves 64 bits.
-/

namespace MiniContainer

open CString (Text Numeral NoDigit strtou)

/-! ## Sizes -/

/-- The suffixes of a size, with their multipliers. -/
def sizeSuffixes : List (Text × Nat) :=
  [("".toList, 1), ("b".toList, 1),
    ("k".toList, 2 ^ 10), ("ki".toList, 2 ^ 10), ("kib".toList, 2 ^ 10),
    ("m".toList, 2 ^ 20), ("mi".toList, 2 ^ 20), ("mib".toList, 2 ^ 20),
    ("g".toList, 2 ^ 30), ("gi".toList, 2 ^ 30), ("gib".toList, 2 ^ 30)]

/-- The text is a positive number of bytes below `2 ^ 64`: decimal digits and a suffix, in upper
    or lower case. -/
def DenotesBytes (s : Text) (bytes : Nat) : Prop :=
  ∃ digits suffix k, s = digits ++ suffix ∧ digits ≠ [] ∧ (∀ c ∈ digits, c.isDigit = true) ∧
    (suffix.map Char.toLower, k) ∈ sizeSuffixes ∧ 1 ≤ Nat.ofDigitChars 10 digits 0 ∧
    Nat.ofDigitChars 10 digits 0 * k < 2 ^ 64 ∧ bytes = Nat.ofDigitChars 10 digits 0 * k

/-- A number as `strtoull` reads it, and a suffix, that together make a size. -/
structure SizeReading (n : Numeral) (suffix : Text) (k : Nat) : Prop where
  suffix : (suffix.map Char.toLower, k) ∈ sizeSuffixes
  fits : n.magnitude < 2 ^ 64
  pos : 1 ≤ n.value 64
  lt : n.value 64 * k < 2 ^ 64

/-- The text is read as a size although white space or a sign stands in front of its digits. -/
def Decorated (s : Text) : Prop :=
  s.head? ≠ some '-' ∧ ∃ (n : Numeral) (suffix : Text) (k : Nat),
    s = n.text ++ suffix ∧ n.spaces ++ n.sign ≠ [] ∧ SizeReading n suffix k

theorem suffixMultiplier_eq_some_iff {suffix : Text} {k : Nat} :
    suffixMultiplier suffix = some k ↔ (suffix, k) ∈ sizeSuffixes := by
  constructor
  · intro h
    unfold suffixMultiplier at h
    split at h
    · rename_i hsuffix
      cases h
      rcases hsuffix with rfl | rfl <;> decide
    · split at h
      · rename_i hsuffix
        cases h
        rcases hsuffix with rfl | rfl | rfl <;> decide
      · split at h
        · rename_i hsuffix
          cases h
          rcases hsuffix with rfl | rfl | rfl <;> decide
        · split at h
          · rename_i hsuffix
            cases h
            rcases hsuffix with rfl | rfl | rfl <;> decide
          · exact nomatch h
  · intro h
    have hall : ∀ e ∈ sizeSuffixes, suffixMultiplier e.1 = some e.2 := by decide
    exact hall _ h

/-- No suffix is long, and none begins with a digit. -/
theorem size_suffix {suffix : Text} {k : Nat} (h : (suffix.map Char.toLower, k) ∈ sizeSuffixes) :
    suffix.length < 8 ∧ NoDigit suffix ∧ 0 < k := by
  have hall : ∀ e ∈ sizeSuffixes,
      e.1.length < 8 ∧ (e.1.head?.all fun c => !c.isDigit) = true ∧ 0 < e.2 := by decide
  obtain ⟨hlength, hhead, hpos⟩ := hall _ h
  refine ⟨by simpa using hlength, ?_, hpos⟩
  cases suffix with
  | nil => exact CString.noDigit_nil
  | cons c suffix =>
    rw [CString.noDigit_cons]
    by_contra hc
    -- a digit stays what it is in lower case
    have hlower : c.toLower = c := by
      simp only [Bool.not_eq_false, Char.isDigit, Bool.and_eq_true, decide_eq_true_eq] at hc
      delta Char.toLower
      rw [dif_neg]
      rintro ⟨hle, -⟩
      exact absurd (UInt32.le_trans hle hc.2) (by decide)
    simp only [List.map_cons, List.head?_cons, Option.all_some, hlower] at hhead
    simp_all

theorem parseBytes_eq_some_iff {s : Text} {bytes : UInt64} :
    parseBytes s = some bytes ↔ s.head? ≠ some '-' ∧
      ∃ (n : Numeral) (suffix : Text) (k : Nat), s = n.text ++ suffix ∧
        SizeReading n suffix k ∧ bytes.toNat = n.value 64 * k := by
  constructor
  · intro h
    unfold parseBytes at h
    split at h
    · exact nomatch h
    · rename_i hstart
      split at h
      · exact nomatch h
      · rename_i c hc
        obtain ⟨n, htext, hrest⟩ := CString.exists_numeral hc
        rw [htext, CString.strtou_numeral n hrest] at hc
        split at h
        · exact nomatch h
        · rename_i hvalid
          simp only [not_or, Bool.not_eq_true] at hvalid
          obtain ⟨herange, hzero, -⟩ := hvalid
          split at h
          · exact nomatch h
          · rename_i k hk
            split at h
            · exact nomatch h
            · rename_i hoverflow
              cases h
              split at hc
              · rw [← Option.some.inj hc] at herange
                exact nomatch herange
              · rename_i hfits
                have hvalue : c.value = n.value 64 := by rw [← Option.some.inj hc]
                have hmem := suffixMultiplier_eq_some_iff.mp hk
                have hpos := (size_suffix hmem).2.2
                have hlt : n.value 64 * k < 2 ^ 64 := by
                  rw [hvalue, Nat.not_lt, Nat.le_div_iff_mul_le hpos] at hoverflow
                  omega
                refine ⟨fun hhead => hstart (.inr hhead), n, c.rest, k, htext,
                  ⟨hmem, by omega, by omega, hlt⟩, ?_⟩
                rw [hvalue, UInt64.toNat_ofNat_of_lt' hlt]
  · rintro ⟨hhead, n, suffix, k, rfl, hreading, hbytes⟩
    obtain ⟨hlength, hrest, hpos⟩ := size_suffix hreading.suffix
    have hfits := hreading.fits
    have hvalue := hreading.pos
    have hne : n.text ++ suffix ≠ [] := by
      have := n.digits_ne_nil
      simp [Numeral.text, this]
    have hbound : ¬(2 ^ 64 - 1) / k < n.value 64 := by
      have := hreading.lt
      rw [Nat.not_lt, Nat.le_div_iff_mul_le hpos]
      omega
    unfold parseBytes
    rw [if_neg (not_or.mpr ⟨hne, hhead⟩), CString.strtou_numeral n hrest,
      if_neg (Nat.not_le.mpr hfits)]
    simp only [suffixMultiplier_eq_some_iff.mpr hreading.suffix]
    rw [if_neg (by simp; omega), if_neg hbound, ← hbytes, UInt64.ofNat_toNat]

/-- `mc_parse_bytes` is exact on a text if and only if the text is not a size behind white space
    or a sign. -/
theorem parseBytes_exact_iff (s : Text) :
    (∀ bytes : UInt64, parseBytes s = some bytes ↔ DenotesBytes s bytes.toNat) ↔ ¬Decorated s := by
  constructor
  · rintro hexact ⟨hhead, n, suffix, k, htext, hdecorated, hreading⟩
    have hlt := hreading.lt
    have hparse : parseBytes s = some (UInt64.ofNat (n.value 64 * k)) :=
      parseBytes_eq_some_iff.mpr ⟨hhead, n, suffix, k, htext, hreading,
        UInt64.toNat_ofNat_of_lt' hlt⟩
    -- a documented size begins with a digit
    obtain ⟨digits, suffix', k', htext', hne, hdigits, -⟩ := (hexact _).mp hparse
    have hdigit : ∀ c ∈ s.head?, c.isDigit = true := by
      intro c hc
      cases digits with
      | nil => exact absurd rfl hne
      | cons d digits =>
        rw [htext'] at hc
        obtain rfl := Option.some.inj hc
        exact hdigits d List.mem_cons_self
    rw [htext, Numeral.text, List.append_assoc] at hdigit
    cases hspaces : n.spaces with
    | cons c spaces =>
      have hspace := n.isSpace_of_mem c (hspaces ▸ List.mem_cons_self)
      have hc := hdigit c (by simp [hspaces])
      cases (CString.not_space_of_isDigit hc).1.symm.trans hspace
    | nil =>
      rw [hspaces, List.nil_append] at hdecorated hdigit
      rcases n.sign_cases with hsign | hsign | hsign
      · exact hdecorated hsign
      · exact absurd (hdigit '+' (by simp [hsign])) (by decide)
      · exact absurd (hdigit '-' (by simp [hsign])) (by decide)
  · intro hplain bytes
    rw [parseBytes_eq_some_iff]
    constructor
    · rintro ⟨hhead, n, suffix, k, htext, hreading, hbytes⟩
      have hbare : n.spaces ++ n.sign = [] := by
        by_contra hdecorated
        exact hplain ⟨hhead, n, suffix, k, htext, hdecorated, hreading⟩
      obtain ⟨hspaces, hsign⟩ := List.append_eq_nil_iff.mp hbare
      have hvalue : n.value 64 = Nat.ofDigitChars 10 n.digits 0 := by
        simp [Numeral.value, Numeral.magnitude, hsign]
      refine ⟨n.digits, suffix, k, ?_, n.digits_ne_nil, n.isDigit_of_mem, hreading.suffix,
        ?_, ?_, ?_⟩
      · rw [htext, Numeral.text, hspaces, hsign, List.nil_append, List.nil_append]
      · exact hvalue ▸ hreading.pos
      · exact hvalue ▸ hreading.lt
      · exact hvalue ▸ hbytes
    · rintro ⟨digits, suffix, k, rfl, hne, hdigits, hsuffix, hpos, hlt, hbytes⟩
      have hk := (size_suffix hsuffix).2.2
      have hfits : Nat.ofDigitChars 10 digits 0 < 2 ^ 64 :=
        Nat.lt_of_le_of_lt (Nat.le_mul_of_pos_right _ hk) hlt
      refine ⟨?_, ⟨[], [], digits, by simp, .inl rfl, hne, hdigits⟩, suffix, k, rfl,
        ⟨hsuffix, hfits, hpos, hlt⟩, hbytes⟩
      cases digits with
      | nil => exact absurd rfl hne
      | cons d digits =>
        intro hminus
        cases hminus
        exact absurd (hdigits '-' List.mem_cons_self) (by decide)

/-- White space and a sign get through. -/
theorem parseBytes_accepts_sign :
    parseBytes "+5".toList = some 5 ∧ parseBytes " -1".toList = some 0xffffffffffffffff ∧
      (∀ n, ¬DenotesBytes "+5".toList n) ∧ ∀ n, ¬DenotesBytes " -1".toList n := by
  have hfirst : ∀ s : Text, (s.head?.all fun c => !c.isDigit) = true → ∀ n, ¬DenotesBytes s n := by
    rintro s hs n ⟨digits, suffix, k, rfl, hne, hdigits, -⟩
    cases digits with
    | nil => exact hne rfl
    | cons d digits => simp [hdigits d List.mem_cons_self] at hs
  exact ⟨by decide, by decide, hfirst _ (by decide), hfirst _ (by decide)⟩

/-! ## Processor quotas -/

/-- A decimal fraction: the digits in front of the dot and behind it. -/
structure Fraction where
  whole : Text
  part : Text
  isDigit_of_mem : ∀ c ∈ whole ++ part, c.isDigit = true
  ne_nil : whole ++ part ≠ []

namespace Fraction

/-- How the fraction is written. The dot may be left out where nothing stands behind it. -/
def Writes (d : Fraction) (s : Text) : Prop :=
  s = d.whole ++ '.' :: d.part ∨ (s = d.whole ∧ d.part = [])

/-- The number that it denotes. -/
def value (d : Fraction) : ℚ :=
  Nat.ofDigitChars 10 d.whole 0 + Nat.ofDigitChars 10 d.part 0 / 10 ^ d.part.length

/-- The millionths of a processor as the code computes them. -/
def micros (d : Fraction) : Nat :=
  Nat.ofDigitChars 10 d.whole 0 * 1000000 +
    Nat.ofDigitChars 10 d.part 0 * 1000000 / 10 ^ d.part.length

/-- Nothing is lost in the division by the scale. -/
theorem micros_eq (d : Fraction) (h : d.part.length ≤ 6) : (d.micros : ℚ) = d.value * 1000000 := by
  have hmillion : 1000000 = 10 ^ (6 - d.part.length) * 10 ^ d.part.length := by
    rw [← Nat.pow_add, Nat.sub_add_cancel h]
  have hdiv : Nat.ofDigitChars 10 d.part 0 * 1000000 / 10 ^ d.part.length =
      Nat.ofDigitChars 10 d.part 0 * 10 ^ (6 - d.part.length) := by
    rw [hmillion, ← Nat.mul_assoc]
    exact Nat.mul_div_cancel _ (Nat.pow_pos (by omega))
  have hscale : (10 : ℚ) ^ (6 - d.part.length) * 10 ^ d.part.length = 1000000 := by
    rw [← pow_add, Nat.sub_add_cancel h]
    norm_num
  rw [micros, hdiv, value]
  push_cast
  field_simp
  rw [← hscale]
  ring

/-- The microseconds in a period that the fraction stands for. -/
theorem floor_value (d : Fraction) (h : d.part.length ≤ 6) :
    ⌊d.value * 100000⌋₊ = d.micros * 100000 / 1000000 := by
  have hvalue : d.value * 100000 = ((d.micros * 100000 : Nat) : ℚ) / (1000000 : Nat) := by
    push_cast
    rw [d.micros_eq h]
    field_simp
  rw [hvalue, Nat.floor_div_eq_div]

theorem value_le_iff (d : Fraction) (h : d.part.length ≤ 6) :
    d.value ≤ 1024 ↔ d.micros ≤ 1024 * 1000000 := by
  rw [← Nat.cast_le (α := ℚ), d.micros_eq h]
  push_cast
  constructor
  · intro hle
    linarith
  · intro hle
    linarith

end Fraction

/-- The text denotes a number of processors up to 1024, with at most six digits behind the dot,
    and so many microseconds in a period of 100 ms, at least one. -/
def DenotesQuota (s : Text) (quota : Nat) : Prop :=
  ∃ d : Fraction, d.Writes s ∧ d.part.length ≤ 6 ∧ d.value ≤ 1024 ∧
    quota = ⌊d.value * 100000⌋₊ ∧ 1 ≤ quota

/-- One iteration of the loop of `mc_parse_cpu_quota`. -/
def cpuStep (s : CpuScan) (c : Char) : Option CpuScan :=
  if c = '.' then
    if s.seenDot then none else some { s with seenDot := true }
  else if !c.isDigit then none
  else
    let digit := c.toNat - '0'.toNat
    if !s.seenDot then
      if 1024 < s.whole then none
      else some { s with seenDigit := true, whole := s.whole * 10 + digit }
    else if s.scale < 1000000 then
      some { s with
        seenDigit := true, fraction := s.fraction * 10 + digit, scale := s.scale * 10 }
    else none

/-- The values that one iteration computes. -/
def cpuStepValues (s : CpuScan) (c : Char) : List Nat :=
  if c = '.' ∨ !c.isDigit then []
  else
    let digit := c.toNat - '0'.toNat
    if !s.seenDot then
      if 1024 < s.whole then [] else [s.whole * 10, s.whole * 10 + digit]
    else if s.scale < 1000000 then
      [s.fraction * 10, s.fraction * 10 + digit, s.scale * 10]
    else []

/-- The values that the loop computes. -/
def cpuScanValues (s : CpuScan) : Text → List Nat
  | [] => []
  | c :: rest => cpuStepValues s c ++ (cpuStep s c).elim [] (cpuScanValues · rest)

/-- The values that `mc_parse_cpu_quota` computes behind the loop. -/
def cpuEndValues (s : CpuScan) : List Nat :=
  if !s.seenDigit ∨ 1024 < s.whole then []
  else
    let micros := s.whole * 1000000 + s.fraction * 1000000 / s.scale
    [s.whole * 1000000, s.fraction * 1000000, micros] ++
      if micros = 0 ∨ 1024 * 1000000 < micros then [] else [micros * 100000]

/-- The values that `mc_parse_cpu_quota` computes. -/
def cpuQuotaValues (value : Text) : List Nat :=
  cpuScanValues ⟨0, 0, 1, false, false⟩ value ++
    ((cpuScan ⟨0, 0, 1, false, false⟩ value).elim [] cpuEndValues)

/-! ### One iteration -/

theorem cpuScan_cons (s : CpuScan) (c : Char) (rest : Text) :
    cpuScan s (c :: rest) = (cpuStep s c).bind (cpuScan · rest) := by
  rw [cpuScan, cpuStep]
  split
  · split <;> rfl
  · split
    · rfl
    · dsimp only
      split
      · split <;> rfl
      · split <;> rfl

/-- What one iteration can do. -/
inductive CpuStep (s : CpuScan) : Char → CpuScan → Prop where
  | dot (h : s.seenDot = false) : CpuStep s '.' { s with seenDot := true }
  | whole {c : Char} (hc : c.isDigit = true) (h : s.seenDot = false) (hle : s.whole ≤ 1024) :
      CpuStep s c { s with seenDigit := true, whole := s.whole * 10 + (c.toNat - '0'.toNat) }
  | fraction {c : Char} (hc : c.isDigit = true) (h : s.seenDot = true) (hlt : s.scale < 1000000) :
      CpuStep s c { s with
        seenDigit := true
        fraction := s.fraction * 10 + (c.toNat - '0'.toNat)
        scale := s.scale * 10 }

theorem cpuStep_eq_some_iff {s s' : CpuScan} {c : Char} :
    cpuStep s c = some s' ↔ CpuStep s c s' := by
  constructor
  · intro h
    unfold cpuStep at h
    split at h
    · rename_i hc
      subst hc
      split at h
      · exact nomatch h
      · rename_i hdot
        exact Option.some.inj h ▸ .dot (Bool.not_eq_true _ ▸ hdot)
    · split at h
      · exact nomatch h
      · rename_i hc
        have hdigit : c.isDigit = true := by simpa using hc
        dsimp only at h
        split at h
        · rename_i hdot
          split at h
          · exact nomatch h
          · rename_i hle
            exact Option.some.inj h ▸ .whole hdigit (by simpa using hdot) (Nat.not_lt.mp hle)
        · rename_i hdot
          split at h
          · rename_i hlt
            exact Option.some.inj h ▸ .fraction hdigit (by simpa using hdot) hlt
          · exact nomatch h
  · intro h
    unfold cpuStep
    cases h with
    | dot hdot => simp [hdot]
    | whole hc hdot hle =>
      have hne : c ≠ '.' := by
        rintro rfl
        exact absurd hc (by decide)
      simp [hne, hc, hdot, Nat.not_lt.mpr hle]
    | fraction hc hdot hlt =>
      have hne : c ≠ '.' := by
        rintro rfl
        exact absurd hc (by decide)
      simp [hne, hc, hdot, hlt]

/-! ### No overflow -/

theorem digit_le {c : Char} (h : c.isDigit = true) : c.toNat - '0'.toNat ≤ 9 := by
  simp only [Char.isDigit, Bool.and_eq_true, decide_eq_true_eq] at h
  have hle : c.val.toNat ≤ '9'.val.toNat := UInt32.le_iff_toNat_le.mp h.2
  have hnine : '9'.val.toNat = 57 := by decide
  have hzero : '0'.toNat = 48 := by decide
  have hval : c.toNat = c.val.toNat := rfl
  omega

/-- What is known of the accumulators at any time. -/
structure CpuScan.Bounded (s : CpuScan) : Prop where
  whole : s.whole ≤ 10249
  fraction : s.fraction < s.scale
  scale : ∃ k ≤ 6, s.scale = 10 ^ k

theorem CpuScan.Bounded.scale_le {s : CpuScan} (h : s.Bounded) : s.scale ≤ 1000000 := by
  obtain ⟨k, hk, hscale⟩ := h.scale
  have : (10 : Nat) ^ k ≤ 10 ^ 6 := Nat.pow_le_pow_right (by omega) hk
  omega

/-- A scale below a million leaves room for a digit. -/
theorem CpuScan.Bounded.scale_next {s : CpuScan} (h : s.Bounded) (hlt : s.scale < 1000000) :
    ∃ k ≤ 6, s.scale * 10 = 10 ^ k := by
  obtain ⟨k, hk, hscale⟩ := h.scale
  have hlt' : (10 : Nat) ^ k < 10 ^ 6 := by omega
  have hk' : k < 6 := (Nat.pow_lt_pow_iff_right (by omega)).mp hlt'
  exact ⟨k + 1, hk', by rw [hscale, Nat.pow_succ]⟩

theorem CpuStep.bounded {s s' : CpuScan} {c : Char} (h : CpuStep s c s') (hs : s.Bounded) :
    s'.Bounded := by
  cases h with
  | dot hdot => exact ⟨hs.whole, hs.fraction, hs.scale⟩
  | whole hc hdot hle =>
    have := digit_le hc
    exact ⟨by dsimp only; omega, hs.fraction, hs.scale⟩
  | fraction hc hdot hlt =>
    have := digit_le hc
    have := hs.fraction
    exact ⟨hs.whole, by dsimp only; omega, hs.scale_next hlt⟩

theorem cpuStepValues_lt {s : CpuScan} (hs : s.Bounded) (c : Char) :
    ∀ v ∈ cpuStepValues s c, v < 2 ^ 64 := by
  have hwhole := hs.whole
  have hfraction := hs.fraction
  have hscale := hs.scale_le
  intro v hv
  unfold cpuStepValues at hv
  split at hv
  · exact nomatch hv
  · rename_i hc
    have hdigit := digit_le (c := c) (by simpa using (not_or.mp hc).2)
    dsimp only at hv
    split at hv
    · split at hv
      · exact nomatch hv
      · simp only [List.mem_cons, List.not_mem_nil, or_false] at hv
        omega
    · split at hv
      · simp only [List.mem_cons, List.not_mem_nil, or_false] at hv
        omega
      · exact nomatch hv

/-- The loop keeps its accumulators small, however long the text is. -/
theorem cpuScan_bounded {s : CpuScan} (hs : s.Bounded) (text : Text) :
    (∀ v ∈ cpuScanValues s text, v < 2 ^ 64) ∧ ∀ s', cpuScan s text = some s' → s'.Bounded := by
  induction text generalizing s with
  | nil => exact ⟨nofun, fun s' h => Option.some.inj h ▸ hs⟩
  | cons c text ih =>
    rw [cpuScanValues, cpuScan_cons]
    cases hstep : cpuStep s c with
    | none =>
      refine ⟨fun v hv => ?_, nofun⟩
      rw [Option.elim_none, List.append_nil] at hv
      exact cpuStepValues_lt hs c v hv
    | some s₁ =>
      obtain ⟨hvalues, hlast⟩ := ih ((cpuStep_eq_some_iff.mp hstep).bounded hs)
      refine ⟨fun v hv => ?_, hlast⟩
      rcases List.mem_append.mp hv with hv | hv
      · exact cpuStepValues_lt hs c v hv
      · exact hvalues v hv

theorem cpuEndValues_lt {s : CpuScan} (hs : s.Bounded) : ∀ v ∈ cpuEndValues s, v < 2 ^ 64 := by
  intro v hv
  have hfraction := hs.fraction
  have hscale := hs.scale_le
  -- the fraction of a processor is less than a whole one
  have hdiv : s.fraction * 1000000 / s.scale < 1000000 := by
    rw [Nat.div_lt_iff_lt_mul (by omega), Nat.mul_comm]
    exact Nat.mul_lt_mul_of_pos_left hfraction (by omega)
  unfold cpuEndValues at hv
  split at hv
  · exact nomatch hv
  · rename_i hwhole
    have hle := Nat.not_lt.mp (not_or.mp hwhole).2
    dsimp only at hv
    split at hv
    · simp only [List.append_nil, List.mem_cons, List.not_mem_nil, or_false] at hv
      omega
    · simp only [List.cons_append, List.nil_append, List.mem_cons, List.not_mem_nil, or_false] at hv
      omega

theorem bounded_start : CpuScan.Bounded ⟨0, 0, 1, false, false⟩ :=
  ⟨by decide, by decide, 0, by decide, rfl⟩

/-- No value that `mc_parse_cpu_quota` computes leaves 64 bits. -/
theorem cpuQuotaValues_lt (text : Text) : ∀ v ∈ cpuQuotaValues text, v < 2 ^ 64 := by
  obtain ⟨hvalues, hlast⟩ := cpuScan_bounded bounded_start text
  intro v hv
  rcases List.mem_append.mp hv with hv | hv
  · exact hvalues v hv
  · cases hscan : cpuScan ⟨0, 0, 1, false, false⟩ text with
    | none => simp [hscan] at hv
    | some s =>
      rw [hscan, Option.elim_some] at hv
      exact cpuEndValues_lt (hlast s hscan) v hv

/-! ### The value -/

/-- The loop behind the dot. -/
theorem cpuScan_fraction {w f k : Nat} {seen : Bool} (hk : k ≤ 6) (text : Text) (s : CpuScan) :
    cpuScan ⟨w, f, 10 ^ k, seen, true⟩ text = some s ↔
      (∀ c ∈ text, c.isDigit = true) ∧ k + text.length ≤ 6 ∧
        s = ⟨w, Nat.ofDigitChars 10 text f, 10 ^ (k + text.length),
          seen || !text.isEmpty, true⟩ := by
  induction text generalizing f k seen with
  | nil =>
    rw [cpuScan, Option.some.injEq, eq_comm]
    simp [hk]
  | cons c text ih =>
    rw [cpuScan_cons, Option.bind_eq_some_iff]
    constructor
    · rintro ⟨s₁, hstep, hrest⟩
      cases cpuStep_eq_some_iff.mp hstep with
      | dot hdot | whole hc hdot hle => exact nomatch hdot
      | fraction hc hdot hlt =>
        have hlt' : (10 : Nat) ^ k < 10 ^ 6 := by simpa using hlt
        have hk' : k < 6 := (Nat.pow_lt_pow_iff_right (by omega)).mp hlt'
        rw [← Nat.pow_succ, ih hk'] at hrest
        obtain ⟨hdigits, hlength, rfl⟩ := hrest
        refine ⟨?_, by simp only [List.length_cons]; omega, ?_⟩
        · intro d hd
          rcases List.mem_cons.mp hd with rfl | hd
          · exact hc
          · exact hdigits d hd
        · have hcomm : k + 1 + text.length = k + (c :: text).length := by
            simp only [List.length_cons]
            omega
          rw [Nat.ofDigitChars_cons, Nat.mul_comm f 10, hcomm]
          simp
    · rintro ⟨hdigits, hlength, rfl⟩
      simp only [List.length_cons] at hlength
      have hlt : (10 : Nat) ^ k < 1000000 :=
        Nat.lt_of_lt_of_le (Nat.pow_lt_pow_right (by omega) (by omega : k < 6)) (by omega)
      refine ⟨_, cpuStep_eq_some_iff.mpr (.fraction (hdigits c List.mem_cons_self) rfl hlt), ?_⟩
      dsimp only
      rw [← Nat.pow_succ, ih (by omega)]
      refine ⟨fun d hd => hdigits d (List.mem_cons_of_mem _ hd), by omega, ?_⟩
      have hcomm : k + 1 + text.length = k + (c :: text).length := by
        simp only [List.length_cons]
        omega
      rw [Nat.ofDigitChars_cons, Nat.mul_comm f 10, hcomm]
      simp

theorem le_ofDigitChars (text : Text) (w : Nat) : w ≤ Nat.ofDigitChars 10 text w := by
  rw [Nat.ofDigitChars_eq_ofDigitChars_zero]
  have : w ≤ 10 ^ text.length * w := Nat.le_mul_of_pos_left w (Nat.pow_pos (by omega))
  omega

/-- The accumulators behind a text that consists of these digits. -/
def CpuScan.reading (w : Nat) (seen : Bool) (whole part : Text) (dot : Bool) : CpuScan :=
  ⟨Nat.ofDigitChars 10 whole w, Nat.ofDigitChars 10 part 0, 10 ^ part.length,
    seen || !(whole ++ part).isEmpty, dot⟩

/-- A text that the loop reads to its end is a decimal fraction. -/
theorem cpuScan_sound {w : Nat} {seen : Bool} {text : Text} {s : CpuScan}
    (h : cpuScan ⟨w, 0, 1, seen, false⟩ text = some s) :
    ∃ whole part dot, (text = whole ++ '.' :: part ∨ (text = whole ∧ part = [])) ∧
      (∀ c ∈ whole ++ part, c.isDigit = true) ∧ part.length ≤ 6 ∧
      s = .reading w seen whole part dot := by
  induction text generalizing w seen with
  | nil =>
    cases h
    exact ⟨[], [], false, .inr ⟨rfl, rfl⟩, nofun, Nat.zero_le 6, by simp [CpuScan.reading]⟩
  | cons c text ih =>
    rw [cpuScan_cons, Option.bind_eq_some_iff] at h
    obtain ⟨s₁, hstep, hrest⟩ := h
    cases cpuStep_eq_some_iff.mp hstep with
    | dot hdot =>
      obtain ⟨hdigits, hlength, rfl⟩ := (cpuScan_fraction (k := 0) (by omega) text s).mp hrest
      exact ⟨[], text, true, .inl rfl, hdigits, by omega, by simp [CpuScan.reading]⟩
    | whole hc hdot hle =>
      obtain ⟨whole, part, dot, htext, hdigits, hlength, rfl⟩ := ih hrest
      refine ⟨c :: whole, part, dot, ?_, ?_, hlength, ?_⟩
      · rcases htext with rfl | ⟨rfl, rfl⟩
        · exact .inl rfl
        · exact .inr ⟨rfl, rfl⟩
      · intro d hd
        rcases List.mem_cons.mp hd with rfl | hd
        · exact hc
        · exact hdigits d hd
      · simp [CpuScan.reading, Nat.ofDigitChars_cons, Nat.mul_comm w 10]
    | fraction hc hdot hlt => exact nomatch hdot

/-- A decimal fraction whose whole part is small is read to its end. -/
theorem cpuScan_complete {w : Nat} {seen : Bool} {text whole part : Text}
    (htext : text = whole ++ '.' :: part ∨ (text = whole ∧ part = []))
    (hdigits : ∀ c ∈ whole ++ part, c.isDigit = true) (hlength : part.length ≤ 6)
    (hle : Nat.ofDigitChars 10 whole w ≤ 1024) :
    ∃ dot, cpuScan ⟨w, 0, 1, seen, false⟩ text = some (.reading w seen whole part dot) := by
  induction whole generalizing w seen text with
  | nil =>
    rcases htext with rfl | ⟨rfl, rfl⟩
    · refine ⟨true, ?_⟩
      rw [List.nil_append, cpuScan_cons, Option.bind_eq_some_iff]
      refine ⟨_, cpuStep_eq_some_iff.mpr (.dot rfl), ?_⟩
      exact (cpuScan_fraction (k := 0) (by omega) part _).mpr
        ⟨hdigits, by omega, by simp [CpuScan.reading]⟩
    · exact ⟨false, by simp [cpuScan, CpuScan.reading]⟩
  | cons c whole ih =>
    have hc := hdigits c List.mem_cons_self
    rw [Nat.ofDigitChars_cons, Nat.mul_comm 10 w] at hle
    have hw : w ≤ 1024 := by
      have := le_ofDigitChars whole (w * 10 + (c.toNat - '0'.toNat))
      omega
    obtain ⟨rest, hrest, htext'⟩ : ∃ rest, text = c :: rest ∧
        (rest = whole ++ '.' :: part ∨ (rest = whole ∧ part = [])) := by
      rcases htext with rfl | ⟨rfl, rfl⟩
      · exact ⟨_, rfl, .inl rfl⟩
      · exact ⟨_, rfl, .inr ⟨rfl, rfl⟩⟩
    obtain ⟨dot, hscan⟩ := @ih _ true _ htext'
      (fun d hd => hdigits d (List.mem_cons_of_mem _ hd)) hle
    refine ⟨dot, ?_⟩
    rw [hrest, cpuScan_cons, Option.bind_eq_some_iff]
    refine ⟨_, cpuStep_eq_some_iff.mpr (.whole hc rfl hw), ?_⟩
    dsimp only
    rw [hscan]
    simp [CpuScan.reading, Nat.ofDigitChars_cons, Nat.mul_comm w 10]

/-- A quota is accepted for its millionths of a processor. -/
theorem parseCpuQuota_eq_some_iff (text : Text) (quota : UInt64) :
    parseCpuQuota text = some quota ↔
      ∃ d : Fraction, d.Writes text ∧ d.part.length ≤ 6 ∧ d.micros ≤ 1024 * 1000000 ∧
        quota.toNat = d.micros * 100000 / 1000000 ∧ 1 ≤ quota.toNat := by
  constructor
  · intro h
    unfold parseCpuQuota at h
    split at h
    · exact nomatch h
    · split at h
      · exact nomatch h
      · rename_i s hscan
        obtain ⟨whole, part, dot, hwrites, hdigits, hlength, rfl⟩ := cpuScan_sound hscan
        split at h
        · exact nomatch h
        · rename_i hseen
          have hne : whole ++ part ≠ [] := by
            intro hnil
            simp [CpuScan.reading, hnil] at hseen
          -- the accumulators of the loop are those of a fraction
          let d : Fraction := ⟨whole, part, hdigits, hne⟩
          change (if d.micros = 0 ∨ 1024 * 1000000 < d.micros then none
            else if 0 < d.micros * 100000 / 1000000 then
              some (UInt64.ofNat (d.micros * 100000 / 1000000)) else none) = some quota at h
          split at h
          · exact nomatch h
          · rename_i hmicros
            have hle := Nat.not_lt.mp (not_or.mp hmicros).2
            split at h
            · rename_i hpos
              cases h
              have hquota : (UInt64.ofNat (d.micros * 100000 / 1000000)).toNat =
                  d.micros * 100000 / 1000000 :=
                UInt64.toNat_ofNat_of_lt' (by rw [UInt64.size]; omega)
              exact ⟨d, hwrites, hlength, hle, hquota, by omega⟩
            · exact nomatch h
  · rintro ⟨d, hwrites, hlength, hle, hquota, hpos⟩
    have hwhole : Nat.ofDigitChars 10 d.whole 0 ≤ 1024 := by
      have hmul := Nat.le_trans (Nat.le_add_right _ _) hle
      exact Nat.le_of_mul_le_mul_right hmul (by omega)
    obtain ⟨dot, hscan⟩ :=
      @cpuScan_complete 0 false _ _ _ hwrites d.isDigit_of_mem hlength hwhole
    have hnil : text ≠ [] := by
      intro hnil
      apply d.ne_nil
      rcases hwrites with h | ⟨h, hpart⟩
      · simp [hnil] at h
      · rw [hpart, ← h, hnil]
        rfl
    have hseen : ¬((!(CpuScan.reading 0 false d.whole d.part dot).seenDigit) = true ∨
        1024 < (CpuScan.reading 0 false d.whole d.part dot).whole) := by
      have hne := d.ne_nil
      simp only [CpuScan.reading, Bool.false_or, Bool.not_not, List.isEmpty_iff, hne, false_or]
      omega
    unfold parseCpuQuota
    rw [if_neg hnil, hscan]
    dsimp only
    rw [if_neg hseen]
    change (if d.micros = 0 ∨ 1024 * 1000000 < d.micros then none
      else if 0 < d.micros * 100000 / 1000000 then
        some (UInt64.ofNat (d.micros * 100000 / 1000000)) else none) = some quota
    rw [if_neg (by omega), if_pos (by omega), ← hquota, UInt64.ofNat_toNat]

/-- `mc_parse_cpu_quota` accepts the decimal fractions up to 1024 and returns the microseconds in a
    period exactly. Nothing that it computes leaves 64 bits, and the result is within the bound of
    the shim. -/
theorem parseCpuQuota_exact (text : Text) :
    (∀ quota : UInt64, parseCpuQuota text = some quota ↔ DenotesQuota text quota.toNat) ∧
      (∀ quota, parseCpuQuota text = some quota → quota.toNat ≤ 102400000) ∧
      ∀ v ∈ cpuQuotaValues text, v < 2 ^ 64 := by
  refine ⟨fun quota => ?_, fun quota h => ?_, cpuQuotaValues_lt text⟩
  · rw [parseCpuQuota_eq_some_iff, DenotesQuota]
    refine exists_congr fun d => and_congr_right fun _ => and_congr_right fun hlength => ?_
    rw [d.value_le_iff hlength, d.floor_value hlength]
  · obtain ⟨d, -, -, hle, hquota, -⟩ := (parseCpuQuota_eq_some_iff text quota).mp h
    omega

end MiniContainer
