import MiniContainer.ForStd.Tokens
import MiniContainer.Native.Parse

/-!
# Numbers on the command line

What `mc_parse_positive_u64`, `mc_parse_user` and `mc_parse_publish` accept, against the
texts that their grammars describe. All three leave the digits to `strtoull`, `strtoul` or
the `%u` of `sscanf`, which skip white space and take a sign, and the last of which keeps
the low 32 bits of what it has read. Apart from that the grammars are met exactly.
-/

namespace MiniContainer

open CString (Text Numeral NoDigit strtou append_cons_inj noDigit_cons noDigit_nil)

/-- The text is a number in decimal digits. -/
def DenotesNumber (s : Text) (n : Nat) : Prop :=
  s ≠ [] ∧ (∀ c ∈ s, c.isDigit = true) ∧ n = Nat.ofDigitChars 10 s 0

/-- A plain number denotes its magnitude. -/
theorem DenotesNumber.of_plain {n : Numeral} (h : n.Plain) : DenotesNumber n.text n.magnitude := by
  rw [h.text_eq]
  exact ⟨n.digits_ne_nil, n.isDigit_of_mem, rfl⟩

/-- A number whose text denotes a number is plain. -/
theorem DenotesNumber.plain {n : Numeral} {k : Nat} (h : DenotesNumber n.text k) :
    n.Plain ∧ k = n.magnitude := by
  have hplain := Numeral.plain_of_isDigit h.2.1
  refine ⟨hplain, ?_⟩
  rw [h.2.2, hplain.text_eq]
  rfl

/-- A text that denotes a number is the text of a plain one. -/
theorem DenotesNumber.exists_numeral {s : Text} {k : Nat} (h : DenotesNumber s k) :
    ∃ n : Numeral, n.text = s ∧ n.Plain ∧ n.magnitude = k :=
  ⟨Numeral.ofDigits s h.1 h.2.1, rfl, ⟨rfl, rfl⟩, h.2.2.symm⟩

/-! ## Counts -/

/-- A number as `mc_parse_positive_u64` accepts it. -/
structure CountReading (n : Numeral) (maximum : UInt64) : Prop where
  fits : n.magnitude < 2 ^ 64
  pos : 1 ≤ n.value 64
  le : n.value 64 ≤ maximum.toNat

/-- The text is accepted as a count although white space or a sign stands in front of its
    digits. -/
def DecoratedCount (s : Text) (maximum : UInt64) : Prop :=
  s.head? ≠ some '-' ∧ ∃ n : Numeral, s = n.text ∧ ¬n.Plain ∧ CountReading n maximum

theorem parsePositiveU64_eq_some_iff {s : Text} {maximum r : UInt64} :
    parsePositiveU64 s maximum = some r ↔ s.head? ≠ some '-' ∧
      ∃ n : Numeral, s = n.text ∧ CountReading n maximum ∧ r.toNat = n.value 64 := by
  constructor
  · intro h
    unfold parsePositiveU64 at h
    split at h
    · exact nomatch h
    · rename_i hstart
      split at h
      · exact nomatch h
      · rename_i c hc
        split at h
        · exact nomatch h
        · rename_i hvalid
          simp only [not_or, Bool.not_eq_true, ne_eq, not_not] at hvalid
          obtain ⟨v, erange, rest⟩ := c
          obtain ⟨rfl, rfl, hzero, hle⟩ := hvalid
          obtain ⟨n, htext, -, hfits, rfl⟩ := CString.strtou_eq_some_iff.mp hc
          dsimp only at hzero hle
          have hmax := maximum.toNat_lt
          have hbound : n.value 64 < 2 ^ 64 := by omega
          cases h
          refine ⟨fun hhead => hstart (.inr hhead), n, ?_, ⟨hfits, by omega, by omega⟩, ?_⟩
          · rw [htext, List.append_nil]
          · exact UInt64.toNat_ofNat_of_lt' hbound
  · rintro ⟨hhead, n, rfl, hreading, hvalue⟩
    have hread : strtou 64 n.text = some ⟨n.value 64, false, []⟩ :=
      CString.strtou_eq_some_iff.mpr
        ⟨n, (List.append_nil _).symm, noDigit_nil, hreading.fits, rfl⟩
    have hpos := hreading.pos
    have hle := hreading.le
    unfold parsePositiveU64
    rw [if_neg (not_or.mpr ⟨n.text_ne_nil, hhead⟩), hread]
    dsimp only
    rw [if_neg (by simp; omega), ← hvalue, UInt64.ofNat_toNat]

/-- `mc_parse_positive_u64` is exact on a text if and only if the text is not a count behind
    white space or a sign. -/
theorem parsePositiveU64_exact_iff (s : Text) (maximum : UInt64) :
    (∀ r : UInt64, parsePositiveU64 s maximum = some r ↔
      DenotesNumber s r.toNat ∧ 1 ≤ r.toNat ∧ r ≤ maximum) ↔ ¬DecoratedCount s maximum := by
  constructor
  · rintro hexact ⟨hhead, n, rfl, hdecorated, hreading⟩
    have hbound : n.value 64 < 2 ^ 64 :=
      Nat.lt_of_le_of_lt hreading.le maximum.toNat_lt
    have hparse : parsePositiveU64 n.text maximum = some (UInt64.ofNat (n.value 64)) :=
      parsePositiveU64_eq_some_iff.mpr
        ⟨hhead, n, rfl, hreading, UInt64.toNat_ofNat_of_lt' hbound⟩
    exact hdecorated ((hexact _).mp hparse).1.plain.1
  · intro hplain r
    rw [parsePositiveU64_eq_some_iff, UInt64.le_iff_toNat_le]
    constructor
    · rintro ⟨hhead, n, rfl, hreading, hvalue⟩
      have hbare : n.Plain := by
        by_contra hdecorated
        exact hplain ⟨hhead, n, rfl, hdecorated, hreading⟩
      have hmagnitude : r.toNat = n.magnitude := hvalue.trans (hbare.value_eq 64)
      exact ⟨hmagnitude ▸ .of_plain hbare, hvalue ▸ hreading.pos, hvalue ▸ hreading.le⟩
    · rintro ⟨hdenotes, hpos, hle⟩
      have hfirst : s.head? ≠ some '-' := by
        intro hminus
        exact absurd (hdenotes.2.1 '-' (List.mem_of_head? hminus)) (by decide)
      obtain ⟨n, rfl, hbare, hmagnitude⟩ := hdenotes.exists_numeral
      have hvalue : r.toNat = n.value 64 := hmagnitude.symm.trans (hbare.value_eq 64).symm
      exact ⟨hfirst, n, rfl, ⟨hmagnitude ▸ r.toNat_lt, hvalue ▸ hpos, hvalue ▸ hle⟩, hvalue⟩

/-! ## Users -/

/-- A number as `mc_parse_user` accepts it. -/
structure IdReading (n : Numeral) : Prop where
  fits : n.magnitude < 2 ^ 64
  le : n.value 64 ≤ 65535

/-- A plain decimal identity. -/
def DenotesId (s : Text) (n : Nat) : Prop := DenotesNumber s n ∧ n ≤ 65535

/-- The text is `U` or `U:G`. -/
def DenotesUser (s : Text) (user group : Nat) : Prop :=
  (DenotesId s user ∧ group = user) ∨
    ∃ u g, s = u ++ ':' :: g ∧ DenotesId u user ∧ DenotesId g group

/-- The text is accepted as a user although white space or a sign stands in front of digits. -/
def DecoratedUser (s : Text) : Prop :=
  (∃ n : Numeral, s = n.text ∧ ¬n.Plain ∧ IdReading n) ∨
    ∃ n m : Numeral, s = n.text ++ ':' :: m.text ∧ ¬(n.Plain ∧ m.Plain) ∧ IdReading n ∧ IdReading m

/-- A number holds no separator. -/
theorem not_mem_text (n : Numeral) {c : Char}
    (h : (CString.isSpace c || c == '+' || c == '-' || c.isDigit) = false) : c ∉ n.text := by
  intro hmem
  simp only [Bool.or_eq_false_iff, beq_eq_false_iff_ne] at h
  rcases Numeral.mem_text hmem with hspace | hplus | hminus | hdigit
  · exact absurd hspace (by simp [h.1.1.1])
  · exact h.1.1.2 hplus
  · exact h.1.2 hminus
  · exact absurd hdigit (by simp [h.2])

theorem colon_not_mem_text (n : Numeral) : ':' ∉ n.text := not_mem_text n (by decide)

theorem slash_not_mem_text (n : Numeral) : '/' ∉ n.text := not_mem_text n (by decide)

/-- What `strtoul` and the comparison with 65535 let through. -/
theorem strtou_id_iff {s rest : Text} {v : Nat} :
    (strtou 64 s = some ⟨v, false, rest⟩ ∧ ¬65535 < v) ↔
      ∃ n : Numeral, s = n.text ++ rest ∧ NoDigit rest ∧ IdReading n ∧ v = n.value 64 := by
  rw [CString.strtou_eq_some_iff]
  constructor
  · rintro ⟨⟨n, htext, hrest, hfits, rfl⟩, hle⟩
    exact ⟨n, htext, hrest, ⟨hfits, Nat.not_lt.mp hle⟩, rfl⟩
  · rintro ⟨n, htext, hrest, hreading, rfl⟩
    exact ⟨⟨n, htext, hrest, hreading.fits, rfl⟩, Nat.not_lt.mpr hreading.le⟩

/-- An identity that was read fits its member. -/
theorem toNat_ofNat_id {n : Numeral} (h : IdReading n) :
    (UInt32.ofNat (n.value 64)).toNat = n.value 64 :=
  UInt32.toNat_ofNat_of_lt' (Nat.lt_of_le_of_lt h.le (by decide))

theorem parseUser_eq_some_iff {s : Text} {user group : UInt32} :
    parseUser s = some (user, group) ↔
      (∃ n : Numeral, s = n.text ∧ IdReading n ∧ user.toNat = n.value 64 ∧
        group.toNat = n.value 64) ∨
      ∃ n m : Numeral, s = n.text ++ ':' :: m.text ∧ IdReading n ∧ IdReading m ∧
        user.toNat = n.value 64 ∧ group.toNat = m.value 64 := by
  constructor
  · intro h
    unfold parseUser at h
    split at h
    · exact nomatch h
    · split at h
      · exact nomatch h
      · rename_i c hc
        split at h
        · exact nomatch h
        · rename_i huser
          simp only [not_or, Bool.not_eq_true] at huser
          obtain ⟨v, erange, rest⟩ := c
          obtain ⟨rfl, hle⟩ := huser
          obtain ⟨n, htext, -, hreading, rfl⟩ := strtou_id_iff.mp ⟨hc, hle⟩
          split at h
          -- the number is the whole text
          · rename_i hrest
            subst hrest
            cases h
            rw [List.append_nil] at htext
            exact .inl ⟨n, htext, hreading, toNat_ofNat_id hreading, toNat_ofNat_id hreading⟩
          · rename_i groupStart hrest
            subst hrest
            split at h
            · exact nomatch h
            · rename_i d hd
              split at h
              · exact nomatch h
              · rename_i hgroup
                simp only [not_or, Bool.not_eq_true, ne_eq, not_not] at hgroup
                obtain ⟨v, erange, rest⟩ := d
                obtain ⟨rfl, hle, rfl⟩ := hgroup
                obtain ⟨m, rfl, -, hreading', rfl⟩ := strtou_id_iff.mp ⟨hd, hle⟩
                cases h
                rw [List.append_nil] at htext
                exact .inr ⟨n, m, htext, hreading, hreading', toNat_ofNat_id hreading,
                  toNat_ofNat_id hreading'⟩
          · exact nomatch h
  · rintro (⟨n, rfl, hreading, huser, hgroup⟩ | ⟨n, m, rfl, hreading, hreading', huser, hgroup⟩)
    · obtain ⟨hread, hle⟩ := strtou_id_iff.mpr
        ⟨n, (List.append_nil _).symm, noDigit_nil, hreading, rfl⟩
      unfold parseUser
      rw [if_neg n.text_ne_nil, hread]
      dsimp only
      rw [if_neg (by simpa using hreading.le), ← huser, UInt32.ofNat_toNat]
      rw [← UInt32.toNat_inj.mp (huser.trans hgroup.symm)]
    · obtain ⟨hread, hle⟩ := strtou_id_iff.mpr
        ⟨n, rfl, (noDigit_cons ':' m.text).mpr (by decide), hreading, rfl⟩
      obtain ⟨hread', hle'⟩ := strtou_id_iff.mpr
        ⟨m, (List.append_nil _).symm, noDigit_nil, hreading', rfl⟩
      unfold parseUser
      rw [if_neg (by simp), hread]
      dsimp only
      rw [if_neg (by simpa using hreading.le)]
      simp only [hread']
      rw [if_neg (by simpa using hreading'.le), ← huser, ← hgroup, UInt32.ofNat_toNat,
        UInt32.ofNat_toNat]

/-- A plain identity denotes its value. -/
theorem DenotesId.of_plain {n : Numeral} (h : n.Plain) (hreading : IdReading n) :
    DenotesId n.text (n.value 64) := by
  refine ⟨?_, hreading.le⟩
  rw [h.value_eq]
  exact .of_plain h

/-- A text that denotes an identity is accepted as it. -/
theorem DenotesId.exists_numeral {s : Text} {k : Nat} (h : DenotesId s k) :
    ∃ n : Numeral, n.text = s ∧ n.Plain ∧ IdReading n ∧ n.value 64 = k := by
  obtain ⟨n, htext, hplain, hmagnitude⟩ := h.1.exists_numeral
  have hvalue : n.value 64 = k := (hplain.value_eq 64).trans hmagnitude
  have hle := h.2
  exact ⟨n, htext, hplain, ⟨by omega, by omega⟩, hvalue⟩

/-- `mc_parse_user` is exact on a text if and only if the text is not a user with white space or a
    sign in front of digits. -/
theorem parseUser_exact_iff (s : Text) :
    (∀ user group : UInt32, parseUser s = some (user, group) ↔
      DenotesUser s user.toNat group.toNat) ↔ ¬DecoratedUser s := by
  constructor
  · rintro hexact (⟨n, rfl, hdecorated, hreading⟩ | ⟨n, m, rfl, hdecorated, hreading, hreading'⟩)
    · have hparse := parseUser_eq_some_iff.mpr
        (.inl ⟨n, rfl, hreading, toNat_ofNat_id hreading, toNat_ofNat_id hreading⟩)
      rcases (hexact _ _).mp hparse with ⟨hdenotes, -⟩ | ⟨u, g, htext, -, -⟩
      · exact hdecorated hdenotes.1.plain.1
      · exact colon_not_mem_text n (htext ▸ by simp)
    · have hparse := parseUser_eq_some_iff.mpr
        (.inr ⟨n, m, rfl, hreading, hreading', toNat_ofNat_id hreading, toNat_ofNat_id hreading'⟩)
      rcases (hexact _ _).mp hparse with ⟨hdenotes, -⟩ | ⟨u, g, htext, huser, hgroup⟩
      · exact absurd (hdenotes.1.2.1 ':' (by simp)) (by decide)
      · -- the first colon splits both readings at the same place
        have hcolon : ':' ∉ u := fun hmem => absurd (huser.1.2.1 ':' hmem) (by decide)
        obtain ⟨rfl, rfl⟩ := append_cons_inj (colon_not_mem_text n) hcolon htext
        exact hdecorated ⟨huser.1.plain.1, hgroup.1.plain.1⟩
  · intro hplain user group
    rw [parseUser_eq_some_iff]
    constructor
    · rintro (⟨n, rfl, hreading, huser, hgroup⟩ | ⟨n, m, rfl, hreading, hreading', huser, hgroup⟩)
      · have hbare : n.Plain := by
          by_contra hdecorated
          exact hplain (.inl ⟨n, rfl, hdecorated, hreading⟩)
        exact .inl ⟨huser ▸ .of_plain hbare hreading, hgroup.trans huser.symm⟩
      · have hbare : n.Plain ∧ m.Plain := by
          by_contra hdecorated
          exact hplain (.inr ⟨n, m, rfl, hdecorated, hreading, hreading'⟩)
        exact .inr ⟨n.text, m.text, rfl, huser ▸ .of_plain hbare.1 hreading,
          hgroup ▸ .of_plain hbare.2 hreading'⟩
    · rintro (⟨hdenotes, hgroup⟩ | ⟨u, g, rfl, huser, hgroup⟩)
      · obtain ⟨n, rfl, -, hreading, hvalue⟩ := hdenotes.exists_numeral
        exact .inl ⟨n, rfl, hreading, hvalue.symm, hgroup.trans hvalue.symm⟩
      · obtain ⟨n, rfl, -, hreading, hvalue⟩ := huser.exists_numeral
        obtain ⟨m, rfl, -, hreading', hvalue'⟩ := hgroup.exists_numeral
        exact .inr ⟨n, m, rfl, hreading, hreading', hvalue.symm, hvalue'.symm⟩

/-- Counts and users are plain decimals, except for white space and signs in front of the digits. -/
theorem numbers_exact_iff (s : Text) (maximum : UInt64) :
    ((∀ r : UInt64, parsePositiveU64 s maximum = some r ↔
        DenotesNumber s r.toNat ∧ 1 ≤ r.toNat ∧ r ≤ maximum) ↔ ¬DecoratedCount s maximum) ∧
      ((∀ user group : UInt32, parseUser s = some (user, group) ↔
        DenotesUser s user.toNat group.toNat) ↔ ¬DecoratedUser s) :=
  ⟨parsePositiveU64_exact_iff s maximum, parseUser_exact_iff s⟩

/-- White space hides a sign from the check of the first character, and nothing checks the signs
    of a user. -/
theorem numbers_accept_signs :
    parsePositiveU64 " -18446744073709551615".toList 4194304 = some 1 ∧
      parseUser "-18446744073709551615: +5".toList = some (1, 5) ∧
      (∀ n, ¬DenotesNumber " -18446744073709551615".toList n) ∧
      ∀ user group, ¬DenotesUser "-18446744073709551615: +5".toList user group := by
  have hfirst : ∀ s : Text, (s.head?.all fun c => !c.isDigit) = true → ∀ n, ¬DenotesNumber s n := by
    rintro s hs n ⟨hne, hdigits, -⟩
    cases s with
    | nil => exact hne rfl
    | cons d s => simp [hdigits d List.mem_cons_self] at hs
  refine ⟨by decide, by decide, hfirst _ (by decide), ?_⟩
  rintro user group (⟨hdenotes, -⟩ | ⟨u, g, htext, hdenotes, -⟩)
  · exact hfirst _ (by decide) _ hdenotes.1
  · refine hfirst u ?_ _ hdenotes.1
    cases u with
    | nil => exact absurd rfl hdenotes.1.1
    | cons d u =>
      obtain rfl : '-' = d := congrArg (·.headD ' ') htext
      rfl

/-! ## Published ports -/

/-- A number as a port of `mc_parse_publish`: what is left of it in 32 bits. -/
structure PortReading (n : Numeral) (port : UInt16) : Prop where
  fits : n.magnitude < 2 ^ 64
  ne_zero : port ≠ 0
  low : n.value 64 % 2 ^ 32 = port.toNat

/-- The text is `ADDRESS:PORT:PORT/PROTOCOL`. -/
def DenotesPublish (s : Text) (p : Publish) : Prop :=
  ∃ address host container protocol,
    s = address ++ ':' :: (host ++ ':' :: (container ++ '/' :: protocol)) ∧
    inetPton address = some p.hostIpv4 ∧
    (DenotesNumber host p.hostPort.toNat ∧ p.hostPort ≠ 0) ∧
    (DenotesNumber container p.containerPort.toNat ∧ p.containerPort ≠ 0) ∧
    publishProtocol protocol = some p.protocol

/-- The text is accepted although a port is not written in plain digits below `2 ^ 32`. -/
def MisreadPublish (s : Text) : Prop :=
  ∃ (address : Text) (n m : Numeral) (protocol : Text) (p : Publish),
    s = address ++ ':' :: (n.text ++ ':' :: (m.text ++ '/' :: protocol)) ∧
    inetPton address = some p.hostIpv4 ∧ PortReading n p.hostPort ∧
    PortReading m p.containerPort ∧ publishProtocol protocol = some p.protocol ∧
    ¬((n.Plain ∧ n.magnitude < 2 ^ 32) ∧ m.Plain ∧ m.magnitude < 2 ^ 32)

/-- How many characters `inet_pton` can still read in an octet with this value. -/
def octetRoom (value : Nat) : Nat :=
  if value = 0 then 0 else if value < 10 then 2 else if value < 100 then 1 else 0

theorem inetPtonLoop_chars {address octets : Nat} {current : Option Nat} {s : Text} {a : UInt32}
    (hoctets : octets ≤ 3) (h : inetPtonLoop address octets current s = some a) :
    (∀ c ∈ s, (c.isDigit || c == '.') = true) ∧
      s.length ≤ (current.elim 3 octetRoom) + (3 - octets) * 4 := by
  induction s generalizing address octets current with
  | nil => exact ⟨by simp, by simp⟩
  | cons c s ih =>
    simp only [inetPtonLoop] at h
    split at h
    · rename_i hdigit
      have hchar : (c.isDigit || c == '.') = true := by simp [hdigit]
      cases current with
      | none =>
        dsimp only at h
        split at h
        · exact nomatch h
        · obtain ⟨hchars, hlength⟩ := ih hoctets h
          refine ⟨List.forall_mem_cons.mpr ⟨hchar, hchars⟩, ?_⟩
          have hroom : octetRoom (c.toNat - '0'.toNat) ≤ 2 := by
            unfold octetRoom
            split_ifs <;> omega
          simp only [Option.elim, List.length_cons] at hlength ⊢
          omega
      | some value =>
        dsimp only at h
        split at h
        · exact nomatch h
        · rename_i hvalue
          obtain ⟨hchars, hlength⟩ := ih hoctets h
          refine ⟨List.forall_mem_cons.mpr ⟨hchar, hchars⟩, ?_⟩
          simp only [not_or, Nat.not_lt] at hvalue
          have hroom : octetRoom (value * 10 + (c.toNat - '0'.toNat)) + 1 ≤ octetRoom value := by
            unfold octetRoom
            split_ifs <;> omega
          simp only [Option.elim, List.length_cons] at hlength ⊢
          omega
    · split at h
      · rename_i hdot
        have hchar : (c.isDigit || c == '.') = true := by simp [hdot]
        cases current with
        | none => exact nomatch h
        | some value =>
          dsimp only at h
          split at h
          · exact nomatch h
          · obtain ⟨hchars, hlength⟩ := ih (by omega) h
            refine ⟨List.forall_mem_cons.mpr ⟨hchar, hchars⟩, ?_⟩
            simp only [Option.elim, List.length_cons] at hlength ⊢
            omega
      · exact nomatch h

/-- An address consists of at most 15 digits and dots. -/
theorem inetPton_chars {s : Text} {a : UInt32} (h : inetPton s = some a) :
    s ≠ [] ∧ (∀ c ∈ s, (c.isDigit || c == '.') = true) ∧ s.length ≤ 15 := by
  obtain ⟨hchars, hlength⟩ := inetPtonLoop_chars (Nat.zero_le 3) h
  refine ⟨?_, hchars, hlength⟩
  rintro rfl
  exact nomatch h

/-- `%N[...]` takes a text of the set, in front of a character that is not of it. -/
theorem scanSet_append {width : Nat} {set : Char → Bool} {s : Text} (rest : Text) (hne : s ≠ [])
    (hset : ∀ c ∈ s, set c = true) (hrest : ∀ c ∈ rest.head?, set c = false)
    (hwidth : s.length ≤ width) : scanSet width set (s ++ rest) = some (s, rest) := by
  have hstop : rest.takeWhile set = [] := by
    cases rest with
    | nil => rfl
    | cons c rest => simp [hrest c (by simp)]
  have htake : (s ++ rest).takeWhile set = s := by
    rw [List.takeWhile_append_of_pos hset, hstop, List.append_nil]
  simp [scanSet, htake, List.take_of_length_le hwidth, hne]

/-- What `%N[...]` takes is the beginning of the text. -/
theorem scanSet_eq_some {width : Nat} {set : Char → Bool} {s taken rest : Text}
    (h : scanSet width set s = some (taken, rest)) : s = taken ++ rest := by
  simp only [scanSet] at h
  split at h
  · exact nomatch h
  · cases h
    have hprefix : (s.takeWhile set).take width <+: s :=
      (List.take_prefix _ _).trans (List.takeWhile_prefix set)
    exact (List.prefix_iff_eq_append.mp hprefix).symm

theorem scanLiteral_eq_some {c : Char} {s rest : Text} (h : scanLiteral c s = some rest) :
    s = c :: rest := by
  unfold scanLiteral at h
  split at h
  · split at h
    · rename_i heq
      cases h
      rw [heq]
    · cases h
  · cases h

theorem scanLiteral_cons (c : Char) (s : Text) : scanLiteral c (c :: s) = some s := by
  simp [scanLiteral]

/-- A port that `%u` has scanned. -/
theorem scannedPort_eq_some_iff {v : UInt32} {port : UInt16} :
    scannedPort v = some port ↔ port ≠ 0 ∧ v.toNat = port.toNat := by
  have hport := port.toNat_lt
  unfold scannedPort
  have hmax : (65535 : UInt32).toNat = 65535 := rfl
  have hzero : (v = 0) ↔ v.toNat = 0 := by rw [← UInt32.toNat_inj]; rfl
  have hzero' : (port = 0) ↔ port.toNat = 0 := by rw [← UInt16.toNat_inj]; rfl
  simp only [UInt32.lt_iff_toNat_lt, hmax, hzero]
  split
  · rename_i hout
    simp only [reduceCtorEq, false_iff, not_and]
    intro hne heq
    rw [ne_eq, hzero'] at hne
    omega
  · rename_i hin
    rw [not_or] at hin
    rw [Option.some.injEq, ← UInt16.toNat_inj, UInt32.toNat_toUInt16, ne_eq, hzero']
    constructor
    · intro h
      omega
    · rintro ⟨-, h⟩
      omega

/-- `%u` and the check of the port behind it. -/
theorem scanU_port_iff {s rest : Text} {port : UInt16} :
    (∃ v, scanU s = some (v, rest) ∧ scannedPort v = some port) ↔
      ∃ n : Numeral, s = n.text ++ rest ∧ NoDigit rest ∧ PortReading n port := by
  simp only [scanU, scannedPort_eq_some_iff, Option.map_eq_some_iff, Prod.mk.injEq]
  constructor
  · rintro ⟨_, ⟨c, hc, rfl, rfl⟩, hne, hport⟩
    obtain ⟨n, htext, hrest⟩ := CString.exists_numeral hc
    rw [htext, CString.strtou_numeral n hrest] at hc
    have hlt := port.toNat_lt
    split at hc
    · -- the largest value that 64 bits hold is no port
      rw [← Option.some.inj hc, UInt32.toNat_ofNat'] at hport
      dsimp only at hport
      omega
    · rename_i hfits
      have hvalue : c.value = n.value 64 :=
        congrArg CString.Conversion.value (Option.some.inj hc).symm
      rw [UInt32.toNat_ofNat', hvalue] at hport
      exact ⟨n, htext, hrest, Nat.not_le.mp hfits, hne, hport⟩
  · rintro ⟨n, rfl, hrest, hreading⟩
    have hread := CString.strtou_eq_some_iff.mpr ⟨n, rfl, hrest, hreading.fits, rfl⟩
    refine ⟨_, ⟨_, hread, rfl, rfl⟩, hreading.ne_zero, ?_⟩
    rw [UInt32.toNat_ofNat']
    exact hreading.low

/-- The protocols are three lower-case letters. -/
theorem publishProtocol_chars {s : Text} {protocol : UInt8}
    (h : publishProtocol s = some protocol) :
    s ≠ [] ∧ (∀ c ∈ s, c.isLower = true) ∧ s.length ≤ 3 := by
  unfold publishProtocol at h
  split at h
  · rename_i heq
    subst heq
    exact ⟨by decide, List.all_eq_true.mp (by decide), by decide⟩
  · split at h
    · rename_i heq
      subst heq
      exact ⟨by decide, List.all_eq_true.mp (by decide), by decide⟩
    · exact nomatch h

theorem parsePublish_eq_some_iff {s : Text} {p : Publish} :
    parsePublish s = some p ↔ ∃ (address : Text) (n m : Numeral) (protocol : Text),
      s = address ++ ':' :: (n.text ++ ':' :: (m.text ++ '/' :: protocol)) ∧
      inetPton address = some p.hostIpv4 ∧ PortReading n p.hostPort ∧
      PortReading m p.containerPort ∧ publishProtocol protocol = some p.protocol := by
  constructor
  · intro h
    simp only [parsePublish, Option.bind_eq_bind, Option.bind_eq_some_iff, Prod.exists] at h
    obtain ⟨address, s₁, hset, s₂, hcolon, v, s₃, hhost, s₄, hcolon', v', s₅, hcontainer, s₆,
      hslash, protocol, trailing, hletters, a, haddress, port, hport, port', hport', number,
      hprotocol, h⟩ := h
    split at h
    · rename_i htrailing
      cases h
      obtain ⟨n, htext, -, hreading⟩ := scanU_port_iff.mp ⟨v, hhost, hport⟩
      obtain ⟨m, htext', -, hreading'⟩ := scanU_port_iff.mp ⟨v', hcontainer, hport'⟩
      refine ⟨address, n, m, protocol, ?_, haddress, hreading, hreading', hprotocol⟩
      rw [scanSet_eq_some hset, scanLiteral_eq_some hcolon, htext, scanLiteral_eq_some hcolon',
        htext', scanLiteral_eq_some hslash, scanSet_eq_some hletters, htrailing, List.append_nil]
    · exact nomatch h
  · rintro ⟨address, n, m, protocol, rfl, haddress, hreading, hreading', hprotocol⟩
    obtain ⟨hne, hchars, hlength⟩ := inetPton_chars haddress
    obtain ⟨hne', hletters, hlength'⟩ := publishProtocol_chars hprotocol
    obtain ⟨v, hhost, hport⟩ := scanU_port_iff.mpr
      ⟨n, rfl, (noDigit_cons ':' (m.text ++ '/' :: protocol)).mpr (by decide), hreading⟩
    obtain ⟨v', hcontainer, hport'⟩ := scanU_port_iff.mpr
      ⟨m, rfl, (noDigit_cons '/' protocol).mpr (by decide), hreading'⟩
    have hset := scanSet_append (':' :: (n.text ++ ':' :: (m.text ++ '/' :: protocol))) hne hchars
      (by simp) hlength
    have hword := scanSet_append [] hne' hletters (by simp) hlength'
    rw [List.append_nil] at hword
    simp only [parsePublish, Option.bind_eq_bind, hset, Option.bind_some, scanLiteral_cons, hhost,
      hcontainer, hword, haddress, hport, hport', hprotocol, if_true]

/-- A port in plain digits is read as it is written. -/
theorem PortReading.denotes {n : Numeral} {port : UInt16} (h : PortReading n port)
    (hplain : n.Plain) (hlt : n.magnitude < 2 ^ 32) : DenotesNumber n.text port.toNat := by
  have hlow := h.low
  rw [hplain.value_eq, Nat.mod_eq_of_lt hlt] at hlow
  exact hlow ▸ .of_plain hplain

/-- A port that the text denotes is read. -/
theorem PortReading.of_denotes {n : Numeral} {port : UInt16} (h : DenotesNumber n.text port.toNat)
    (hne : port ≠ 0) : PortReading n port ∧ n.Plain ∧ n.magnitude < 2 ^ 32 := by
  obtain ⟨hplain, hmagnitude⟩ := h.plain
  have hlt := port.toNat_lt
  refine ⟨⟨by omega, hne, ?_⟩, hplain, by omega⟩
  rw [hplain.value_eq, ← hmagnitude, Nat.mod_eq_of_lt (by omega)]

/-- `mc_parse_publish` is exact on a text if and only if it does not read a port from white space,
    a sign or digits beyond 32 bits. -/
theorem parsePublish_exact_iff (s : Text) :
    (∀ p : Publish, parsePublish s = some p ↔ DenotesPublish s p) ↔ ¬MisreadPublish s := by
  constructor
  · rintro hexact ⟨address, n, m, protocol, p, htext, haddress, hreading, hreading',
      hprotocol, hmis⟩
    have hparse := parsePublish_eq_some_iff.mpr
      ⟨address, n, m, protocol, htext, haddress, hreading, hreading', hprotocol⟩
    obtain ⟨address', host, container, protocol', htext', haddress', ⟨hhost, hne⟩,
      ⟨hcontainer, hne'⟩, -⟩ := (hexact p).mp hparse
    -- the separators split both readings at the same places
    have hcolon : ∀ {a : Text} {i : UInt32}, inetPton a = some i → ':' ∉ a := fun h hmem =>
      absurd ((inetPton_chars h).2.1 ':' hmem) (by decide)
    have hdigit : ∀ {a : Text} {k : Nat}, DenotesNumber a k → ∀ c ∈ a, c.isDigit = true :=
      fun h => h.2.1
    obtain ⟨rfl, htail⟩ := append_cons_inj (hcolon haddress) (hcolon haddress')
      (htext.symm.trans htext')
    obtain ⟨rfl, hend⟩ := append_cons_inj (colon_not_mem_text n)
      (fun hmem => absurd (hdigit hhost ':' hmem) (by decide)) htail
    obtain ⟨rfl, -⟩ := append_cons_inj (slash_not_mem_text m)
      (fun hmem => absurd (hdigit hcontainer '/' hmem) (by decide)) hend
    exact hmis ⟨(PortReading.of_denotes hhost hne).2, (PortReading.of_denotes hcontainer hne').2⟩
  · intro hplain p
    rw [parsePublish_eq_some_iff]
    constructor
    · rintro ⟨address, n, m, protocol, rfl, haddress, hreading, hreading', hprotocol⟩
      have hbare : (n.Plain ∧ n.magnitude < 2 ^ 32) ∧ m.Plain ∧ m.magnitude < 2 ^ 32 := by
        by_contra hmis
        exact hplain ⟨address, n, m, protocol, p, rfl, haddress, hreading, hreading',
          hprotocol, hmis⟩
      exact ⟨address, n.text, m.text, protocol, rfl, haddress,
        ⟨hreading.denotes hbare.1.1 hbare.1.2, hreading.ne_zero⟩,
        ⟨hreading'.denotes hbare.2.1 hbare.2.2, hreading'.ne_zero⟩, hprotocol⟩
    · rintro ⟨address, host, container, protocol, rfl, haddress, ⟨hhost, hne⟩, ⟨hcontainer, hne'⟩,
        hprotocol⟩
      obtain ⟨n, rfl, -, -⟩ := hhost.exists_numeral
      obtain ⟨m, rfl, -, -⟩ := hcontainer.exists_numeral
      exact ⟨address, n, m, protocol, rfl, haddress, (PortReading.of_denotes hhost hne).1,
        (PortReading.of_denotes hcontainer hne').1, hprotocol⟩

/-- A port beyond 32 bits and one behind white space and a sign. -/
theorem parsePublish_wraps :
    parsePublish "127.0.0.1:4294967376: +80/tcp".toList =
        some ⟨0x7f000001, 80, 80, ipprotoTcp⟩ ∧
      ∀ p, ¬DenotesPublish "127.0.0.1:4294967376: +80/tcp".toList p := by
  refine ⟨by decide, fun p h => ?_⟩
  obtain ⟨address, host, container, protocol, htext, haddress, ⟨hhost, -⟩, ⟨hcontainer, -⟩,
    hprotocol⟩ := h
  -- no part of a published port holds a blank
  have hblank : ' ' ∈ address ++ ':' :: (host ++ ':' :: (container ++ '/' :: protocol)) :=
    htext ▸ by decide
  simp only [List.mem_append, List.mem_cons] at hblank
  rcases hblank with hmem | hmem | hmem | hmem | hmem | hmem | hmem
  · exact absurd ((inetPton_chars haddress).2.1 _ hmem) (by decide)
  · exact absurd hmem (by decide)
  · exact absurd (hhost.2.1 _ hmem) (by decide)
  · exact absurd hmem (by decide)
  · exact absurd (hcontainer.2.1 _ hmem) (by decide)
  · exact absurd hmem (by decide)
  · exact absurd ((publishProtocol_chars hprotocol).2.1 _ hmem) (by decide)

end MiniContainer
