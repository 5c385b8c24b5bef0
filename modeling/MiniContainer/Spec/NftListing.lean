import Mathlib.Data.List.Infix
import MiniContainer.ForStd.List
import MiniContainer.Native.Nft

/-!
# The rules that a listing shows

What `mc_nft_remove_container` finds in the captured listing of a chain.
`lineHandle_owned` says what is read of a line that was cut off, and
`chainCommands_spec` what is read of a listing: commands may be missing and a
handle may be replaced by a smaller one, nothing else can happen, and when
nothing is missing.
-/

namespace MiniContainer

open CString (Text strstr strtok pieces strtou decimal strchr_append strstr_eq_none strstr_skip)

/-! ## One line of the listing -/

section Line

variable {id : ContainerId}

/-- The marker fits its buffer. -/
theorem marker_eq (id : ContainerId) :
    marker id.text = commentWords ++ '"' :: (ownerComment id.text ++ ['"']) := by
  refine CString.snprintf_of_fits ?_
  have h₁ : commentWords.length = 8 := rfl
  have h₂ : ownerWord.length = 14 := rfl
  simp only [List.length_append, List.length_cons, List.length_nil, ownerComment, id.length_text,
    h₁, h₂]
  decide

/-- A text that starts somewhere in a cut line starts there in the whole line. -/
private theorem prefix_drop_of_take {needle s : Text} {k n : Nat}
    (h : needle <+: (s.take k).drop n) : needle <+: s.drop n :=
  h.trans (List.IsPrefix.drop (List.take_prefix k s) n)

private theorem phrase_of_marker {s : Text} (h : marker id.text <+: s) : ownerPhrase <+: s := by
  refine List.IsPrefix.trans ?_ h
  rw [marker_eq, ownerPhrase, List.prefix_append_right_inj, List.cons_prefix_cons, ownerComment,
    List.append_assoc]
  exact ⟨rfl, List.prefix_append _ _⟩

/-- Lines around the rules hold no handle of a rule. -/
theorem lineHandle_frame {l : Text} (h : ∀ n, ¬ownerPhrase <+: l.drop n) (k : Nat) :
    lineHandle id.text (l.take k) = none := by
  have hnone : strstr (marker id.text) (l.take k) = none :=
    strstr_eq_none fun n hn => h n (phrase_of_marker (prefix_drop_of_take hn))
  rw [lineHandle, hnone]

/-- Where the marker starts in the line of a rule, the rule belongs to the container. -/
theorem ownedBy_of_marker {r : Rule} {n : Nat} (h : marker id.text <+: r.line.drop n) :
    n = r.statement.length ∧ r.ownedBy id.text = true := by
  have hn := r.phrase_at n (phrase_of_marker h)
  refine ⟨hn, ?_⟩
  rw [hn, Rule.line, printRule, List.drop_left, marker_eq] at h
  cases hc : r.comment with
  | none =>
    rw [hc] at h
    obtain ⟨t, ht⟩ := h
    have hhead : some 'c' = some '#' := congrArg List.head? ht
    exact absurd hhead (by decide)
  | some c =>
    rw [hc, printComment, List.append_assoc, List.prefix_append_right_inj, List.cons_append,
      List.cons_prefix_cons, List.append_assoc] at h
    obtain ⟨t, ht⟩ := h.2
    -- both comments end at the first quotation mark
    have h₁ := strchr_append (b := t) (plainText_ownerComment id).1
    have h₂ := strchr_append (b := ' ' :: (handleWords ++ decimal r.handle.number))
      (r.comment_quote c hc)
    simp only [List.append_assoc, List.cons_append, List.nil_append] at ht
    rw [ht, h₂] at h₁
    obtain ⟨rfl, -⟩ := Prod.mk.inj (Option.some.inj h₁)
    simp [Rule.ownedBy, hc]

/-- A cut line of another rule holds no handle of the container. -/
theorem lineHandle_other {r : Rule} (h : r.ownedBy id.text = false) (k : Nat) :
    lineHandle id.text (r.line.take k) = none := by
  have hnone : strstr (marker id.text) (r.line.take k) = none := by
    refine strstr_eq_none fun n hn => ?_
    have howned := (ownedBy_of_marker (prefix_drop_of_take hn)).2
    rw [h] at howned
    exact nomatch howned
  rw [lineHandle, hnone]

/-- The text of a rule of the container: its statement, the marker and the handle. -/
theorem line_of_ownedBy {r : Rule} (h : r.ownedBy id.text = true) :
    r.line = r.statement ++
      (marker id.text ++ ' ' :: (handleWords ++ decimal r.handle.number)) := by
  have hc : r.comment = some (ownerComment id.text) := by simpa [Rule.ownedBy] using h
  simp only [Rule.line, printRule, hc, marker_eq, printComment, List.append_assoc,
    List.cons_append, List.nil_append]

theorem line_length_pos {r : Rule} (h : r.ownedBy id.text = true) : 0 < r.line.length := by
  rw [line_of_ownedBy h]
  simp only [List.length_append, List.length_cons]
  omega

/-- What is read of a handle when only its first `k` digits are there. -/
def cutHandle (handle k : Nat) : Option Nat :=
  if 0 < Nat.ofDigitChars 10 ((decimal handle).take k) 0 then
    some (Nat.ofDigitChars 10 ((decimal handle).take k) 0)
  else none

/-- A handle is read back when all its digits are there; otherwise a smaller one is. -/
theorem cutHandle_spec (h : Handle) (k : Nat) :
    ((decimal h.number).length ≤ k → cutHandle h.number k = some h.number) ∧
    (k < (decimal h.number).length → ∀ n, cutHandle h.number k = some n → n < h.number) := by
  refine ⟨fun hk => ?_, fun hk n hn => ?_⟩
  · rw [cutHandle, List.take_of_length_le hk, CString.ofDigitChars_decimal, if_pos h.pos]
  · rw [cutHandle] at hn
    split at hn
    · rename_i hpos
      cases hn
      exact CString.ofDigitChars_take_decimal hk hpos
    · exact nomatch hn

/-- The number that is read when the line is cut `k` characters into its digits. -/
private theorem readHandle_cut (h : Handle) (k : Nat) :
    readHandle ((decimal h.number).take k) = cutHandle h.number k := by
  have hd : ∀ c ∈ (decimal h.number).take k, c.isDigit = true := fun c hc =>
    CString.isDigit_of_mem_decimal (List.mem_of_mem_take hc)
  by_cases hnil : (decimal h.number).take k = []
  · rw [cutHandle, hnil]
    rfl
  · have hlt : Nat.ofDigitChars 10 ((decimal h.number).take k) 0 < 2 ^ 64 := by
      refine Nat.lt_of_le_of_lt ?_ h.lt
      rcases Nat.lt_or_ge k (decimal h.number).length with hk | hk
      · rcases Nat.eq_zero_or_pos (Nat.ofDigitChars 10 ((decimal h.number).take k) 0) with h₀ | h₀
        · omega
        · exact Nat.le_of_lt (CString.ofDigitChars_take_decimal hk h₀)
      · rw [List.take_of_length_le hk, CString.ofDigitChars_decimal]
    have hread := CString.strtou_digits (w := 64) hnil hd CString.noDigit_nil hlt
    rw [List.append_nil] at hread
    rw [readHandle, hread, cutHandle]

private theorem cutHandle_zero (handle : Nat) : cutHandle handle 0 = none := by
  simp [cutHandle]

/-- A text is not found in a shorter one. -/
private theorem strstr_of_short {needle s : Text} (h : s.length < needle.length) :
    strstr needle s = none := by
  refine strstr_eq_none fun n hn => ?_
  have := hn.length_le
  rw [List.length_drop] at this
  omega

/-- The search for the handle behind the marker, in a line that is cut `j` characters
    behind the marker. -/
private theorem strstr_handleWords (id : ContainerId) (handle j : Nat) :
    strstr handleWords (marker id.text ++ (' ' :: (handleWords ++ decimal handle)).take j) =
      if j < 10 then none else some (handleWords ++ (decimal handle).take (j - 10)) := by
  have hlen : handleWords.length = 9 := rfl
  have hmarker : '#' ∉ marker id.text := by
    have hid : '#' ∉ id.text := fun h => absurd (id.hex _ h) (by decide)
    have hwords : '#' ∉ commentWords ++ '"' :: ownerWord := by decide
    rw [marker_eq, ownerComment]
    simp only [List.mem_append, List.mem_cons, not_or] at hwords ⊢
    exact ⟨hwords.1, by decide, ⟨hwords.2.2, hid⟩, by simp⟩
  have hskip : ∀ s : Text, strstr handleWords (marker id.text ++ s) = strstr handleWords s :=
    fun s => strstr_skip (d := '#') hmarker
  rw [hskip]
  cases j with
  | zero =>
    rw [if_pos (by decide), List.take_zero]
    exact strstr_of_short (by decide)
  | succ j =>
    have hblank : strstr handleWords (' ' :: (handleWords ++ decimal handle).take j) =
        strstr handleWords ((handleWords ++ decimal handle).take j) :=
      strstr_skip (d := '#') (a := [' ']) (by decide)
    rw [List.take_succ_cons, hblank]
    split
    · refine strstr_of_short ?_
      rw [List.length_take, List.length_append]
      omega
    · have htake : (handleWords ++ decimal handle).take j =
          handleWords ++ (decimal handle).take (j + 1 - 10) := by
        rw [List.take_append, List.take_of_length_le (by omega), hlen]
        congr 2
      rw [htake, CString.strstr_append]

/-- A cut line of a rule of the container yields the digits of its handle that are left. -/
theorem lineHandle_owned {r : Rule} (h : r.ownedBy id.text = true) (k : Nat) :
    lineHandle id.text (r.line.take k) =
      cutHandle r.handle.number (k - (r.line.length - (decimal r.handle.number).length)) := by
  have hline := line_of_ownedBy h
  have hlen : handleWords.length = 9 := rfl
  have hlength : r.line.length - (decimal r.handle.number).length =
      r.statement.length + (marker id.text).length + 10 := by
    rw [hline]
    simp only [List.length_append, List.length_cons, hlen]
    omega
  rw [hlength]
  have honly : ∀ n, marker id.text <+: (r.line.take k).drop n → n = r.statement.length :=
    fun n hn => (ownedBy_of_marker (prefix_drop_of_take hn)).1
  by_cases hk : k < r.statement.length + (marker id.text).length
  · -- the marker itself is cut off
    have hpos : 0 < (marker id.text).length := by
      rw [marker_eq, List.length_append, List.length_cons]
      omega
    have hnone : strstr (marker id.text) (r.line.take k) = none := by
      refine strstr_eq_none fun n hn => ?_
      have hle := hn.length_le
      rw [honly n hn, List.length_drop, List.length_take] at hle
      omega
    rw [lineHandle, hnone,
      show k - (r.statement.length + (marker id.text).length + 10) = 0 by omega, cutHandle_zero]
  · have hdrop : (r.line.take k).drop r.statement.length = marker id.text ++
        (' ' :: (handleWords ++ decimal r.handle.number)).take
          (k - r.statement.length - (marker id.text).length) := by
      rw [hline, List.take_append, List.take_of_length_le (by omega), List.drop_left,
        List.take_append, List.take_of_length_le (by omega)]
    have hfound : strstr (marker id.text) (r.line.take k) =
        some ((r.line.take k).drop r.statement.length) := by
      refine CString.strstr_eq_some ?_ ?_ fun m hm hp => ?_
      · rw [List.length_take, hline, List.length_append]
        omega
      · rw [hdrop]
        exact List.prefix_append _ _
      · exact absurd (honly m hp) (Nat.ne_of_lt hm)
    rw [lineHandle, hfound, hdrop]
    simp only [strstr_handleWords]
    split
    · rename_i hnone
      split at hnone
      · rw [show k - (r.statement.length + (marker id.text).length + 10) = 0 by omega,
          cutHandle_zero]
      · cases hnone
    · rename_i found hsome
      split at hsome
      · cases hsome
      · cases hsome
        rw [List.drop_left, readHandle_cut, Nat.sub_sub, Nat.sub_sub, Nat.add_assoc]

end Line

/-! ## The captured listing -/

@[simp] theorem printLines_nil : printLines [] = [] := rfl

@[simp] theorem printLines_cons (l : Text) (ls : List Text) :
    printLines (l :: ls) = l ++ '\n' :: printLines ls := by
  rw [printLines, List.flatMap_cons, List.append_assoc]
  rfl

@[simp] theorem printLines_append (ls ms : List Text) :
    printLines (ls ++ ms) = printLines ls ++ printLines ms := List.flatMap_append

/-- What is left of each line when only the first `n` characters of a text are there. -/
def shownLines : Nat → List Text → List Text
  | _, [] => []
  | n, l :: ls => l.take n :: shownLines (n - (l.length + 1)) ls

theorem shownLines_zero_filterMap {β : Type} {f : Text → Option β} (hf : f [] = none)
    (ls : List Text) : (shownLines 0 ls).filterMap f = [] := by
  induction ls with
  | nil => rfl
  | cons l ls ih =>
    rw [shownLines, List.take_zero, List.filterMap_cons, hf, Nat.zero_sub]
    exact ih

/-- Empty tokens do not count. -/
private theorem filterMap_strtok {β : Type} {f : Text → Option β} (hf : f [] = none) (s : Text) :
    (strtok '\n' s).filterMap f = (pieces '\n' s).filterMap f := by
  rw [strtok, List.filterMap_filter]
  refine List.filterMap_congr fun l _ => ?_
  cases l <;> simp [hf]

/-- The tokens of the first `n` characters of a text are what is left of its lines. -/
theorem filterMap_strtok_take {β : Type} {f : Text → Option β} (hf : f [] = none)
    {ls : List Text} (hl : ∀ l ∈ ls, '\n' ∉ l) (n : Nat) :
    (strtok '\n' ((printLines ls).take n)).filterMap f =
      (shownLines n ls).filterMap f := by
  rw [filterMap_strtok hf]
  induction ls generalizing n with
  | nil => simp [shownLines, pieces, hf]
  | cons l ls ih =>
    have hmem := hl l List.mem_cons_self
    have hrest := fun m hm => hl m (List.mem_cons_of_mem l hm)
    rw [printLines_cons, List.take_append, shownLines, List.filterMap_cons]
    rcases Nat.lt_or_ge l.length n with hn | hn
    · -- the line is there with its line break
      obtain ⟨m, rfl⟩ := Nat.exists_eq_add_of_lt hn
      rw [List.take_of_length_le (by omega), show l.length + m + 1 - l.length = m + 1 by omega,
        List.take_succ_cons, CString.pieces_append hmem,
        List.filterMap_cons, ih hrest, show l.length + m + 1 - (l.length + 1) = m by omega]
    · rw [show n - l.length = 0 by omega, show n - (l.length + 1) = 0 by omega, List.take_zero,
        List.append_nil, shownLines_zero_filterMap hf,
        CString.pieces_of_not_mem fun h => hmem (List.mem_of_mem_take h)]
      rfl

theorem shownLines_append (n : Nat) (ls ms : List Text) :
    shownLines n (ls ++ ms) =
      shownLines n ls ++ shownLines (n - (printLines ls).length) ms := by
  induction ls generalizing n with
  | nil => rfl
  | cons l ls ih =>
    rw [List.cons_append, shownLines, ih, shownLines, List.cons_append, printLines_cons,
      List.length_append, List.length_cons, Nat.sub_sub, Nat.add_right_comm, Nat.add_assoc]

section Listing

variable (id : ContainerId)

/-- The command for a rule may have been lost, or its handle may have lost digits. -/
def Shrinks (a b : Chain × Nat) : Prop := a.1 = b.1 ∧ a.2 ≤ b.2

/-- The handles of the rules of a container in a chain. -/
def ownedHandles (rules : List Rule) : List Nat :=
  (rules.filter (·.ownedBy id.text)).map (·.handle.number)

/-- The text of a listing in front of a rule's line. -/
def textBefore (frame : ChainFrame) (before : List Rule) : Text :=
  printLines (frame.head ++ before.map Rule.line)

/-- The handles found in the first `n` characters of the lines of rules. -/
theorem shownHandles_spec (n : Nat) (rules : List Rule) :
    let found := (shownLines n (rules.map Rule.line)).filterMap (lineHandle id.text)
    List.SublistForall₂ (· ≤ ·) found (ownedHandles id rules) ∧
    (found = ownedHandles id rules ↔ ∀ before r after, rules = before ++ r :: after →
      r.ownedBy id.text = true →
        (printLines (before.map Rule.line)).length + r.line.length ≤ n) := by
  induction rules generalizing n with
  | nil => exact ⟨.nil, by simp [shownLines, ownedHandles]⟩
  | cons r rules ih =>
    obtain ⟨hsub, heq⟩ := ih (n - (r.line.length + 1))
    -- a later rule has what this line leaves of the room
    have hlater : (∀ before s after, rules = before ++ s :: after → s.ownedBy id.text = true →
        (printLines ((r :: before).map Rule.line)).length + s.line.length ≤ n) ↔
        ∀ before s after, rules = before ++ s :: after → s.ownedBy id.text = true →
          (printLines (before.map Rule.line)).length + s.line.length ≤
            n - (r.line.length + 1) := by
      refine forall₃_congr fun before s after => forall₂_congr fun _ hs => ?_
      have hpos := line_length_pos hs
      simp only [List.map_cons, printLines_cons, List.length_append, List.length_cons]
      omega
    simp only [List.map_cons, shownLines, List.filterMap_cons]
    rw [List.forall_split_cons, hlater, ← heq]
    simp only [List.map_nil, printLines_nil, List.length_nil, Nat.zero_add]
    cases hr : r.ownedBy id.text with
    | false =>
      have howned : ownedHandles id (r :: rules) = ownedHandles id rules := by
        simp [ownedHandles, hr]
      rw [lineHandle_other hr, howned]
      exact ⟨hsub, by simp⟩
    | true =>
      have howned : ownedHandles id (r :: rules) =
          r.handle.number :: ownedHandles id rules := by
        simp [ownedHandles, hr]
      obtain ⟨hwhole, hcut⟩ :=
        cutHandle_spec r.handle (n - (r.line.length - (decimal r.handle.number).length))
      have hdigits : (decimal r.handle.number).length ≤ r.line.length := by
        rw [line_of_ownedBy hr]
        simp only [List.length_append, List.length_cons]
        omega
      rw [lineHandle_owned hr, howned]
      by_cases hn : r.line.length ≤ n
      · rw [hwhole (by omega)]
        exact ⟨.cons (Nat.le_refl _) hsub, by simp [hn]⟩
      · -- the line is cut off: its command is missing, or names a smaller handle
        have hlen := hsub.length_le
        cases hread : cutHandle r.handle.number
            (n - (r.line.length - (decimal r.handle.number).length)) with
        | none =>
          refine ⟨.cons_right hsub, ⟨fun h => ?_, fun h => absurd (h.1 rfl) hn⟩⟩
          have := congrArg List.length h
          simp only [List.length_cons] at this
          omega
        | some handle =>
          have hpos := List.length_pos_iff.mpr (CString.decimal_ne_nil r.handle.number)
          have hlt := hcut (by omega) handle hread
          refine ⟨.cons (Nat.le_of_lt hlt) hsub, ⟨fun h => ?_, fun h => absurd (h.1 rfl) hn⟩⟩
          exact absurd (List.cons.inj h).1 (Nat.ne_of_lt hlt)

variable {id}

private theorem lineHandle_nil : lineHandle id.text [] = none :=
  lineHandle_frame (l := []) (fun n h => by
    have hle := h.length_le
    rw [List.drop_nil, show ownerPhrase.length = 23 from rfl] at hle
    exact absurd hle (by decide)) 0

/-- The lines around the rules add nothing. -/
private theorem filterMap_frame {ls : List Text} (h : ∀ l ∈ ls, ∀ n, ¬ownerPhrase <+: l.drop n)
    (n : Nat) : (shownLines n ls).filterMap (lineHandle id.text) = [] := by
  induction ls generalizing n with
  | nil => rfl
  | cons l ls ih =>
    rw [shownLines, List.filterMap_cons, lineHandle_frame (h l List.mem_cons_self)]
    exact ih (fun m hm => h m (List.mem_cons_of_mem l hm)) _

private theorem line_not_mem (r : Rule) : '\n' ∉ r.line := by
  have hdecimal := (plainText_decimal r.handle.number).2
  have hwords : '\n' ∉ handleWords := by decide
  have hcomment : '\n' ∉ printComment r.comment := by
    cases hc : r.comment with
    | none => simp [printComment]
    | some c =>
      have hline := r.comment_line c hc
      have hstart : '\n' ∉ commentWords := by decide
      simp only [printComment, List.mem_append, List.mem_cons, not_or]
      exact ⟨hstart, by decide, hline, by decide, by decide, by simp⟩
  simp only [Rule.line, printRule, List.mem_append, not_or]
  exact ⟨r.statement_line, hcomment, hwords, hdecimal⟩

/-- The handles found in the first `n` characters of a listing. -/
theorem filterMap_listing_take (frame : ChainFrame) (rules : List Rule) (n : Nat) :
    (strtok '\n' ((listing frame rules).take n)).filterMap (lineHandle id.text) =
      (shownLines (n - (printLines frame.head).length)
        (rules.map Rule.line)).filterMap (lineHandle id.text) := by
  have hline : ∀ l ∈ listingLines frame rules, '\n' ∉ l := by
    simp only [listingLines, List.mem_append, List.mem_map]
    rintro l ((hl | ⟨r, -, rfl⟩) | hl)
    · exact frame.one_line l (List.mem_append_left _ hl)
    · exact line_not_mem r
    · exact frame.one_line l (List.mem_append_right _ hl)
  rw [listing, filterMap_strtok_take lineHandle_nil hline, listingLines, shownLines_append,
    shownLines_append, List.filterMap_append, List.filterMap_append,
    filterMap_frame fun l hl => frame.no_phrase l (List.mem_append_left _ hl),
    filterMap_frame fun l hl => frame.no_phrase l (List.mem_append_right _ hl),
    List.nil_append, List.append_nil]

/-- The rules of the container in a chain, as commands. -/
def ownedCommands (id : ContainerId) (chain : Chain) (rules : List Rule) : List (Chain × Nat) :=
  (ownedHandles id rules).map (chain, ·)

/-- Every rule of the container stands completely in the captured part of the listing. -/
def Listed (id : ContainerId) (frame : ChainFrame) (survives : Bool) (rules : List Rule) : Prop :=
  ∀ before r after, rules = before ++ r :: after → r.ownedBy id.text = true →
    ((listing frame rules).length ≤ 32767 ∨ survives = true) ∧
      (textBefore frame before).length + r.line.length ≤ 32767

private theorem captureNft_eq (survives : Bool) (text : Text) :
    captureNft survives text =
      if text.length ≤ 32767 ∨ survives = true then some (text.take 32767) else none := by
  rw [captureNft]
  by_cases hlen : text.length ≤ 32767
  · rw [if_pos hlen, if_pos (.inl hlen), List.take_of_length_le hlen]
  · rw [if_neg hlen]
    simp only [hlen, false_or]

/-- A rule that ends within the buffer, counted from the start of the listing and from the
    start of the rules. -/
private theorem textBefore_length_le (frame : ChainFrame) (before : List Rule) {r : Rule}
    (h : r.ownedBy id.text = true) :
    (printLines (before.map Rule.line)).length + r.line.length ≤
        32767 - (printLines frame.head).length ↔
      (textBefore frame before).length + r.line.length ≤ 32767 := by
  have hpos := line_length_pos h
  rw [textBefore, printLines_append, List.length_append]
  omega

/-- The commands found for a chain are those for the container's rules, except that some may
    be missing and some may name a smaller handle. They are all there and right when the
    rules are listed. -/
theorem chainCommands_spec (id : ContainerId) (chain : Chain) (frame : ChainFrame)
    (survives : Bool) (rules : List Rule) :
    let found := chainCommands id.text chain (captureNft survives (listing frame rules))
    List.SublistForall₂ Shrinks found (ownedCommands id chain rules) ∧
    (found = ownedCommands id chain rules ↔ Listed id frame survives rules) := by
  rw [captureNft_eq]
  by_cases hcap : (listing frame rules).length ≤ 32767 ∨ survives = true
  · obtain ⟨hsub, heq⟩ := shownHandles_spec id
      (32767 - (printLines frame.head).length) rules
    have hfound : chainCommands id.text chain (some ((listing frame rules).take 32767)) =
        ((shownLines (32767 - (printLines frame.head).length)
          (rules.map Rule.line)).filterMap (lineHandle id.text)).map (chain, ·) := by
      rw [chainCommands, ← filterMap_listing_take, List.map_filterMap]
    rw [if_pos hcap, hfound]
    refine ⟨?_, ?_⟩
    · rw [ownedCommands, List.sublistForall₂_map_left_iff, List.sublistForall₂_map_right_iff]
      simpa [Shrinks] using hsub
    · rw [ownedCommands, List.map_inj_right fun _ _ h => (Prod.mk.inj h).2, heq]
      refine forall₃_congr fun before r after => forall₂_congr fun _ hr => ?_
      rw [textBefore_length_le frame before hr]
      exact ⟨fun h => ⟨hcap, h⟩, And.right⟩
  · rw [if_neg hcap, chainCommands]
    refine ⟨.nil, ⟨fun h before r after hrules hr => ?_, fun h => ?_⟩⟩
    · have hmem : r ∈ rules.filter (·.ownedBy id.text) := by simp [hrules, hr]
      rw [eq_comm, ownedCommands, List.map_eq_nil_iff, ownedHandles, List.map_eq_nil_iff] at h
      rw [h] at hmem
      exact nomatch hmem
    · have hnone : rules.filter (·.ownedBy id.text) = [] := by
        rw [List.filter_eq_nil_iff]
        intro r hr howned
        obtain ⟨before, after, hrules⟩ := List.append_of_mem hr
        exact hcap (h before r after hrules howned).1
      rw [ownedCommands, ownedHandles, hnone]
      rfl

end Listing

end MiniContainer
