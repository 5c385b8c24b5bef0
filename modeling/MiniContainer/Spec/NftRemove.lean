import Mathlib.Data.List.Nodup
import MiniContainer.Spec.NftListing

/-!
# Removing the rules of a container

`nftRemoveContainer` removes exactly the rules of a container when every one of
them stands completely in the captured part of its listing and the script fits
its buffer up to its last line break, and in no other case.

The script may lose commands and digits at its end in the same way as the listing
does, so that `readScript_spec` has the form of `chainCommands_spec`. A list of
commands that deletes all rules of the container and nothing else is a permutation
of the commands for these rules (`perm_of_executed`), and a list that lost something
on the way is not.
-/

namespace MiniContainer

open CString (Text strtok pieces decimal decimal_ne_nil)

/-! ## The script -/

/-- The script for a list of commands, if the buffer were large enough. -/
def scriptText (commands : List (Chain × Nat)) : Text := printLines (commands.map deleteCommand)

@[simp] theorem scriptText_append (a b : List (Chain × Nat)) :
    scriptText (a ++ b) = scriptText a ++ scriptText b := by
  rw [scriptText, List.map_append, printLines_append]
  rfl

@[simp] theorem scriptText_singleton (x : Chain × Nat) : scriptText [x] = deleteLine x := by
  rw [scriptText, List.map_singleton, printLines_cons]
  rfl

private theorem removalScript_append (commands : List (Chain × Nat)) (x : Chain × Nat) :
    removalScript (commands ++ [x]) = (removalScript commands).append (deleteLine x) := by
  simp only [removalScript, List.map_append, List.foldl_append, List.map_cons, List.map_nil,
    List.foldl_cons, List.foldl_nil]

/-- A script shorter than the buffer is complete. -/
theorem removalScript_of_fits {commands : List (Chain × Nat)}
    (h : (scriptText commands).length < 8192) :
    removalScript commands = ⟨scriptText commands, []⟩ := by
  induction commands using List.reverseRecOn with
  | nil => rfl
  | append_singleton commands x ih =>
    rw [scriptText_append, scriptText_singleton, List.length_append] at h
    rw [removalScript_append, ih (by omega), Script.append, if_pos (by simp only; omega),
      scriptText_append, scriptText_singleton]

/-- A line cut off in front of its line break. -/
private theorem deleteLine_take {x : Chain × Nat} {k : Nat} (h : k < (deleteLine x).length) :
    (deleteLine x).take k = (deleteCommand x).take k := by
  rw [deleteLine, List.length_append, List.length_singleton] at h
  rw [deleteLine, List.take_append_of_le_length (by omega)]

/-- The buffer holds some of the commands, and the start of a further one that stands
    behind these. -/
theorem removalScript_spec (commands : List (Chain × Nat)) :
    ∃ kept, kept.Sublist commands ∧ (removalScript commands).used = scriptText kept ∧
      (scriptText kept).length < 8192 ∧
      ((removalScript commands).leftover = [] ∨
        ∃ x, (kept ++ [x]).Sublist commands ∧
          8191 - (scriptText kept).length ≤ (deleteCommand x).length ∧
          (removalScript commands).leftover =
            (deleteCommand x).take (8191 - (scriptText kept).length)) := by
  induction commands using List.reverseRecOn with
  | nil => exact ⟨[], .refl _, rfl, by decide, .inl rfl⟩
  | append_singleton commands x ih =>
    obtain ⟨kept, hsub, hused, hlen, -⟩ := ih
    rw [removalScript_append, Script.append, hused]
    split
    · rename_i hfits
      refine ⟨kept ++ [x], hsub.append (.refl _), ?_, ?_, .inl rfl⟩
      · rw [scriptText_append, scriptText_singleton]
      · rw [scriptText_append, scriptText_singleton, List.length_append]
        omega
    · rename_i hfull
      have hcut : 8192 - (scriptText kept).length - 1 < (deleteLine x).length := by omega
      refine ⟨kept, hsub.trans (List.sublist_append_left _ _), rfl, hlen,
        .inr ⟨x, hsub.append (.refl _), ?_, ?_⟩⟩
      · rw [deleteLine, List.length_append, List.length_singleton] at hcut
        omega
      · simp only [deleteLine_take hcut]
        rw [Nat.sub_sub, Nat.add_comm, ← Nat.sub_sub]

/-! ## Reading the script -/

/-- The first letter of a chain's name, by which the commands for different chains differ. -/
private def chainLetter : Chain → Char
  | .prerouting => 'p'
  | .output => 'o'
  | .forward => 'f'

private theorem deleteWords_letter (chain : Chain) (t : Text) :
    (deleteWords chain ++ t)[31]? = some (chainLetter chain) := by
  cases chain <;> rfl

private theorem chain_of_prefix {c c' : Chain} {t : Text}
    (h : deleteWords c' <+: deleteWords c ++ t) : c' = c := by
  obtain ⟨u, hu⟩ := h
  have hletter : some (chainLetter c') = some (chainLetter c) := by
    rw [← deleteWords_letter c' u, ← deleteWords_letter c t, hu]
  revert hletter
  cases c <;> cases c' <;> decide

private theorem parseDelete_eq {line : Text} {chain : Chain}
    (h : ∀ c, c ≠ chain → parseDeleteIn line c = none) :
    parseDelete line = parseDeleteIn line chain := by
  rw [parseDelete, chainOrder]
  cases chain with
  | prerouting =>
    simp only [List.findSome?_cons, List.findSome?_nil, h .output (by decide),
      h .forward (by decide)]
    split <;> simp_all
  | output =>
    simp only [List.findSome?_cons, List.findSome?_nil, h .prerouting (by decide),
      h .forward (by decide)]
    split <;> simp_all
  | forward =>
    simp only [List.findSome?_cons, List.findSome?_nil, h .prerouting (by decide),
      h .output (by decide)]
    split <;> simp_all

/-- What `nft` reads of the first `k` characters of a command. -/
theorem parseDelete_take (x : Chain × Nat) (k : Nat) :
    parseDelete ((deleteCommand x).take k) =
      if k ≤ (deleteWords x.1).length then none
      else some (x.1,
        Nat.ofDigitChars 10 ((decimal x.2).take (k - (deleteWords x.1).length)) 0) := by
  have hother : ∀ c, c ≠ x.1 → parseDeleteIn ((deleteCommand x).take k) c = none := by
    intro c hc
    refine if_neg fun h => hc ?_
    exact chain_of_prefix ((List.isPrefixOf_iff_prefix.mp h).trans (List.take_prefix k _))
  rw [parseDelete_eq hother, parseDeleteIn]
  split
  · rename_i hprefix
    have hlen := (List.isPrefixOf_iff_prefix.mp hprefix).length_le
    rw [List.length_take] at hlen
    have hdrop : ((deleteCommand x).take k).drop (deleteWords x.1).length =
        (decimal x.2).take (k - (deleteWords x.1).length) := by
      rw [List.drop_take, deleteCommand, List.drop_left]
    have hdigit : ((decimal x.2).take (k - (deleteWords x.1).length)).all Char.isDigit = true :=
      List.all_eq_true.mpr fun c hc =>
        CString.isDigit_of_mem_decimal (List.mem_of_mem_take hc)
    simp only [hdrop, hdigit, and_true]
    by_cases hk : k ≤ (deleteWords x.1).length
    · rw [if_pos hk, Nat.sub_eq_zero_of_le hk]
      simp
    · rw [if_neg hk, if_pos]
      intro hnil
      rcases List.take_eq_nil_iff.mp hnil with h | h
      · omega
      · exact decimal_ne_nil _ h
  · rename_i hprefix
    rw [if_pos]
    by_contra hk
    refine hprefix (List.isPrefixOf_iff_prefix.mpr ?_)
    rw [deleteCommand, List.take_append, List.take_of_length_le (by omega)]
    exact List.prefix_append _ _

theorem parseDelete_deleteCommand (x : Chain × Nat) : parseDelete (deleteCommand x) = some x := by
  have h := parseDelete_take x (deleteCommand x).length
  have hpos := List.length_pos_iff.mpr (decimal_ne_nil x.2)
  rw [List.take_length, if_neg (by rw [deleteCommand, List.length_append]; omega),
    List.take_of_length_le (by rw [deleteCommand, List.length_append]; omega),
    CString.ofDigitChars_decimal] at h
  exact h

private theorem deleteCommand_line (x : Chain × Nat) : '\n' ∉ deleteCommand x := by
  have hwords : ∀ c : Chain, '\n' ∉ deleteWords c := by
    intro c
    cases c <;> decide
  rw [deleteCommand, List.mem_append, not_or]
  exact ⟨hwords x.1, (plainText_decimal x.2).2⟩

private theorem readScript_cons (x : Chain × Nat) (t : Text) :
    readScript (deleteCommand x ++ '\n' :: t) = (readScript t).map (x :: ·) := by
  have hne : (deleteCommand x).isEmpty = false := by
    rw [List.isEmpty_eq_false_iff, deleteCommand, Ne, List.append_eq_nil_iff]
    exact fun h => decimal_ne_nil _ h.2
  rw [readScript, strtok, CString.pieces_append (deleteCommand_line x), List.filter_cons, hne,
    if_pos (by decide), List.mapM_cons, parseDelete_deleteCommand]
  change ((readScript t).bind fun rest => some (x :: rest)) = _
  rw [Option.map_eq_bind]
  rfl

/-- Complete commands are read back. -/
theorem readScript_scriptText (commands : List (Chain × Nat)) (t : Text) :
    readScript (scriptText commands ++ t) = (readScript t).map (commands ++ ·) := by
  induction commands with
  | nil => simp [scriptText]
  | cons x commands ih =>
    rw [scriptText, List.map_cons, printLines_cons, List.append_assoc, List.cons_append,
      readScript_cons, ← scriptText, ih, Option.map_map]
    rfl

/-- A last line without a line break. -/
private theorem readScript_line {t : Text} (h : '\n' ∉ t) :
    readScript t = if t = [] then some [] else (parseDelete t).map ([·]) := by
  rw [readScript, strtok, CString.pieces_of_not_mem h]
  cases t with
  | nil => rfl
  | cons c t =>
    rw [if_neg (List.cons_ne_nil c t)]
    cases hp : parseDelete (c :: t) <;> simp [hp]

/-- The number that is read of the first digits of a handle. -/
private theorem ofDigitChars_take_le (n j : Nat) :
    Nat.ofDigitChars 10 ((decimal n).take j) 0 ≤ n ∧
    (Nat.ofDigitChars 10 ((decimal n).take j) 0 = n → 0 < j → (decimal n).length ≤ j) := by
  rcases Nat.lt_or_ge j (decimal n).length with hj | hj
  · rcases Nat.eq_zero_or_pos (Nat.ofDigitChars 10 ((decimal n).take j) 0) with h₀ | h₀
    · rw [h₀]
      refine ⟨Nat.zero_le n, fun hn hpos => ?_⟩
      obtain rfl : n = 0 := hn.symm
      exact hpos
    · have hlt := CString.ofDigitChars_take_decimal hj h₀
      exact ⟨Nat.le_of_lt hlt, fun h => absurd h (Nat.ne_of_lt hlt)⟩
  · rw [List.take_of_length_le hj, CString.ofDigitChars_decimal]
    exact ⟨Nat.le_refl n, fun _ _ => hj⟩

/-- What is read of a script whose last command is cut after `k` characters. -/
private theorem readScript_cut {kept read : List (Chain × Nat)} {x : Chain × Nat} {k : Nat}
    (h : readScript (scriptText kept ++ (deleteCommand x).take k) = some read) :
    read = kept ∨ ∃ y, Shrinks y x ∧ read = kept ++ [y] ∧
      (y = x → (deleteCommand x).length ≤ k) := by
  have hline : '\n' ∉ (deleteCommand x).take k :=
    fun hmem => deleteCommand_line x (List.mem_of_mem_take hmem)
  rw [readScript_scriptText, readScript_line hline, parseDelete_take] at h
  split at h
  · left
    simpa using h.symm
  · split at h
    · exact nomatch h
    · rename_i hk
      obtain ⟨hle, hwhole⟩ := ofDigitChars_take_le x.2 (k - (deleteWords x.1).length)
      refine .inr ⟨(x.1, Nat.ofDigitChars 10
        ((decimal x.2).take (k - (deleteWords x.1).length)) 0), ⟨rfl, hle⟩,
        (by simpa using h.symm), fun hy => ?_⟩
      have hdigits := hwhole (congrArg Prod.snd hy) (by omega)
      rw [deleteCommand, List.length_append]
      omega

/-- The script is read with commands missing and with the last handle cut off; it is read
    completely when it fits the buffer without its last line break. -/
theorem readScript_spec (commands : List (Chain × Nat)) :
    let script := removalScript commands
    (∀ read, readScript (script.used ++ script.leftover) = some read →
      List.SublistForall₂ Shrinks read commands ∧
      (read = commands → (scriptText commands).length ≤ 8192)) ∧
    ((scriptText commands).length ≤ 8192 →
      readScript (script.used ++ script.leftover) = some commands) := by
  refine ⟨fun read hread => ?_, fun hlen => ?_⟩
  · obtain ⟨kept, hkept, hused, hlt, hleft⟩ := removalScript_spec commands
    have hrefl : List.Forall₂ Shrinks kept kept :=
      List.forall₂_same.mpr fun x _ => ⟨rfl, Nat.le_refl x.2⟩
    have hwhole : ∀ read, read = kept → List.SublistForall₂ Shrinks read commands ∧
        (read = commands → (scriptText commands).length ≤ 8192) := by
      rintro _ rfl
      exact ⟨List.sublistForall₂_iff.mpr ⟨_, hrefl, hkept⟩, fun h => by rw [← h]; omega⟩
    rw [hused] at hread
    rcases hleft with hleft | ⟨x, hx, hcut, hleft⟩
    · rw [hleft, readScript_scriptText] at hread
      exact hwhole read (by simpa [readScript, strtok, pieces] using hread.symm)
    · rw [hleft] at hread
      rcases readScript_cut hread with hread | ⟨y, hy, rfl, hyx⟩
      · exact hwhole read hread
      · refine ⟨List.sublistForall₂_iff.mpr ⟨_, List.rel_append hrefl (.cons hy .nil), hx⟩, ?_⟩
        intro heq
        -- nothing was lost, so the cut-off command is the last one and lacks no digit
        have hlast : kept ++ [x] = commands := hx.eq_of_length (by rw [← heq]; simp)
        have hyx := hyx (by simpa using heq.trans hlast.symm)
        rw [← hlast, scriptText_append, scriptText_singleton, List.length_append, deleteLine,
          List.length_append, List.length_singleton]
        omega
  · rcases Nat.lt_or_ge (scriptText commands).length 8192 with hlt | hge
    · rw [removalScript_of_fits hlt, readScript_scriptText]
      simp [readScript, strtok, pieces]
    · -- only the last line break is missing
      induction commands using List.reverseRecOn with
      | nil => exact absurd hge (by decide)
      | append_singleton commands x _ =>
        rw [scriptText_append, scriptText_singleton, List.length_append, deleteLine,
          List.length_append, List.length_singleton] at hlen hge
        have hfull : ¬(deleteLine x).length < 8192 - (scriptText commands).length := by
          rw [deleteLine, List.length_append, List.length_singleton]
          omega
        have hcut : 8192 - (scriptText commands).length - 1 = (deleteCommand x).length := by omega
        have hline := readScript_line (deleteCommand_line x)
        have hne : deleteCommand x ≠ [] := by
          rw [deleteCommand, Ne, List.append_eq_nil_iff]
          exact fun h => decimal_ne_nil _ h.2
        rw [removalScript_append, removalScript_of_fits (by omega), Script.append,
          if_neg hfull]
        simp only [hcut]
        rw [deleteLine_take (by rw [deleteLine, List.length_append]; simp), List.take_length,
          readScript_scriptText, hline, if_neg hne, parseDelete_deleteCommand]
        rfl

/-! ## Executing the script -/

/-- The rules that a list of commands leaves in a chain. -/
def leftBy (commands : List (Chain × Nat)) (chains : Chains) : Chains :=
  fun c => (chains c).filter fun r => (c, r.handle.number) ∉ commands

/-- The rule of a command. -/
def HasRule (chains : Chains) (command : Chain × Nat) : Prop :=
  ∃ r ∈ chains command.1, r.handle.number = command.2

private theorem deleteRule_eq_some {chains chains' : Chains} {x : Chain × Nat} :
    deleteRule chains x = some chains' ↔ HasRule chains x ∧ chains' = leftBy [x] chains := by
  have hleft : leftBy [x] chains = Function.update chains x.1
      ((chains x.1).filter (·.handle.number != x.2)) := by
    funext c
    by_cases hc : c = x.1
    · subst hc
      rw [Function.update_self, leftBy]
      refine List.filter_congr fun r _ => ?_
      by_cases h : r.handle.number = x.2 <;> simp [h, Prod.ext_iff]
    · rw [Function.update_of_ne hc, leftBy, List.filter_eq_self]
      intro r _
      simp [Prod.ext_iff, hc]
  rw [deleteRule, hleft]
  have hany : (chains x.1).any (·.handle.number == x.2) = true ↔ HasRule chains x := by
    simp [HasRule]
  by_cases h : (chains x.1).any (·.handle.number == x.2) = true
  · rw [if_pos h]
    simp [hany.mp h, eq_comm]
  · rw [if_neg h]
    simp [mt hany.mpr h]

private theorem leftBy_leftBy (x : Chain × Nat) (commands : List (Chain × Nat))
    (chains : Chains) : leftBy commands (leftBy [x] chains) = leftBy (x :: commands) chains := by
  funext c
  rw [leftBy, leftBy, leftBy, List.filter_filter]
  refine List.filter_congr fun r _ => ?_
  simp [Bool.and_comm]

private theorem hasRule_leftBy {chains : Chains} {x y : Chain × Nat} :
    HasRule (leftBy [x] chains) y ↔ HasRule chains y ∧ y ≠ x := by
  simp only [HasRule, leftBy, List.mem_filter]
  constructor
  · rintro ⟨r, ⟨hr, hx⟩, hy⟩
    refine ⟨⟨r, hr, hy⟩, fun hyx => ?_⟩
    simp only [← hyx, List.mem_singleton, decide_not, Bool.not_eq_true',
      decide_eq_false_iff_not] at hx
    exact hx (Prod.ext rfl hy)
  · rintro ⟨⟨r, hr, hy⟩, hyx⟩
    refine ⟨r, ⟨hr, ?_⟩, hy⟩
    simp [hy, hyx]

/-- A script is executed when it deletes different rules that exist. -/
theorem foldlM_deleteRule {commands : List (Chain × Nat)} {chains chains' : Chains} :
    commands.foldlM deleteRule chains = some chains' ↔
      commands.Nodup ∧ (∀ x ∈ commands, HasRule chains x) ∧ chains' = leftBy commands chains := by
  induction commands generalizing chains with
  | nil =>
    have hleft : leftBy [] chains = chains := by
      funext c
      simp [leftBy]
    simp [hleft, eq_comm]
  | cons x commands ih =>
    have hstep : (x :: commands).foldlM deleteRule chains = some chains' ↔
        HasRule chains x ∧ commands.foldlM deleteRule (leftBy [x] chains) = some chains' := by
      rw [List.foldlM_cons]
      constructor
      · intro h
        obtain ⟨middle, hx, hrest⟩ := Option.bind_eq_some_iff.mp h
        obtain ⟨hrule, rfl⟩ := deleteRule_eq_some.mp hx
        exact ⟨hrule, hrest⟩
      · rintro ⟨hrule, hrest⟩
        exact Option.bind_eq_some_iff.mpr ⟨_, deleteRule_eq_some.mpr ⟨hrule, rfl⟩, hrest⟩
    rw [hstep, ih, leftBy_leftBy, List.nodup_cons, List.forall_mem_cons]
    simp only [hasRule_leftBy]
    constructor
    · rintro ⟨hx, hnodup, hrest, hleft⟩
      exact ⟨⟨fun hmem => (hrest x hmem).2 rfl, hnodup⟩, ⟨hx, fun y hy => (hrest y hy).1⟩, hleft⟩
    · rintro ⟨⟨hmem, hnodup⟩, ⟨hx, hrest⟩, hleft⟩
      exact ⟨hx, hnodup, fun y hy => ⟨hrest y hy, fun h => hmem (h ▸ hy)⟩, hleft⟩

/-! ## Removal -/

section Removal

variable {id : ContainerId} {chains : Chains}

/-- The chains without the rules of the container. -/
def othersOf (id : ContainerId) (chains : Chains) : Chains :=
  fun c => (chains c).filter (!·.ownedBy id.text)

/-- The commands for all rules of the container. -/
def allOwned (id : ContainerId) (chains : Chains) : List (Chain × Nat) :=
  chainOrder.flatMap fun c => ownedCommands id c (chains c)

/-- Handles identify the rules of a chain. -/
def DistinctHandles (chains : Chains) : Prop :=
  ∀ c, ((chains c).map (·.handle.number)).Nodup

/-- All rules of the container are in the captured listings, and the script for them fits its
    buffer without its last line break. -/
structure Removable (view : NftView) (id : ContainerId) (chains : Chains) : Prop where
  listed : ∀ c, Listed id (view.frame c) (view.survives c) (chains c)
  fits : (scriptText (allOwned id chains)).length ≤ 8192

private theorem mem_chainOrder (c : Chain) : c ∈ chainOrder := by
  cases c <;> decide

theorem mem_allOwned {x : Chain × Nat} :
    x ∈ allOwned id chains ↔
      ∃ r ∈ chains x.1, r.ownedBy id.text = true ∧ r.handle.number = x.2 := by
  simp only [allOwned, ownedCommands, ownedHandles, List.mem_flatMap, List.mem_map,
    List.mem_filter]
  constructor
  · rintro ⟨c, -, h, ⟨r, ⟨hr, howned⟩, rfl⟩, rfl⟩
    exact ⟨r, hr, howned, rfl⟩
  · rintro ⟨r, hr, howned, hx⟩
    exact ⟨x.1, mem_chainOrder x.1, x.2, ⟨r, ⟨hr, howned⟩, hx⟩, rfl⟩

private theorem eq_of_handle_eq (hn : DistinctHandles chains) {c : Chain} {r s : Rule}
    (hr : r ∈ chains c) (hs : s ∈ chains c) (h : r.handle.number = s.handle.number) : r = s :=
  List.inj_on_of_nodup_map (hn c) hr hs h

private theorem mem_allOwned_iff (hn : DistinctHandles chains) {c : Chain} {r : Rule}
    (hr : r ∈ chains c) :
    (c, r.handle.number) ∈ allOwned id chains ↔ r.ownedBy id.text = true := by
  rw [mem_allOwned]
  constructor
  · rintro ⟨s, hs, howned, hhandle⟩
    rwa [← eq_of_handle_eq hn hs hr hhandle]
  · exact fun h => ⟨r, hr, h, rfl⟩

theorem allOwned_nodup (hn : DistinctHandles chains) : (allOwned id chains).Nodup := by
  rw [allOwned, List.nodup_flatMap]
  refine ⟨fun c _ => ?_, ?_⟩
  · rw [ownedCommands, List.nodup_map_iff fun _ _ h => (Prod.mk.inj h).2]
    exact (List.filter_sublist.map _).nodup (hn c)
  · have hdistinct : chainOrder.Nodup := by decide
    refine hdistinct.imp fun hne x hx hy => ?_
    obtain ⟨_, -, rfl⟩ := List.mem_map.mp hx
    obtain ⟨_, -, h⟩ := List.mem_map.mp hy
    exact hne (congrArg Prod.fst h).symm

theorem leftBy_allOwned (hn : DistinctHandles chains) :
    leftBy (allOwned id chains) chains = othersOf id chains := by
  funext c
  refine List.filter_congr fun r hr => ?_
  rw [Bool.eq_iff_iff]
  simp [mem_allOwned_iff hn hr]

/-- Commands that are executed and leave no rule of the container are, if they are not more than
    its rules, the commands for these rules in some order. -/
theorem perm_of_executed (hn : DistinctHandles chains) {commands : List (Chain × Nat)}
    (hlength : commands.length ≤ (allOwned id chains).length)
    (h : ∀ c, ∀ r ∈ leftBy commands chains c, r.ownedBy id.text = false) :
    commands.Perm (allOwned id chains) := by
  have hsubset : allOwned id chains ⊆ commands := by
    intro x hx
    obtain ⟨r, hr, howned, hhandle⟩ := mem_allOwned.mp hx
    by_contra hnot
    have hleft : r ∈ leftBy commands chains x.1 := by
      simp only [leftBy, List.mem_filter, hr, true_and, decide_eq_true_eq, hhandle]
      exact hnot
    exact nomatch howned.symm.trans (h x.1 r hleft)
  exact ((List.subperm_of_subset (allOwned_nodup hn) hsubset).perm_of_length_le hlength).symm

/-- The commands found in the three listings. -/
theorem removalCommands_spec (view : NftView) (id : ContainerId) (chains : Chains) :
    List.SublistForall₂ Shrinks (removalCommands view id.text chains) (allOwned id chains) ∧
    (removalCommands view id.text chains = allOwned id chains ↔
      ∀ c, Listed id (view.frame c) (view.survives c) (chains c)) := by
  have hspec := fun c => chainCommands_spec id c (view.frame c) (view.survives c) (chains c)
  constructor
  · simp only [removalCommands, allOwned, chainOrder, List.flatMap_cons, List.flatMap_nil]
    exact (hspec _).1.append ((hspec _).1.append ((hspec _).1.append .nil))
  · refine ⟨fun h c => (hspec c).2.mp ?_, fun h => ?_⟩
    · exact List.flatMap_inj_of_length_le (fun c => (hspec c).1.length_le) h c (mem_chainOrder c)
    · rw [removalCommands, allOwned]
      refine congrArg chainOrder.flatMap (funext fun c => (hspec c).2.mpr (h c))

theorem allOwned_eq_nil (h : ∀ c, ∀ r ∈ chains c, r.ownedBy id.text = false) :
    allOwned id chains = [] := by
  refine List.eq_nil_iff_forall_not_mem.mpr fun x hx => ?_
  obtain ⟨r, hr, howned, -⟩ := mem_allOwned.mp hx
  exact nomatch howned.symm.trans (h x.1 r hr)

theorem removalCommands_of_nil (view : NftView) (h : allOwned id chains = []) :
    removalCommands view id.text chains = [] := by
  have hlength := (removalCommands_spec view id chains).1.length_le
  rw [h, List.length_nil] at hlength
  exact List.length_eq_zero_iff.mp (Nat.le_zero.mp hlength)

/-- Where a container has no rules, nothing is sent. -/
theorem nftRemoveContainer_of_nil (view : NftView) (h : allOwned id chains = []) :
    nftRemoveContainer view id.text chains = chains := by
  rw [nftRemoveContainer, removalCommands_of_nil view h]
  rfl

private theorem othersOf_of_nil (h : allOwned id chains = []) : othersOf id chains = chains := by
  funext c
  refine List.filter_eq_self.mpr fun r hr => ?_
  cases howned : r.ownedBy id.text with
  | false => rfl
  | true =>
    have hmem : (c, r.handle.number) ∈ allOwned id chains :=
      mem_allOwned.mpr ⟨r, hr, howned, rfl⟩
    rw [h] at hmem
    exact nomatch hmem

/-- A single command is far shorter than the buffer. -/
private theorem deleteCommand_length_lt {x : Chain × Nat} (h : x ∈ allOwned id chains) :
    (deleteCommand x).length < 8191 := by
  obtain ⟨r, -, -, hx⟩ := mem_allOwned.mp h
  have hwords : ∀ c, (deleteWords c).length ≤ 49 := by
    intro c
    cases c <;> decide
  have hdigits : (decimal x.2).length ≤ 20 :=
    CString.decimal_length_le (by decide)
      (Nat.lt_of_lt_of_le (hx ▸ r.handle.lt) (by decide))
  have := hwords x.1
  rw [deleteCommand, List.length_append]
  omega

/-- A script that is read as the commands for the container's rules is sent to `nft`. -/
private theorem used_ne_nil (hne : allOwned id chains ≠ [])
    (hread : readScript ((removalScript (allOwned id chains)).used ++
      (removalScript (allOwned id chains)).leftover) = some (allOwned id chains)) :
    (removalScript (allOwned id chains)).used ≠ [] := by
  intro hused
  obtain ⟨kept, -, hkept, -, hleft⟩ := removalScript_spec (allOwned id chains)
  rw [hused] at hkept hread
  rcases hleft with hleft | ⟨x, hx, hcut, -⟩
  · rw [hleft] at hread
    exact hne (Option.some.inj hread).symm
  · have hlt := deleteCommand_length_lt (hx.subset (List.mem_append_right kept (.head [])))
    rw [← hkept, List.length_nil] at hcut
    omega

/-- The rules of the other containers. -/
theorem ownedBy_of_mem_othersOf {c : Chain} {r : Rule} (h : r ∈ othersOf id chains c) :
    r.ownedBy id.text = false := by
  simpa using (List.mem_filter.mp h).2

/-- Removal deletes the removable rules of a container and nothing else. -/
theorem nftRemoveContainer_of_removable (view : NftView) (hn : DistinctHandles chains)
    (h : Removable view id chains) :
    nftRemoveContainer view id.text chains = othersOf id chains := by
  obtain ⟨-, heq⟩ := removalCommands_spec view id chains
  by_cases hnil : allOwned id chains = []
  · rw [nftRemoveContainer_of_nil view hnil, othersOf_of_nil hnil]
  · have hread := (readScript_spec (allOwned id chains)).2 h.fits
    have hexec : (allOwned id chains).foldlM deleteRule chains =
        some (othersOf id chains) := by
      rw [foldlM_deleteRule]
      refine ⟨allOwned_nodup hn, fun x hx => ?_, (leftBy_allOwned hn).symm⟩
      obtain ⟨r, hr, -, hhandle⟩ := mem_allOwned.mp hx
      exact ⟨r, hr, hhandle⟩
    rw [nftRemoveContainer, heq.mpr h.listed]
    simp only [if_neg (used_ne_nil hnil hread), executeNft, hread, hexec, Option.getD_some]

/-- No rule of the container is left exactly when they are removable: nothing is lost on the way
    from the chains to what `nft` reads. -/
theorem nftRemoveContainer_clears_iff (view : NftView) (hn : DistinctHandles chains) :
    (∀ c, ∀ r ∈ nftRemoveContainer view id.text chains c, r.ownedBy id.text = false) ↔
      Removable view id chains := by
  constructor
  · intro h
    obtain ⟨hsub, heq⟩ := removalCommands_spec view id chains
    have hweight : ∀ a b, Shrinks a b → a.2 ≤ b.2 := fun a b h => h.2
    have hinj : ∀ a b, Shrinks a b → a.2 = b.2 → a = b := fun a b h h₂ => Prod.ext h.1 h₂
    by_cases hnil : allOwned id chains = []
    · exact ⟨heq.mp ((removalCommands_of_nil view hnil).trans hnil.symm), by rw [hnil]; decide⟩
    · -- something was removed, so the script was sent, read and executed
      have hleft : ¬∀ c, ∀ r ∈ chains c, r.ownedBy id.text = false :=
        fun hnone => hnil (allOwned_eq_nil hnone)
      obtain ⟨hread, -⟩ := readScript_spec (removalCommands view id.text chains)
      generalize hafter : nftRemoveContainer view id.text chains = after at h
      simp only [nftRemoveContainer] at hafter
      split at hafter
      · exact absurd (hafter ▸ h) hleft
      · simp only [executeNft] at hafter
        split at hafter
        · exact absurd (hafter ▸ h) hleft
        · rename_i read hsome
          obtain ⟨hshrunk, hfits⟩ := hread read hsome
          cases hexec : read.foldlM deleteRule chains with
          | none =>
            rw [hexec, Option.getD_none] at hafter
            exact absurd (hafter ▸ h) hleft
          | some chains' =>
            obtain ⟨-, -, rfl⟩ := foldlM_deleteRule.mp hexec
            rw [hexec, Option.getD_some] at hafter
            subst hafter
            obtain ⟨hread, hcommands⟩ := hshrunk.eq_of_perm hweight hinj hsub
              (perm_of_executed hn (hshrunk.length_le.trans hsub.length_le) h)
            rw [hcommands] at hread hfits
            exact ⟨heq.mp hcommands, hfits hread⟩
  · intro h c r hr
    rw [nftRemoveContainer_of_removable view hn h] at hr
    exact ownedBy_of_mem_othersOf hr

theorem nftRemoveContainer_eq_iff (view : NftView) (hn : DistinctHandles chains) :
    nftRemoveContainer view id.text chains = othersOf id chains ↔ Removable view id chains := by
  refine ⟨fun h => ?_, nftRemoveContainer_of_removable view hn⟩
  rw [← nftRemoveContainer_clears_iff view hn, h]
  exact fun c r hr => ownedBy_of_mem_othersOf hr

/-! ## Removal behind `mc_nft_add_container` -/

variable {ipv4Host : UInt32} {publishes : List Publish} {handles : Nat → Handle} {before : Chains}

private theorem ownedBy_publishRule (p : Publish) (c : Chain) (handle : Handle) :
    (publishRule id ipv4Host p c handle).ownedBy id.text = true :=
  beq_self_eq_true (some (ownerComment id.text))

/-- The chains in front of the addition are the others behind it. -/
theorem othersOf_nftAddContainer (h : ∀ c, ∀ r ∈ before c, r.ownedBy id.text = false) :
    othersOf id (nftAddContainer id ipv4Host publishes handles before) = before := by
  funext c
  have hbefore : (before c).filter (!·.ownedBy id.text) = before c :=
    List.filter_eq_self.mpr fun r hr => by rw [h c r hr]; rfl
  rw [othersOf, nftAddContainer, List.filter_append, hbefore, List.append_right_eq_self,
    List.filter_eq_nil_iff]
  intro r hr
  obtain ⟨x, -, rfl⟩ := List.mem_map.mp hr
  rw [ownedBy_publishRule]
  decide

private theorem ownedHandles_length_ge (c : Chain) :
    publishes.length ≤
      (ownedHandles id (nftAddContainer id ipv4Host publishes handles before c)).length := by
  rw [ownedHandles, nftAddContainer, List.filter_append, List.map_append, List.length_append]
  refine Nat.le_trans ?_ (Nat.le_add_left _ _)
  rw [List.length_map, List.filter_eq_self.mpr, List.length_map, List.length_zipIdx]
  intro r hr
  obtain ⟨x, -, rfl⟩ := List.mem_map.mp hr
  exact ownedBy_publishRule x.1 c _

private theorem scriptText_length_ge (c : Chain) (ns : List Nat) :
    ns.length * ((deleteWords c).length + 2) ≤ (scriptText (ns.map (c, ·))).length := by
  induction ns with
  | nil => exact Nat.le_of_eq (Nat.zero_mul _)
  | cons n ns ih =>
    have hpos := List.length_pos_iff.mpr (decimal_ne_nil n)
    have hcons : scriptText ((c, n) :: ns.map (c, ·)) =
        deleteLine (c, n) ++ scriptText (ns.map (c, ·)) := by
      rw [← scriptText_singleton, ← scriptText_append, List.singleton_append]
    rw [List.map_cons, hcons, List.length_append, deleteLine, List.length_append, deleteCommand,
      List.length_append, List.length_singleton, List.length_cons, Nat.succ_mul]
    simp only
    omega

/-- The script for 57 published ports does not fit. -/
theorem not_removable_of_publishes (view : NftView) (h : 57 ≤ publishes.length) :
    ¬Removable view id (nftAddContainer id ipv4Host publishes handles before) := by
  rintro ⟨-, hfits⟩
  have hchain : ∀ c, 57 * ((deleteWords c).length + 2) ≤
      (scriptText (ownedCommands id c
        (nftAddContainer id ipv4Host publishes handles before c))).length := fun c =>
    calc 57 * ((deleteWords c).length + 2)
      _ ≤ (ownedHandles id (nftAddContainer id ipv4Host publishes handles before c)).length *
          ((deleteWords c).length + 2) :=
        Nat.mul_le_mul_right _ (Nat.le_trans h (ownedHandles_length_ge c))
      _ ≤ _ := scriptText_length_ge c _
  have h₁ : (deleteWords .prerouting).length = 49 := rfl
  have h₂ : (deleteWords .output).length = 45 := rfl
  have h₃ : (deleteWords .forward).length = 46 := rfl
  have hp := hchain .prerouting
  have ho := hchain .output
  have hf := hchain .forward
  simp only [allOwned, chainOrder, List.flatMap_cons, List.flatMap_nil, scriptText_append,
    List.length_append] at hfits
  omega

/-- Removal deletes the rules of the container and nothing else exactly when they are
    removable. Behind the addition of rules to chains that had none of the container, it
    restores the chains exactly then. -/
theorem nftRemoveContainer_exact_iff (view : NftView) (id : ContainerId) (chains : Chains)
    (hn : DistinctHandles chains) :
    (nftRemoveContainer view id.text chains = othersOf id chains ↔ Removable view id chains) ∧
    ∀ ipv4Host publishes handles before,
      chains = nftAddContainer id ipv4Host publishes handles before →
      (∀ c, ∀ r ∈ before c, r.ownedBy id.text = false) →
      (nftRemoveContainer view id.text chains = before ↔ Removable view id chains) := by
  refine ⟨nftRemoveContainer_eq_iff view hn, ?_⟩
  intro ipv4Host publishes handles before hadd hbefore
  rw [← nftRemoveContainer_eq_iff view hn, hadd, othersOf_nftAddContainer hbefore]

end Removal

/-! ## A container with many ports -/

/-- A chain that holds nothing but rules. -/
def plainView : NftView where
  frame _ := ⟨[], [], by simp, by simp⟩
  survives _ := true

def manyPortsId : ContainerId := generateId fun _ => 0xaa

/-- The options `--publish 8000:80` to `--publish 8056:80`. -/
def manyPorts : List Publish :=
  (List.range 57).map fun i => ⟨0, (8000 + i).toUInt16, 80, ipprotoTcp⟩

/-- Consecutive handles, as `nft` gives them. -/
def manyHandles (i : Nat) : Handle := ⟨i % 1000 + 10, by omega, by omega⟩

/-- The chains after the addition of the first `n` of the ports to empty chains. -/
def manyPortsChains (n : Nat) : Chains :=
  nftAddContainer manyPortsId 0x0a2c0002 (manyPorts.take n) manyHandles fun _ => []

private theorem othersOf_manyPortsChains (n : Nat) :
    othersOf manyPortsId (manyPortsChains n) = fun _ => [] :=
  othersOf_nftAddContainer fun _ _ hr => nomatch hr

/-- Two ports are added and removed. -/
theorem nftRemoveContainer_restores_two :
    DistinctHandles (manyPortsChains 2) ∧
      nftRemoveContainer plainView manyPortsId.text (manyPortsChains 2) = (fun _ => []) ∧
      Removable plainView manyPortsId (manyPortsChains 2) := by
  have hdistinct : DistinctHandles (manyPortsChains 2) := by
    intro c
    cases c <;> decide
  have hremoved : nftRemoveContainer plainView manyPortsId.text (manyPortsChains 2) =
      fun _ => [] := by
    funext c
    rw [← List.isEmpty_iff]
    cases c <;> decide +kernel
  refine ⟨hdistinct, hremoved, ?_⟩
  rw [← (nftRemoveContainer_exact_iff _ _ _ hdistinct).1, othersOf_manyPortsChains]
  exact hremoved

/-- 57 ports are added and not removed. -/
theorem nftRemoveContainer_keeps_ports :
    DistinctHandles (manyPortsChains 57) ∧
      nftRemoveContainer plainView manyPortsId.text (manyPortsChains 57) ≠ fun _ => [] := by
  have hdistinct : DistinctHandles (manyPortsChains 57) := by
    intro c
    cases c <;> decide +kernel
  refine ⟨hdistinct, fun h => ?_⟩
  rw [← othersOf_manyPortsChains 57, nftRemoveContainer_eq_iff _ hdistinct] at h
  exact not_removable_of_publishes _ (by decide) h

end MiniContainer
