import MiniContainer.Native.LogTail
import MiniContainer.Spec.Logs

/-!
# The tail of a log is its last lines

The ring holds the copies of the last lines, in the slots where they were written
(`TailInv.read`), so the printing loop meets no empty slot and prints them in order. A copy is
always either released once or in one slot. Of a line with a null byte only the part in front of
it is copied (`tail_prints_iff`).
-/

namespace MiniContainer.Logs

/-! ## The heap -/

/-- The numbers of the copies in the slots. -/
def Tail.kept (t : Tail) : List Nat := t.ring.slots.filterMap (Option.map Copy.number)

/-- Every copy was released once, or is in one slot. -/
def Tail.Accounted (t : Tail) : Prop := (t.freed ++ t.kept).Perm (List.range t.copies)

theorem freed_foldl_free (slots : List (Option Copy)) (t : Tail) :
    (slots.foldl Tail.free t).freed = t.freed ++ slots.filterMap (Option.map Copy.number) ∧
      (slots.foldl Tail.free t).copies = t.copies := by
  induction slots generalizing t with
  | nil => simp
  | cons slot slots ih =>
    obtain ⟨hfreed, hcopies⟩ := ih (t.free slot)
    refine ⟨?_, hcopies⟩
    rw [List.foldl_cons, hfreed, Tail.free, List.append_assoc]
    cases slot <;> rfl

/-- Releasing the slots releases what they hold. -/
theorem freed_freeRing (t : Tail) :
    t.freeRing.freed = t.freed ++ t.kept ∧ t.freeRing.copies = t.copies :=
  freed_foldl_free t.ring.slots t

/-- Releasing a slot and overwriting it. -/
theorem perm_overwrite {t : Tail} {old : Option Copy}
    (hold : t.ring.slots[t.ring.next]? = some old) (new : Option Copy) :
    ((t.free old).freed ++ (t.ring.slots.set t.ring.next new).filterMap
      (Option.map Copy.number)).Perm ((new.map Copy.number).toList ++ (t.freed ++ t.kept)) := by
  have hslots := List.filterMap_set_perm (Option.map Copy.number) hold new
  rw [Tail.free, List.append_assoc]
  exact (hslots.append_left t.freed).trans (by
    rw [← List.append_assoc, ← List.append_assoc]
    exact List.perm_append_comm.append_right _)

/-! ## Reading -/

/-- The copies of these lines. -/
def copiesOf (lines : List Bytes) : List Copy := lines.zipIdx.map fun line => ⟨line.2, fputs line.1⟩

theorem copiesOf_append (lines : List Bytes) (line : Bytes) :
    copiesOf (lines ++ [line]) = copiesOf lines ++ [⟨lines.length, fputs line⟩] := by
  simp [copiesOf, List.zipIdx_append]

@[simp] theorem length_copiesOf (lines : List Bytes) : (copiesOf lines).length = lines.length := by
  simp [copiesOf]

/-- After these lines, in a ring of `n` slots. -/
structure TailInv (n : Nat) (lines : List Bytes) (t : Tail) : Prop where
  ring : t.ring.Holds n (copiesOf lines)
  copies : t.copies = lines.length
  accounted : t.Accounted

variable {n : Nat} {lines : List Bytes} {t : Tail}

theorem tailInv_empty (n : Nat) : TailInv n [] { ring := SlotRing.empty n } where
  ring := SlotRing.holds_empty n
  copies := rfl
  accounted := by
    have hkept : (List.replicate n (none : Option Copy)).filterMap (Option.map Copy.number) = [] :=
      List.filterMap_eq_nil_iff.mpr fun slot hslot => by rw [List.eq_of_mem_replicate hslot]; rfl
    unfold Tail.Accounted Tail.kept SlotRing.empty
    rw [hkept]
    exact List.Perm.refl _

theorem TailInv.slot (h : TailInv n lines t) (hn : 0 < n) :
    ∃ old, t.ring.slots[t.ring.next]? = some old :=
  ⟨_, List.getElem?_eq_getElem (h.ring.next_lt hn)⟩

theorem TailInv.read (h : TailInv n lines t) (hn : 0 < n) (line : Bytes) :
    ∃ t', t.read true line = some (.ok t') ∧ TailInv n (lines ++ [line]) t' := by
  obtain ⟨old, hslot⟩ := h.slot hn
  refine ⟨_, by rw [Tail.read, hslot]; rfl, ?_, ?_, ?_⟩
  · rw [copiesOf_append, ← h.copies]
    exact h.ring.push hn _
  · rw [List.length_append, List.length_singleton, ← h.copies]
    rfl
  · have hperm := perm_overwrite hslot (some ⟨t.copies, fputs line⟩)
    show List.Perm _ (List.range (t.copies + 1))
    rw [List.range_succ]
    exact hperm.trans (List.perm_append_comm.trans (h.accounted.append_right _))

/-- When `strdup` fails, every copy has been released once. -/
theorem TailInv.read_fails (h : TailInv n lines t) (hn : 0 < n) (line : Bytes) :
    ∃ t', t.read false line = some (.error t') ∧ t'.freed.Perm (List.range t'.copies) := by
  obtain ⟨old, hslot⟩ := h.slot hn
  refine ⟨_, by rw [Tail.read, hslot]; rfl, ?_⟩
  rw [(freed_freeRing _).1, (freed_freeRing _).2]
  exact (perm_overwrite hslot none).trans h.accounted

/-- The reading loop, as far as `strdup` succeeds. -/
theorem TailInv.readLines {before : List Bytes} (h : TailInv n before t) (hn : 0 < n)
    (allocate : Nat → Bool) (lines : List Bytes) :
    (∃ t', Tail.readLines allocate lines t = some (.ok t') ∧ TailInv n (before ++ lines) t' ∧
      ∀ k, before.length ≤ k → k < before.length + lines.length → allocate k = true) ∨
    ∃ t', Tail.readLines allocate lines t = some (.error t') ∧
      t'.freed.Perm (List.range t'.copies) ∧
      ∃ k, k < before.length + lines.length ∧ allocate k = false := by
  induction lines generalizing before t with
  | nil =>
    left
    refine ⟨t, rfl, by rwa [List.append_nil], fun k hle hlt => ?_⟩
    rw [List.length_nil] at hlt
    omega
  | cons line lines ih =>
    cases hallocate : allocate t.copies with
    | true =>
      obtain ⟨t', hread, hinv⟩ := h.read hn line
      have hstep : Tail.readLines allocate (line :: lines) t =
          Tail.readLines allocate lines t' := by
        rw [Tail.readLines, hallocate, hread]
      rw [hstep]
      rcases ih hinv with ⟨t'', hrest, hinv', hall⟩ | ⟨t'', hrest, hfreed, k, hk, hfails⟩
      · left
        refine ⟨t'', hrest, by rwa [List.append_assoc] at hinv', fun k hle hlt => ?_⟩
        rw [List.length_append, List.length_singleton] at hall
        rw [List.length_cons] at hlt
        rcases Nat.lt_or_eq_of_le hle with hgt | rfl
        · exact hall k hgt (by omega)
        · rw [← h.copies, hallocate]
      · right
        rw [List.length_append, List.length_singleton] at hk
        exact ⟨t'', hrest, hfreed, k, by rw [List.length_cons]; omega, hfails⟩
    | false =>
      right
      obtain ⟨t', hread, hfreed⟩ := h.read_fails hn line
      refine ⟨t', by rw [Tail.readLines, hallocate, hread], hfreed, t.copies, ?_, hallocate⟩
      rw [h.copies, List.length_cons]
      omega

/-! ## Printing -/

theorem fputs_fputs (line : Bytes) : fputs (fputs line) = fputs line := by
  unfold fputs
  rw [List.takeWhile_takeWhile]
  simp

/-- The printing loop from an index on prints the copies from there on. -/
theorem printFrom_eq {ring : SlotRing Copy} {items : List Copy} (h : ring.Holds n items)
    {index turns : Nat} (hturns : index + turns = ring.count) :
    Tail.printFrom ring index turns =
      some ((items.drop (items.length - ring.count + index)).flatMap (fputs ·.text)) := by
  induction turns generalizing index with
  | zero =>
    have hcount := h.count
    rw [Tail.printFrom, List.drop_eq_nil_of_le (by omega)]
    rfl
  | succ turns ih =>
    have hcount := h.count
    have hlt : items.length - ring.count + index < items.length := by omega
    have hentry := h.entry (i := index) (by omega)
    rw [List.getElem?_eq_getElem hlt] at hentry
    rw [Tail.printFrom, hentry, List.drop_eq_getElem_cons hlt]
    dsimp only
    rw [ih (by omega)]
    rfl

theorem map_text_copiesOf (lines : List Bytes) :
    (copiesOf lines).map (fputs ·.text) = lines.map fputs := by
  have hline : (fun line : Bytes × Nat => fputs (fputs line.1)) = fputs ∘ Prod.fst := by
    funext line
    exact fputs_fputs line.1
  calc (copiesOf lines).map (fputs ·.text)
      = lines.zipIdx.map fun line => fputs (fputs line.1) := by rw [copiesOf, List.map_map]; rfl
    _ = (lines.zipIdx.map Prod.fst).map fputs := by rw [hline, List.map_map]
    _ = lines.map fputs := by rw [List.zipIdx_map_fst]

/-- What the ring prints: the last lines, each up to a null byte. -/
theorem TailInv.print (h : TailInv n lines t) :
    Tail.printFrom t.ring 0 t.ring.count = some ((lastLines n lines).flatMap fputs) := by
  have hdrop : lines.length - min n lines.length + 0 = lines.length - n := by omega
  rw [printFrom_eq h.ring (Nat.zero_add _), h.ring.count, length_copiesOf, hdrop, lastLines,
    List.flatMap_def, List.flatMap_def, List.map_drop, List.map_drop, map_text_copiesOf]

theorem length_flatMap_fputs_le (lines : List Bytes) :
    (lines.flatMap fputs).length ≤ lines.flatten.length := by
  induction lines with
  | nil => exact Nat.le_refl _
  | cons line lines ih =>
    rw [List.flatMap_cons, List.flatten_cons, List.length_append, List.length_append]
    exact Nat.add_le_add (List.takeWhile_sublist _).length_le ih

/-- Nothing is lost exactly if no line has a null byte. -/
theorem flatMap_fputs_eq_iff (lines : List Bytes) :
    lines.flatMap fputs = lines.flatten ↔ ∀ line ∈ lines, (0 : UInt8) ∉ line := by
  induction lines with
  | nil => simp
  | cons line lines ih =>
    rw [List.flatMap_cons, List.flatten_cons, List.forall_mem_cons, ← ih]
    constructor
    · intro h
      have hline : (0 : UInt8) ∉ line := by
        intro hnull
        have hlt := length_fputs_lt hnull
        have hrest := length_flatMap_fputs_le lines
        have hlength := congrArg List.length h
        rw [List.length_append, List.length_append] at hlength
        omega
      rw [fputs_of_not_mem hline] at h
      exact ⟨hline, List.append_cancel_left h⟩
    · rintro ⟨hline, hrest⟩
      rw [fputs_of_not_mem hline, hrest]

/-! ## The whole function -/

theorem showLines_of_pos {n : Nat} (hn : 1 ≤ n) (calloc : Bool) (allocate : Nat → Bool)
    (lines : List Bytes) :
    showLines n calloc allocate lines =
      if !calloc then some ⟨[], .internal, 0, []⟩ else showTail n allocate lines := by
  have hpos : ¬(n : Int) < 0 := by omega
  have hzero : ¬(n : Int) = 0 := by omega
  rw [showLines, if_neg hpos, if_neg hzero, Int.toNat_natCast]

/-- For every tail, `show_log` meets no empty slot, and at every time a copy is either released
    once or in one slot. At the end all copies are released, whether the allocations succeed or
    not. If they do, it prints the last lines exactly if none of them has a null byte. -/
theorem tail_prints_iff (n : Nat) (hn : 1 ≤ n) (calloc : Bool) (allocate : Nat → Bool)
    (lines : List Bytes) :
    (∀ t, Tail.readLines allocate lines { ring := SlotRing.empty n } = some (.ok t) →
      t.Accounted) ∧
    ∃ shown, showLines n calloc allocate lines = some shown ∧
      shown.freed.Perm (List.range shown.copies) ∧
      (shown.exit = .ok ↔ calloc = true ∧ ∀ k < lines.length, allocate k = true) ∧
      (shown.exit = .ok → shown.copies = lines.length ∧
        (lastLines n lines).length = min n lines.length ∧
        (shown.printed = (lastLines n lines).flatten ↔
          ∀ line ∈ lastLines n lines, (0 : UInt8) ∉ line)) := by
  rw [showLines_of_pos hn]
  rcases (tailInv_empty n).readLines hn allocate lines with
    ⟨t, hread, hinv, hall⟩ | ⟨t, hread, hfreed, k, hk, hfails⟩
  · refine ⟨fun t' ht' => ?_, ?_⟩
    · rw [hread] at ht'
      obtain rfl := Except.ok.inj (Option.some.inj ht')
      exact hinv.accounted
    · cases calloc with
      | false => exact ⟨_, rfl, by simp, by simp, by simp⟩
      | true =>
        rw [if_neg (by decide), showTail, hread]
        dsimp only
        rw [hinv.print, List.nil_append]
        refine ⟨_, rfl, ?_, ?_, ?_⟩
        · rw [(freed_freeRing t).1]
          exact hinv.accounted
        · refine iff_of_true rfl ⟨rfl, fun k hk => hall k (Nat.zero_le k) ?_⟩
          rwa [List.length_nil, Nat.zero_add]
        · intro _
          refine ⟨hinv.copies, ?_, flatMap_fputs_eq_iff _⟩
          rw [lastLines, List.length_drop]
          omega
  · refine ⟨fun t' ht' => ?_, ?_⟩
    · rw [hread] at ht'
      cases ht'
    · cases calloc with
      | false => exact ⟨_, rfl, by simp, by simp, by simp⟩
      | true =>
        rw [if_neg (by decide), showTail, hread]
        refine ⟨_, rfl, hfreed, ?_, ?_⟩
        · refine iff_of_false (by simp) ?_
          rintro ⟨-, hall⟩
          rw [List.length_nil, Nat.zero_add] at hk
          rw [hall k hk] at hfails
          cases hfails
        · intro hexit
          cases hexit

/-- The last two of three lines. -/
theorem tail_prints_two :
    ∃ shown, showLines 2 true (fun _ => true) [[97, 10], [98, 10], [99, 10]] = some shown ∧
      shown.printed = [98, 10, 99, 10] := by
  obtain ⟨-, shown, hshown, -, hexit, hprinted⟩ := tail_prints_iff 2 (by decide) true
    (fun _ => true) [[97, 10], [98, 10], [99, 10]]
  have hok := hexit.mpr ⟨rfl, fun _ _ => rfl⟩
  refine ⟨shown, hshown, (hprinted hok).2.2.mpr ?_⟩
  decide

/-- `logs --tail 1` prints one of the three bytes of a line with a null byte in the middle. -/
theorem tail_cuts_line :
    (showLines 1 true (fun _ => true) [[104, 0, 10]]).map Shown.printed = some [104] ∧
      lastLines 1 [[104, 0, 10]] = [[104, 0, 10]] := by
  decide

end MiniContainer.Logs
