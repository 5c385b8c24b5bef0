import Mathlib.Data.List.Perm.Basic

/-!
# Rings that overwrite

A ring of a fixed number of slots that takes any number of items and keeps the last ones. A slot
is empty until it is first written. Reading starts at the oldest item: at the next slot to be
written once the ring is full, and at the first slot before.
-/

/-- A ring: its slots, the slot that is written next, and the number of slots in use. -/
structure SlotRing (α : Type) where
  slots : List (Option α)
  next : Nat
  count : Nat

namespace SlotRing

variable {α : Type}

def empty (n : Nat) : SlotRing α := ⟨List.replicate n none, 0, 0⟩

/-- An item takes the next slot. -/
def push (r : SlotRing α) (a : α) : SlotRing α where
  slots := r.slots.set r.next (some a)
  next := (r.next + 1) % r.slots.length
  count := if r.count < r.slots.length then r.count + 1 else r.count

/-- The slot of the oldest item. -/
def start (r : SlotRing α) : Nat := if r.count = r.slots.length then r.next else 0

/-- The slot at a distance from the oldest item. -/
def entry (r : SlotRing α) (i : Nat) : Option (Option α) := r.slots[(r.start + i) % r.slots.length]?

/-- A ring of `n` slots into which these items were pushed. -/
structure Holds (r : SlotRing α) (n : Nat) (items : List α) : Prop where
  size : r.slots.length = n
  next : r.next = items.length % n
  count : r.count = min n items.length
  /-- The last `n` items stand where they were written. -/
  recent : ∀ j < items.length, items.length ≤ j + n → r.slots[j % n]? = some items[j]?
  /-- The other slots are empty. -/
  unused : ∀ i < n, items.length ≤ i → r.slots[i]? = some none

variable {r : SlotRing α} {n : Nat} {items : List α}

theorem holds_empty (n : Nat) : (empty n : SlotRing α).Holds n [] where
  size := List.length_replicate
  next := (Nat.zero_mod n).symm
  count := (Nat.min_zero n).symm
  recent j hj := absurd hj (Nat.not_lt_zero j)
  unused i hi _ := by rw [empty, List.getElem?_replicate, if_pos hi]

theorem Holds.next_lt (h : r.Holds n items) (hn : 0 < n) : r.next < r.slots.length := by
  rw [h.next, h.size]
  exact Nat.mod_lt _ hn

/-- Among `n` items in a row, no two are written to the same slot. -/
theorem mod_ne_mod {n j k : Nat} (hlt : j < k) (hk : k < j + n) : j % n ≠ k % n := by
  intro heq
  have hdvd : n ∣ k - j := Nat.dvd_of_mod_eq_zero (Nat.sub_mod_eq_zero_of_mod_eq heq.symm)
  have := Nat.le_of_dvd (by omega) hdvd
  omega

/-- The ring holds the last `n` items. -/
theorem Holds.push (h : r.Holds n items) (hn : 0 < n) (a : α) :
    (r.push a).Holds n (items ++ [a]) where
  size := by rw [SlotRing.push, List.length_set, h.size]
  next := by
    rw [SlotRing.push, h.size, h.next, List.length_append, List.length_singleton, Nat.mod_add_mod]
  count := by
    rw [SlotRing.push, h.size, h.count, List.length_append, List.length_singleton]
    dsimp only
    split <;> omega
  recent j hj hlast := by
    rw [List.length_append, List.length_singleton] at hj hlast
    rw [SlotRing.push, h.next]
    rcases Nat.lt_or_eq_of_le (Nat.le_of_lt_succ hj) with hlt | rfl
    · have hne : items.length % n ≠ j % n := (mod_ne_mod hlt (by omega)).symm
      rw [List.getElem?_set_ne hne, h.recent j hlt (by omega), List.getElem?_append_left hlt]
    · have hslot : items.length % n < r.slots.length := by
        rw [h.size]
        exact Nat.mod_lt _ hn
      rw [List.getElem?_set_self hslot, List.getElem?_concat_length]
  unused i hi hlast := by
    rw [List.length_append, List.length_singleton] at hlast
    have hne : items.length % n ≠ i := by
      rw [Nat.mod_eq_of_lt (by omega)]
      omega
    rw [SlotRing.push, h.next, List.getElem?_set_ne hne, h.unused i hi (by omega)]

/-- From the oldest item on, the slots hold the last items in order. -/
theorem Holds.entry (h : r.Holds n items) {i : Nat} (hi : i < r.count) :
    r.entry i = some items[items.length - r.count + i]? := by
  have hcount := h.count
  have hslot : (r.start + i) % n = (items.length - r.count + i) % n := by
    unfold SlotRing.start
    rw [h.size]
    split
    · rename_i hfull
      have hsplit : items.length = items.length - r.count + n := by omega
      rw [h.next, Nat.mod_add_mod]
      conv_lhs => rw [hsplit, Nat.add_right_comm, Nat.add_mod_right]
    · rw [Nat.zero_add, show items.length - r.count + i = i by omega]
  rw [SlotRing.entry, h.size, hslot]
  exact h.recent _ (by omega) (by omega)

end SlotRing

/-! ## What the slots hold -/

namespace List

variable {α β : Type}

/-- Overwriting an entry of a list exchanges what that entry contributes. -/
theorem filterMap_set_perm (f : α → Option β) {l : List α} {i : Nat} {a : α} (h : l[i]? = some a)
    (b : α) :
    ((f a).toList ++ (l.set i b).filterMap f).Perm ((f b).toList ++ l.filterMap f) := by
  induction l generalizing i with
  | nil => simp at h
  | cons c l ih =>
    cases i with
    | zero =>
      obtain rfl : c = a := by simpa using h
      rw [set_cons_zero]
      cases hc : f c <;> cases hb : f b <;> simp [hc, hb, Perm.swap]
    | succ i =>
      rw [getElem?_cons_succ] at h
      have hrest := ih h
      rw [set_cons_succ]
      cases hc : f c with
      | none => simpa [hc] using hrest
      | some d =>
        rw [filterMap_cons_some hc, filterMap_cons_some hc]
        exact (perm_middle.trans (hrest.cons d)).trans perm_middle.symm

end List
