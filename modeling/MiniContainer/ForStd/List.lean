import Mathlib.Algebra.BigOperators.Group.List.Basic
import Mathlib.Algebra.Order.BigOperators.Group.List
import Mathlib.Algebra.Order.Ring.Nat
import Mathlib.Data.List.AList
import Mathlib.Data.List.Forall2

/-!
# Lists

* traversals of lists in `Option`, for decoders that work element by element
* lists that arise from another one by dropping some elements and shrinking others
* association lists whose values have one type
-/

namespace List

variable {α β : Type}

/-- A traversal returns the list itself when every element is mapped to itself, and only
    then. -/
theorem mapM_eq_some_self_iff {f : α → Option α} {xs : List α} :
    xs.mapM f = some xs ↔ ∀ x ∈ xs, f x = some x := by
  induction xs with
  | nil => simp
  | cons x xs ih =>
    rw [List.mapM_cons, List.forall_mem_cons, ← ih]
    cases f x with
    | none => simp
    | some y =>
      cases mapM f xs with
      | none | some ys => simp

/-- Decoding an encoded list, when every element reads back. -/
theorem mapM_map_of_forall {enc : α → β} {dec : β → Option α} {xs : List α}
    (h : ∀ x ∈ xs, dec (enc x) = some x) : (xs.map enc).mapM dec = some xs := by
  rw [List.mapM_map]
  exact mapM_eq_some_self_iff.mpr h

/-! ## Dropping and shrinking -/

theorem Forall₂.sum_le {R : α → α → Prop} {w : α → Nat} (hle : ∀ a b, R a b → w a ≤ w b)
    {l₁ l₂ : List α} (h : Forall₂ R l₁ l₂) : (l₁.map w).sum ≤ (l₂.map w).sum := by
  induction h with
  | nil => rfl
  | cons hab _ ih =>
    simp only [map_cons, sum_cons]
    have := hle _ _ hab
    omega

/-- Pairwise smaller lists with equal sums are equal. -/
theorem Forall₂.eq_of_sum_eq {R : α → α → Prop} {w : α → Nat} (hle : ∀ a b, R a b → w a ≤ w b)
    (heq : ∀ a b, R a b → w a = w b → a = b) {l₁ l₂ : List α} (h : Forall₂ R l₁ l₂)
    (hsum : (l₁.map w).sum = (l₂.map w).sum) : l₁ = l₂ := by
  induction h with
  | nil => rfl
  | cons hab ht ih =>
    simp only [map_cons, sum_cons] at hsum
    have h₁ := hle _ _ hab
    have h₂ := ht.sum_le hle
    rw [heq _ _ hab (by omega), ih (by omega)]

theorem SublistForall₂.length_le {R : α → α → Prop} {l₁ l₂ : List α}
    (h : SublistForall₂ R l₁ l₂) : l₁.length ≤ l₂.length := by
  obtain ⟨l, hl, hsub⟩ := sublistForall₂_iff.mp h
  rw [hl.length_eq]
  exact hsub.length_le

theorem SublistForall₂.append {R : α → α → Prop} {l₁ l₂ k₁ k₂ : List α}
    (hl : SublistForall₂ R l₁ l₂) (hk : SublistForall₂ R k₁ k₂) :
    SublistForall₂ R (l₁ ++ k₁) (l₂ ++ k₂) := by
  obtain ⟨l, hl, hsl⟩ := sublistForall₂_iff.mp hl
  obtain ⟨k, hk, hsk⟩ := sublistForall₂_iff.mp hk
  exact sublistForall₂_iff.mpr ⟨l ++ k, rel_append hl hk, hsl.append hsk⟩

theorem SublistForall₂.sum_le {R : α → α → Prop} {w : α → Nat}
    (hle : ∀ a b, R a b → w a ≤ w b) {l₁ l₂ : List α} (h : SublistForall₂ R l₁ l₂) :
    (l₁.map w).sum ≤ (l₂.map w).sum := by
  obtain ⟨l, hl, hsub⟩ := sublistForall₂_iff.mp h
  exact (hl.sum_le hle).trans ((hsub.map w).sum_le_sum fun _ _ => Nat.zero_le _)

/-- Dropping and shrinking elements changes the length or the sum of the weights, unless
    nothing was dropped and nothing shrank. -/
theorem SublistForall₂.eq_of_sum_eq {R : α → α → Prop} {w : α → Nat}
    (hle : ∀ a b, R a b → w a ≤ w b) (heq : ∀ a b, R a b → w a = w b → a = b) {l₁ l₂ : List α}
    (h : SublistForall₂ R l₁ l₂) (hlen : l₁.length = l₂.length)
    (hsum : (l₁.map w).sum = (l₂.map w).sum) : l₁ = l₂ := by
  obtain ⟨l, hl, hsub⟩ := sublistForall₂_iff.mp h
  obtain rfl := hsub.eq_of_length (hl.length_eq.symm.trans hlen)
  exact hl.eq_of_sum_eq hle heq hsum

/-- When elements are dropped and shrunk in two stages and the result is a permutation of
    the list, neither stage did anything. -/
theorem SublistForall₂.eq_of_perm {R : α → α → Prop} {w : α → Nat}
    (hle : ∀ a b, R a b → w a ≤ w b) (heq : ∀ a b, R a b → w a = w b → a = b)
    {l₁ l₂ l₃ : List α} (h₁ : SublistForall₂ R l₁ l₂) (h₂ : SublistForall₂ R l₂ l₃)
    (hp : l₁ ~ l₃) : l₁ = l₂ ∧ l₂ = l₃ := by
  have hsum := (hp.map w).sum_eq
  have hlen := hp.length_eq
  have hsum₁ := h₁.sum_le hle
  have hsum₂ := h₂.sum_le hle
  have hlen₁ := h₁.length_le
  have hlen₂ := h₂.length_le
  exact ⟨h₁.eq_of_sum_eq hle heq (by omega) (by omega),
    h₂.eq_of_sum_eq hle heq (by omega) (by omega)⟩

/-! ## Positions -/

/-- A statement about every position of a list, by recursion on the list. -/
theorem forall_split_cons {P : List α → α → Prop} {x : α} {xs : List α} :
    (∀ before y after, x :: xs = before ++ y :: after → P before y) ↔
      P [] x ∧ ∀ before y after, xs = before ++ y :: after → P (x :: before) y := by
  refine ⟨fun h => ⟨h [] x xs rfl, fun b y a hxs => h (x :: b) y a (by rw [hxs]; rfl)⟩, ?_⟩
  rintro ⟨hx, hxs⟩ before y after h
  cases before with
  | nil =>
    obtain ⟨rfl, -⟩ := List.cons.inj h
    exact hx
  | cons b before =>
    obtain ⟨rfl, hrest⟩ := List.cons.inj h
    exact hxs before y after hrest

/-- Concatenations of lists of which none is longer than its counterpart are equal only if
    all parts are. -/
theorem flatMap_inj_of_length_le {γ : Type} {f g : γ → List α} {xs : List γ}
    (hlen : ∀ x, (f x).length ≤ (g x).length) (h : xs.flatMap f = xs.flatMap g) :
    ∀ x ∈ xs, f x = g x := by
  have hsum : ∀ ys : List γ, (ys.flatMap f).length ≤ (ys.flatMap g).length := by
    intro ys
    induction ys with
    | nil => exact Nat.le_refl 0
    | cons y ys ih =>
      rw [flatMap_cons, flatMap_cons, length_append, length_append]
      exact Nat.add_le_add (hlen y) ih
  induction xs with
  | nil => simp
  | cons x xs ih =>
    rw [flatMap_cons, flatMap_cons] at h
    have hlength := congrArg List.length h
    rw [length_append, length_append] at hlength
    have h₁ := hlen x
    have h₂ := hsum xs
    obtain ⟨hx, hxs⟩ := List.append_inj h (by omega)
    exact List.forall_mem_cons.mpr ⟨hx, ih hxs⟩

end List

namespace AList

variable {α β : Type} [DecidableEq α]

@[grind =] theorem lookup_insert_eq_ite (s : AList fun _ : α => β) (a a' : α) (b : β) :
    (s.insert a b).lookup a' = if a' = a then some b else s.lookup a' := by
  split
  · rename_i h
    rw [h, lookup_insert]
  · rename_i h
    exact lookup_insert_ne h

@[grind =] theorem lookup_erase_eq_ite (s : AList fun _ : α => β) (a a' : α) :
    (s.erase a).lookup a' = if a' = a then none else s.lookup a' := by
  split
  · rename_i h
    rw [h, lookup_erase]
  · rename_i h
    exact lookup_erase_ne h

end AList
