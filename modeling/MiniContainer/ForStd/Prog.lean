import Mathlib.Logic.Basic

/-!
# Programs over primitive operations

A `Prog` is a program written as a tree of primitive operations: it either
returns a value or performs one operation and continues with its answer. The
operations are opaque here; a semantics `step` says what each of them does to a
world when the program runs alone and the environment makes a certain choice, with
`none` for an operation that blocks.

* `Prog.eval`         runs a program alone to its end
* `Prog.killedAfter`  the world that its first `n` operations leave
* `Prog.Total`        it runs to its end whatever is chosen, keeps an invariant on its way, and
  its result is as specified
* `Prog.Wlp`          whatever is chosen, if it runs to its end, its result is as specified
* `Prog.Uses`         every operation that it may perform satisfies a predicate
* `Prog.translate`    the same program over other operations
* `Prog.expand`       the same program with each operation carried out by a program

The same trees are interleaved by `MiniContainer.ForStd.Interleave`.
-/

/-- A program over operations `Op`, where `o : Op` is answered by a `Res o`. -/
inductive Prog (Op : Type) (Res : Op → Type) (α : Type) where
  | ret (value : α)
  | act (o : Op) (next : Res o → Prog Op Res α)

namespace Prog

variable {Op : Type} {Res : Op → Type} {α β W Ch : Type}

/-- Sequential composition. -/
def bind : Prog Op Res α → (α → Prog Op Res β) → Prog Op Res β
  | .ret a, f => f a
  | .act o next, f => .act o fun r => (next r).bind f

instance : Monad (Prog Op Res) where
  pure := .ret
  bind := bind

/-- The program that performs one operation and returns its answer. -/
def perform (o : Op) : Prog Op Res (Res o) := .act o .ret

theorem pure_eq (a : α) : (pure a : Prog Op Res α) = .ret a := rfl

theorem bind_eq (p : Prog Op Res α) (f : α → Prog Op Res β) : p >>= f = p.bind f := rfl

@[simp] theorem ret_bind (a : α) (f : α → Prog Op Res β) : (Prog.ret a).bind f = f a := rfl

@[simp] theorem act_bind (o : Op) (next : Res o → Prog Op Res α) (f : α → Prog Op Res β) :
    (Prog.act o next).bind f = .act o fun r => (next r).bind f := rfl

theorem bind_assoc {γ : Type} (p : Prog Op Res α) (f : α → Prog Op Res β)
    (g : β → Prog Op Res γ) : (p.bind f).bind g = p.bind fun a => (f a).bind g := by
  induction p with
  | ret a => rfl
  | act o next ih =>
    rw [act_bind, act_bind, act_bind]
    congr 1
    funext r
    exact ih r

@[simp] theorem perform_bind (o : Op) (f : Res o → Prog Op Res β) :
    (perform o).bind f = .act o f := rfl

/-- The operation the program performs next, if it has not returned. -/
def head : Prog Op Res α → Option Op
  | .ret _ => none
  | .act o _ => some o

variable {Op' : Type} {Res' : Op' → Type}

/-- The program with each of its operations performed as another one, whose answer is
    translated back. -/
def translate (f : Op → Op') (answer : ∀ o, Res' (f o) → Res o) : Prog Op Res α → Prog Op' Res' α
  | .ret a => .ret a
  | .act o next => .act (f o) fun r => (next (answer o r)).translate f answer

/-- The program with each of its operations carried out by a program over other operations. -/
def expand (f : (o : Op) → Prog Op' Res' (Res o)) : Prog Op Res α → Prog Op' Res' α
  | .ret a => .ret a
  | .act o next => (f o).bind fun r => (next r).expand f

/-! ## Running alone -/

section Sequential

variable (step : Ch → W → (o : Op) → Option (Res o × W))

/-- Run a program alone to its end, with one choice for each operation; `none` when an
    operation blocks. -/
def eval : Prog Op Res α → (Nat → Ch) → W → Option (α × W)
  | .ret a, _, w => some (a, w)
  | .act o k, χ, w =>
    match step (χ 0) w o with
    | none => none
    | some (r, w') => (k r).eval (fun n => χ (n + 1)) w'

/-- The world in which a program is killed after at most `n` operations. -/
def killedAfter : Nat → Prog Op Res α → (Nat → Ch) → W → W
  | 0, _, _, w => w
  | _ + 1, .ret _, _, w => w
  | n + 1, .act o k, χ, w =>
    match step (χ 0) w o with
    | none => w
    | some (r, w') => killedAfter n (k r) (fun n => χ (n + 1)) w'

variable (ok : Op → Ch → Prop)

/-- Whatever is chosen among what is `ok` for an operation, each operation of the program has a
    step, `I` holds behind it, and `Q` holds at the end. -/
def Total (I : W → Prop) (Q : α → W → Prop) : Prog Op Res α → W → Prop
  | .ret a, w => Q a w
  | .act o k, w =>
    ∀ ch, ok o ch → ∃ r w', step ch w o = some (r, w') ∧ I w' ∧ Total I Q (k r) w'

variable {step ok} {I : W → Prop}

theorem Total.bind {Q : β → W → Prop} {p : Prog Op Res α} {f : α → Prog Op Res β} {w : W}
    (h : Total step ok I (fun a w => Total step ok I Q (f a) w) p w) :
    Total step ok I Q (p.bind f) w := by
  induction p generalizing w with
  | ret a => exact h
  | act o k ih =>
    intro ch hch
    obtain ⟨r, w', hs, hI, hk⟩ := h ch hch
    exact ⟨r, w', hs, hI, ih r hk⟩

theorem Total.mono {Q Q' : α → W → Prop} {p : Prog Op Res α} {w : W} (h : Total step ok I Q p w)
    (hQ : ∀ a w, Q a w → Q' a w) : Total step ok I Q' p w := by
  induction p generalizing w with
  | ret a => exact hQ a w h
  | act o k ih =>
    intro ch hch
    obtain ⟨r, w', hs, hI, hk⟩ := h ch hch
    exact ⟨r, w', hs, hI, ih r hk⟩

/-- The invariant on the way can be forgotten. -/
theorem Total.keepTrivial {Q : α → W → Prop} {p : Prog Op Res α} {w : W}
    (h : Total step ok I Q p w) : Total step ok (fun _ => True) Q p w := by
  induction p generalizing w with
  | ret a => exact h
  | act o k ih =>
    intro ch hch
    obtain ⟨r, w', hs, -, hk⟩ := h ch hch
    exact ⟨r, w', hs, trivial, ih r hk⟩

/-- A run to the end ends as specified. -/
theorem Total.eval {Q : α → W → Prop} {p : Prog Op Res α} {w : W} (h : Total step ok I Q p w)
    {χ : Nat → Ch} (hχ : ∀ n o, ok o (χ n)) : ∃ a w', p.eval step χ w = some (a, w') ∧ Q a w' := by
  induction p generalizing w χ with
  | ret a => exact ⟨a, w, rfl, h⟩
  | act o k ih =>
    obtain ⟨r, w', hs, -, hk⟩ := h (χ 0) (hχ 0 o)
    obtain ⟨a, w₁, he, hQ⟩ := ih r hk fun n => hχ (n + 1)
    exact ⟨a, w₁, by simp only [Prog.eval, hs, he], hQ⟩

/-- Two specifications of one program agree on some end of it. -/
theorem Total.meet {I' : W → Prop} {Q Q' : α → W → Prop} {p : Prog Op Res α} {w : W}
    (h : Total step ok I Q p w) (h' : Total step ok I' Q' p w) {ch : Ch} (hch : ∀ o, ok o ch) :
    ∃ a w', Q a w' ∧ Q' a w' := by
  obtain ⟨a, w₁, heval, hQ⟩ := h.eval (χ := fun _ => ch) fun _ => hch
  obtain ⟨a', w₂, heval', hQ'⟩ := h'.eval (χ := fun _ => ch) fun _ => hch
  obtain ⟨rfl, rfl⟩ := Prod.mk.inj (Option.some.inj (heval.symm.trans heval'))
  exact ⟨a, w₁, hQ, hQ'⟩

/-- Wherever the program is killed, `I` holds. -/
theorem Total.killedAfter {Q : α → W → Prop} {p : Prog Op Res α} {w : W}
    (h : Total step ok I Q p w) (hI : I w) {χ : Nat → Ch} (hχ : ∀ n o, ok o (χ n)) (n : Nat) :
    I (killedAfter step n p χ w) := by
  induction n generalizing p w χ with
  | zero => exact hI
  | succ n ih =>
    cases p with
    | ret a => exact hI
    | act o k =>
      obtain ⟨r, w', hs, hI', hk⟩ := h (χ 0) (hχ 0 o)
      simp only [Prog.killedAfter, hs]
      exact ih hk hI' fun n => hχ (n + 1)

/-- Whatever is chosen, if the program ends, `Q` holds there. -/
def Wlp (step : Ch → W → (o : Op) → Option (Res o × W)) (Q : α → W → Prop) :
    Prog Op Res α → W → Prop
  | .ret a, w => Q a w
  | .act o k, w => ∀ ch r w', step ch w o = some (r, w') → Wlp step Q (k r) w'

theorem Wlp.mono {Q Q' : α → W → Prop} {p : Prog Op Res α} {w : W} (h : Wlp step Q p w)
    (hQ : ∀ a w, Q a w → Q' a w) : Wlp step Q' p w := by
  induction p generalizing w with
  | ret a => exact hQ a w h
  | act o k ih => exact fun ch r w' hs => ih r (h ch r w' hs)

theorem Wlp.bind {Q : β → W → Prop} {p : Prog Op Res α} {f : α → Prog Op Res β} {w : W}
    (h : Wlp step (fun a w => Wlp step Q (f a) w) p w) : Wlp step Q (p.bind f) w := by
  induction p generalizing w with
  | ret a => exact h
  | act o k ih => exact fun ch r w' hs => ih r (h ch r w' hs)

/-- A run to the end ends as specified. -/
theorem Wlp.eval {Q : α → W → Prop} {p : Prog Op Res α} {w w' : W} {a : α} (h : Wlp step Q p w)
    {χ : Nat → Ch} (he : p.eval step χ w = some (a, w')) : Q a w' := by
  induction p generalizing w χ with
  | ret b =>
    cases he
    exact h
  | act o k ih =>
    unfold Prog.eval at he
    split at he
    · exact nomatch he
    · rename_i r w₁ hs
      exact ih r (h _ r w₁ hs) he

end Sequential

/-! ## The operations of a program -/

/-- Every operation that the program may ever perform satisfies `allowed`. -/
def Uses (allowed : Op → Prop) : Prog Op Res α → Prop
  | .ret _ => True
  | .act o next => allowed o ∧ ∀ r, (next r).Uses allowed

theorem Uses.bind {allowed : Op → Prop} {p : Prog Op Res α} {f : α → Prog Op Res β}
    (hp : p.Uses allowed) (hf : ∀ a, (f a).Uses allowed) : (p.bind f).Uses allowed := by
  induction p with
  | ret a => exact hf a
  | act o next ih => exact ⟨hp.1, fun r => ih r (hp.2 r)⟩

theorem Uses.mono {allowed allowed' : Op → Prop} {p : Prog Op Res α}
    (hp : p.Uses allowed) (h : ∀ o, allowed o → allowed' o) : p.Uses allowed' := by
  induction p with
  | ret a => trivial
  | act o next ih => exact ⟨h o hp.1, fun r => ih r (hp.2 r)⟩

theorem uses_true (p : Prog Op Res α) : p.Uses fun _ => True := by
  induction p with
  | ret a => trivial
  | act o next ih => exact ⟨trivial, ih⟩

theorem Uses.translate {allowed : Op → Prop} {allowed' : Op' → Prop} {f : Op → Op'}
    {answer : ∀ o, Res' (f o) → Res o} {p : Prog Op Res α} (hp : p.Uses allowed)
    (h : ∀ o, allowed o → allowed' (f o)) : (p.translate f answer).Uses allowed' := by
  induction p with
  | ret a => trivial
  | act o next ih => exact ⟨h o hp.1, fun r => ih _ (hp.2 _)⟩

/-- A program whose operations never block and preserve `K`. -/
theorem Total.of_uses {step : Ch → W → (o : Op) → Option (Res o × W)} {ok : Op → Ch → Prop}
    {K : W → Prop} {allowed : Op → Prop} {p : Prog Op Res α} {w : W} (hp : p.Uses allowed)
    (hK : ∀ o, allowed o → ∀ ch w, ok o ch → K w → ∃ r w', step ch w o = some (r, w') ∧ K w')
    (hw : K w) : Total step ok (fun _ => True) (fun _ w' => K w') p w := by
  induction p generalizing w with
  | ret a => exact hw
  | act o k ih =>
    intro ch hch
    obtain ⟨r, w', hs, hK'⟩ := hK o hp.1 ch w hch hw
    exact ⟨r, w', hs, trivial, ih r (hp.2 r) hK'⟩

/-- Fewer choices are allowed for the operations of the program. -/
theorem Total.restrict {step : Ch → W → (o : Op) → Option (Res o × W)} {ok ok' : Op → Ch → Prop}
    {I : W → Prop} {Q : α → W → Prop} {allowed : Op → Prop} {p : Prog Op Res α} {w : W}
    (h : Total step ok I Q p w) (hp : p.Uses allowed)
    (hok : ∀ o, allowed o → ∀ ch, ok' o ch → ok o ch) : Total step ok' I Q p w := by
  induction p generalizing w with
  | ret a => exact h
  | act o k ih =>
    intro ch hch
    obtain ⟨r, w', hs, hI, hk⟩ := h ch (hok o hp.1 ch hch)
    exact ⟨r, w', hs, hI, ih r hk (hp.2 r)⟩

/-- What the operations of the program preserve holds at its end too. -/
theorem Total.keep {step : Ch → W → (o : Op) → Option (Res o × W)} {ok : Op → Ch → Prop}
    {I J : W → Prop} {Q : α → W → Prop} {allowed : Op → Prop} {p : Prog Op Res α} {w : W}
    (h : Total step ok I Q p w) (hp : p.Uses allowed)
    (hJ : ∀ o, allowed o → ∀ ch w r w', J w → step ch w o = some (r, w') → J w') (hw : J w) :
    Total step ok I (fun a w' => Q a w' ∧ J w') p w := by
  induction p generalizing w with
  | ret a => exact ⟨h, hw⟩
  | act o k ih =>
    intro ch hch
    obtain ⟨r, w', hs, hI, hk⟩ := h ch hch
    exact ⟨r, w', hs, hI, ih r hk (hp.2 r) (hJ o hp.1 ch w r w' hw hs)⟩

/-- What the operations of a program preserve holds wherever it ends. -/
theorem Wlp.of_uses {step : Ch → W → (o : Op) → Option (Res o × W)} {K : W → Prop}
    {allowed : Op → Prop} {p : Prog Op Res α} {w : W} (hp : p.Uses allowed)
    (hK : ∀ o, allowed o → ∀ ch w r w', K w → step ch w o = some (r, w') → K w') (hw : K w) :
    Wlp step (fun _ => K) p w := by
  induction p generalizing w with
  | ret a => exact hw
  | act o k ih => exact fun ch r w' hs => ih r (hp.2 r) (hK o hp.1 ch w r w' hw hs)

@[simp] theorem uses_ret {allowed : Op → Prop} (a : α) :
    (Prog.ret a : Prog Op Res α).Uses allowed := trivial

@[simp] theorem uses_act {allowed : Op → Prop} (o : Op) (next : Res o → Prog Op Res α) :
    (Prog.act o next).Uses allowed ↔ allowed o ∧ ∀ r, (next r).Uses allowed := Iff.rfl

end Prog
