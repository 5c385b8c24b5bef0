import MiniContainer.Native.Store

/-!
# Rules for attempts

How attempts behave when they run alone, which operations they use, and what holds
of them under interference, in terms of their parts.
-/

namespace MiniContainer

variable {α β : Type}

/-! ## Attempts as programs -/

theorem Attempt.pure_eq (a : α) : (pure a : Attempt α) = Prog.ret (.ok a) := rfl

theorem Attempt.bind_eq (p : Attempt α) (f : α → Attempt β) :
    (p >>= f) = Prog.bind p (Attempt.next f) := rfl

theorem Attempt.lift_eq (p : Action α) :
    (liftM p : Attempt α) = Prog.bind p fun a => Prog.ret (.ok a) := rfl

/-! ## The operations of an attempt -/

section Uses

variable {allowed : Op → Prop}

theorem uses_perform {o : Op} : (perform o).Uses allowed ↔ allowed o := by
  simp [perform, Prog.perform]

theorem uses_check {p : Action Bool} {e : McError} (hp : p.Uses allowed) :
    Prog.Uses allowed (Attempt.check p e) := hp.bind fun _ => trivial

theorem uses_reportAs {p : Attempt α} {e : McError} (hp : Prog.Uses allowed p) :
    Prog.Uses allowed (p.reportAs e) :=
  Prog.Uses.bind hp fun
    | .ok _ => trivial
    | .error _ => trivial

end Uses

end MiniContainer

namespace Prog.Uses

open MiniContainer

variable {α β : Type} {allowed : Op → Prop}

/-- An operation and what follows it. -/
theorem perform_bind {o : Op} {f : Res o → Action β} (ho : allowed o)
    (hf : ∀ r, (f r).Uses allowed) : ((MiniContainer.perform o).bind f).Uses allowed := ⟨ho, hf⟩

/-- An attempt and what follows its success. -/
theorem andThen {p : Attempt α} {f : α → Attempt β} (hp : Prog.Uses allowed p)
    (hf : ∀ a, Prog.Uses allowed (f a)) : Prog.Uses allowed (p >>= f : Attempt β) :=
  Prog.Uses.bind hp fun
    | .ok a => hf a
    | .error _ => trivial

/-- An operation and what follows it in an attempt. -/
theorem perform_andThen {o : Op} {f : Res o → Attempt β} (ho : allowed o)
    (hf : ∀ r, Prog.Uses allowed (f r)) :
    Prog.Uses allowed ((liftM (MiniContainer.perform o) : Attempt (Res o)) >>= f : Attempt β) :=
      ⟨ho, hf⟩

/-- A program and what follows it in an attempt. -/
theorem lift_andThen {p : Action α} {f : α → Attempt β} (hp : p.Uses allowed)
    (hf : ∀ a, Prog.Uses allowed (f a)) : Prog.Uses allowed
      ((liftM p : Attempt α) >>= f : Attempt β) :=
  Prog.Uses.andThen (Prog.Uses.bind hp fun _ => trivial) hf

end Prog.Uses

/-! ## Triples -/

namespace MiniContainer

/-- What holds behind an attempt: one assertion for its success, one for its failure. -/
def Ends {α W : Type} (R : α → W → Prop) (E : W → Prop) : Except McError α → W → Prop
  | .ok a, w => R a w
  | .error _, w => E w

end MiniContainer

namespace Contract.Triple

open MiniContainer

variable {α β γ W Ch Cmd : Type} {M : Machine Op Res γ W Ch Cmd} {C : Contract Op Res W} {t : Tid}
  {P : W → Prop}

theorem andThen {R : α → W → Prop} {Q : β → W → Prop} {E : W → Prop} {p : Attempt α}
    {f : α → Attempt β} (hp : C.Triple M t P p (Ends R E))
    (hf : ∀ a, C.Triple M t (R a) (f a) (Ends Q E)) :
    C.Triple M t P (p >>= f : Attempt β) (Ends Q E) :=
  Triple.bind hp fun
    | .ok a => hf a
    | .error _ => Triple.ret fun _ _ h => h

theorem lift {R : α → W → Prop} {E : W → Prop} {p : Action α}
    (hp : C.Triple M t P p R) : C.Triple M t P (liftM p : Attempt α) (Ends R E) :=
  Triple.bind hp fun _ => Triple.ret fun _ _ h => h

theorem check {R E : W → Prop} {p : Action Bool} {e : McError}
    (hp : C.Triple M t P p fun ok w => if ok then R w else E w) :
    C.Triple M t P (Attempt.check p e) (Ends (fun _ => R) E) :=
  Triple.bind hp fun ok => Triple.ret fun w _ h => by
    cases ok with
    | true | false => exact h

theorem pure {R : α → W → Prop} {E : W → Prop} {a : α} (h : ∀ w, C.inv w → P w → R a w) :
    C.Triple M t P (Pure.pure a : Attempt α) (Ends R E) := Triple.ret h

theorem fail {R : α → W → Prop} {E : W → Prop} {e : McError}
    (h : ∀ w, C.inv w → P w → E w) : C.Triple M t P (Attempt.fail e : Attempt α) (Ends R E) :=
  Triple.ret h

/-! ### Attempts over other operations -/

variable {Op' : Type} {Res' : Op' → Type} {M' : Machine Op' Res' γ W Ch Cmd}
  {C' : Contract Op' Res' W}

theorem exceptBind {R : α → W → Prop} {Q : β → W → Prop} {E : W → Prop}
    {p : ExceptT McError (Prog Op' Res') α} {f : α → ExceptT McError (Prog Op' Res') β}
    (hp : C'.Triple M' t P p.run (Ends R E))
    (hf : ∀ a, C'.Triple M' t (R a) (f a).run (Ends Q E)) :
    C'.Triple M' t P (p >>= f).run (Ends Q E) :=
  Triple.bind hp fun
    | .ok a => hf a
    | .error _ => Triple.ret fun _ _ h => h

theorem exceptLift {R : α → W → Prop} {Q : β → W → Prop} {E : W → Prop}
    {p : Prog Op' Res' α} {f : α → ExceptT McError (Prog Op' Res') β} (hp : C'.Triple M' t P p R)
    (hf : ∀ a, C'.Triple M' t (R a) (f a).run (Ends Q E)) :
    C'.Triple M' t P ((liftM p : ExceptT McError (Prog Op' Res') α) >>= f).run (Ends Q E) :=
  exceptBind (R := R) (Triple.bind hp fun _ => Triple.ret fun _ _ h => h) hf

theorem exceptThrow {R : α → W → Prop} {E : W → Prop} {e : McError}
    (h : ∀ w, C'.inv w → P w → E w) :
    C'.Triple M' t P (throw e : ExceptT McError (Prog Op' Res') α).run (Ends R E) :=
  Triple.ret h

theorem exceptPure {R : α → W → Prop} {E : W → Prop} {a : α} (h : ∀ w, C'.inv w → P w → R a w) :
    C'.Triple M' t P (Pure.pure a : ExceptT McError (Prog Op' Res') α).run (Ends R E) :=
  Triple.ret h

end Contract.Triple
