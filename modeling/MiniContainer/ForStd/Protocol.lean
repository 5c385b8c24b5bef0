import MiniContainer.ForStd.Interleave

/-!
# Protocols

A protocol keeps a record for one process, such as the resources that it holds, which
its own operations and their answers determine. It says which operation the process may
perform with which record. Whether a program follows a protocol is decided without a
world and without the other processes.

* `Prog.Follows`   every operation of the program is allowed when its turn comes
* `Protocol.Sound` the records of all processes agree with the shared world
* `Protocol.Sound.reach`  in every reachable system each process has a record that its
  remaining program follows and that agrees with the world
-/

/-- What one process keeps about itself, and what it may do with it. -/
structure Protocol (Op : Type) (Res : Op → Type) (G : Type) where
  /-- The operation may be performed with this record. -/
  allows : G → Op → Prop
  /-- The record behind an operation. -/
  after : G → (o : Op) → Res o → G

namespace Prog

variable {Op : Type} {Res : Op → Type} {α β G : Type} {P : Protocol Op Res G}

/-- Whatever the answers are, the operations of the program are allowed when their turn comes,
    and `Q` holds of the result and the last record. -/
def Follows (P : Protocol Op Res G) (Q : α → G → Prop) : Prog Op Res α → G → Prop
  | .ret a, g => Q a g
  | .act o k, g => P.allows g o ∧ ∀ r, (k r).Follows P Q (P.after g o r)

theorem Follows.mono {Q Q' : α → G → Prop} {p : Prog Op Res α} {g : G} (h : p.Follows P Q g)
    (hQ : ∀ a g, Q a g → Q' a g) : p.Follows P Q' g := by
  induction p generalizing g with
  | ret a => exact hQ a g h
  | act o k ih => exact ⟨h.1, fun r => ih r (h.2 r)⟩

theorem Follows.bind {Q : β → G → Prop} {p : Prog Op Res α} {f : α → Prog Op Res β} {g : G}
    (h : p.Follows P (fun a g => (f a).Follows P Q g) g) : (p.bind f).Follows P Q g := by
  induction p generalizing g with
  | ret a => exact h
  | act o k ih => exact ⟨h.1, fun r => ih r (h.2 r)⟩

/-- Operations that are allowed with a record and do not change it. -/
theorem Follows.of_uses {allowed : Op → Prop} {p : Prog Op Res α} {g : G} (hp : p.Uses allowed)
    (h : ∀ o, allowed o → P.allows g o ∧ ∀ r, P.after g o r = g) :
    p.Follows P (fun _ g' => g' = g) g := by
  induction p with
  | ret a => rfl
  | act o k ih =>
    obtain ⟨hallows, hafter⟩ := h o hp.1
    refine ⟨hallows, fun r => ?_⟩
    rw [hafter r]
    exact ih r (hp.2 r)

/-- What every record that keeps `J` allows. -/
theorem Follows.uses {Q : α → G → Prop} {J : G → Prop} {allowed : Op → Prop} {p : Prog Op Res α}
    {g : G} (h : p.Follows P Q g) (hg : J g) (hJ : ∀ g o r, J g → J (P.after g o r))
    (hallowed : ∀ g o, J g → P.allows g o → allowed o) : p.Uses allowed := by
  induction p generalizing g with
  | ret a => trivial
  | act o k ih => exact ⟨hallowed g o hg h.1, fun r => ih r (h.2 r) (hJ g o r hg)⟩

variable {Op' : Type} {Res' : Op' → Type} {G' : Type} {P' : Protocol Op' Res' G'}

/-- A program whose operations are carried out by programs that follow another protocol. -/
theorem Follows.expand {f : (o : Op) → Prog Op' Res' (Res o)} {e : G → G'}
    (hf : ∀ g o, P.allows g o →
      (f o).Follows P' (fun r g' => g' = e (P.after g o r)) (e g))
    {Q : α → G → Prop} {p : Prog Op Res α} {g : G} (h : p.Follows P Q g) :
    (p.expand f).Follows P' (fun a g' => ∃ g, g' = e g ∧ Q a g) (e g) := by
  induction p generalizing g with
  | ret a => exact ⟨g, rfl, h⟩
  | act o k ih =>
    refine Follows.bind ((hf g o h.1).mono fun r g' hg' => ?_)
    rw [hg']
    exact ih r (h.2 r)

end Prog

namespace Protocol

variable {Op : Type} {Res : Op → Type} {α G W Ch Cmd : Type}

/-- What ties the records of the processes to the world of a machine. `start c` is the record
    of a process in front of the program of `c`, `absent` that of a process that is not there
    yet, and `Final` holds of the record of a process that has ended. -/
structure Sound (P : Protocol Op Res G) (M : Machine Op Res α W Ch Cmd) (start : Cmd → G)
    (absent : G) (Final : G → Prop) (Agrees : W → Tid → G → Prop) : Prop where
  /-- The programs follow the protocol. -/
  prog : ∀ c, (M.prog c).Follows P (fun _ => Final) (start c)
  /-- The record of the process that acts moves on with it. -/
  own : ∀ {ch w t o r w' g}, M.step ch w t o = some (r, w') → (∀ c, M.spawn o r ≠ some (t, c)) →
    P.allows g o → Agrees w t g → Agrees w' t (P.after g o r)
  /-- The records of the others agree with what it does. -/
  others : ∀ {ch w t o r w' t' g}, M.step ch w t o = some (r, w') → t' ≠ t →
    (∀ c, M.spawn o r ≠ some (t', c)) → Agrees w t' g → Agrees w' t' g
  /-- A forked process begins. -/
  spawn : ∀ {ch w t o r w' t' c}, M.step ch w t o = some (r, w') → M.spawn o r = some (t', c) →
    t' ≠ t → Agrees w t' absent → Agrees w' t' (start c)
  /-- A process enters. -/
  enter : ∀ {ch w t c w'}, M.enter ch w t c = some w' → Agrees w t absent → Agrees w' t (start c)
  entered : ∀ {ch w t c w' t' g}, M.enter ch w t c = some w' → t' ≠ t → Agrees w t' g →
    Agrees w' t' g
  /-- A process is killed. -/
  kill : ∀ {w t g}, Agrees w t g → ∃ g', Final g' ∧ Agrees (M.kill w t) t g'
  killed : ∀ {w t t' g}, t' ≠ t → Agrees w t' g → Agrees (M.kill w t) t' g
  env : ∀ {ch w w' t g}, M.env ch w = some w' → Agrees w t g → Agrees w' t g

/-- A process that is not there has the record `absent`; any other one has a record that its
    remaining program follows. -/
def Keeps (P : Protocol Op Res G) (absent : G) (Final : G → Prop) (Agrees : W → Tid → G → Prop)
    (S : Sys Op Res α W) (t : Tid) : Prop :=
  (S.pool t = none → Agrees S.world t absent) ∧
    ∀ p, S.pool t = some p → ∃ g, p.Follows P (fun _ => Final) g ∧ Agrees S.world t g

variable {P : Protocol Op Res G} {M : Machine Op Res α W Ch Cmd} {start : Cmd → G} {absent : G}
  {Final : G → Prop} {Agrees : W → Tid → G → Prop}

/-- A process that another one leaves alone. -/
theorem Keeps.watch {S : Sys Op Res α W} {pool : Tid → Option (Prog Op Res α)} {w : W} {t : Tid}
    (h : P.Keeps absent Final Agrees S t) (hpool : pool t = S.pool t)
    (hw : ∀ g, Agrees S.world t g → Agrees w t g) : P.Keeps absent Final Agrees ⟨w, pool⟩ t := by
  constructor
  · intro hnone
    exact hw _ (h.1 (hpool ▸ hnone))
  · intro p hp
    obtain ⟨g, hfollows, hagrees⟩ := h.2 p (hpool ▸ hp)
    exact ⟨g, hfollows, hw g hagrees⟩

/-- A process whose remaining program is known. -/
theorem Keeps.of_pool {S : Sys Op Res α W} {t : Tid} {p : Prog Op Res α} {g : G}
    (hpool : S.pool t = some p) (hfollows : p.Follows P (fun _ => Final) g)
    (hagrees : Agrees S.world t g) : P.Keeps absent Final Agrees S t := by
  constructor
  · intro hnone
    exact nomatch hpool.symm.trans hnone
  · intro p' hp'
    obtain rfl := Option.some.inj (hpool.symm.trans hp')
    exact ⟨g, hfollows, hagrees⟩

open Function (update_self update_of_ne)

/-- One event. -/
theorem Sound.next (hP : P.Sound M start absent Final Agrees) {S S' : Sys Op Res α W}
    {e : Event Ch Cmd} (hS : ∀ t, P.Keeps absent Final Agrees S t) (hn : M.next S e = some S')
    (t : Tid) :
    P.Keeps absent Final Agrees S' t := by
  cases M.next_inv hn with
  | @act u ch o k r w hpool hstep hnone =>
    have hspawn : ∀ v c, M.spawn o r ≠ some (v, c) := by simp [hnone]
    by_cases htu : t = u
    · subst htu
      obtain ⟨g, hfollows, hagrees⟩ := (hS t).2 _ hpool
      exact .of_pool (update_self ..) (hfollows.2 r)
        (hP.own hstep (hspawn t) hfollows.1 hagrees)
    · exact (hS t).watch (update_of_ne htu ..) fun g => hP.others hstep htu (hspawn t)
  | @fork u ch o k r w v c hpool hstep hspawn hfree =>
    have hvu : v ≠ u := by
      rintro rfl
      exact nomatch hpool.symm.trans hfree
    by_cases htv : t = v
    · subst htv
      exact .of_pool (update_self ..) (hP.prog c) (hP.spawn hstep hspawn hvu ((hS t).1 hfree))
    · have hother : ∀ c', M.spawn o r ≠ some (t, c') := by
        intro c' h
        exact htv (Prod.mk.inj (Option.some.inj (h.symm.trans hspawn))).1
      by_cases htu : t = u
      · subst htu
        obtain ⟨g, hfollows, hagrees⟩ := (hS t).2 _ hpool
        exact .of_pool ((update_of_ne htv ..).trans (update_self ..)) (hfollows.2 r)
          (hP.own hstep hother hfollows.1 hagrees)
      · exact (hS t).watch ((update_of_ne htv ..).trans (update_of_ne htu ..)) fun g =>
          hP.others hstep htu hother
  | @enter u c ch w hfree henter =>
    by_cases htu : t = u
    · subst htu
      exact .of_pool (update_self ..) (hP.prog c) (hP.enter henter ((hS t).1 hfree))
    · exact (hS t).watch (update_of_ne htu ..) fun g => hP.entered henter htu
  | @kill u o k hpool =>
    by_cases htu : t = u
    · subst htu
      obtain ⟨g, -, hagrees⟩ := (hS t).2 _ hpool
      obtain ⟨g', hfinal, hagrees'⟩ := hP.kill hagrees
      exact .of_pool (update_self ..) hfinal hagrees'
    · exact (hS t).watch (update_of_ne htu ..) fun g => hP.killed htu
  | env henv => exact (hS t).watch rfl fun g => hP.env henv

/-- Every process of every reachable system has a record that its remaining program follows. -/
theorem Sound.reach (hP : P.Sound M start absent Final Agrees)
    {ok : Sys Op Res α W → Event Ch Cmd → Prop} {S₀ S : Sys Op Res α W}
    (h₀ : ∀ t, P.Keeps absent Final Agrees S₀ t) (h : M.Reach ok S₀ S) (t : Tid) :
    P.Keeps absent Final Agrees S t := by
  induction h generalizing t with
  | refl => exact h₀ t
  | step _ _ hn ih => exact hP.next ih hn t

end Protocol
