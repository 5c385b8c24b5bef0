import MiniContainer.Spec.Quiet

/-!
# Commands that run alone

What programs of the store do when no other command or shim moves and nothing fails:
they run to their end, whatever the order in which directories are read, and their
result is a function of the registry.
-/

namespace MiniContainer

open CString (Text)
open JsonC (Value)

/-- Nothing fails, and directories are read completely, in any order. -/
structure Choice.Calm (ch : Choice) : Prop where
  fault : ch.fault = .none
  order : ∀ names, (ch.order names).Perm names
  walkOrder : ∀ leaves, (ch.walkOrder leaves).Perm leaves

theorem Choice.calm_default : Choice.Calm {} := ⟨rfl, fun _ => .refl _, fun _ => .refl _⟩

/-- The ID of sixteen equal bytes. -/
def plainId (b : UInt8) : ContainerId := generateId fun _ => b

def plainBuild : Build := ⟨[], []⟩

/-- Run alone by process `t`, with choices that are `ok`, the program ends, `I` holds behind
    each of its operations, and `Q` holds at the end. -/
abbrev Runs {α : Type} (t : Tid) (ok : Op → Choice → Prop) (I : World → Prop)
    (Q : α → World → Prop) (p : Action α) (w : World) : Prop :=
  Prog.Total (fun ch w o => step ch w t o) ok I Q p w

/-- The same with calm choices. -/
abbrev AloneKeeping {α : Type} (t : Tid) (I : World → Prop) (Q : α → World → Prop)
    (p : Action α) (w : World) : Prop :=
  Runs t (fun _ => Choice.Calm) I Q p w

/-- Run alone by process `t` with calm choices, the program ends, and `Q` holds there. -/
abbrev Alone {α : Type} (t : Tid) (Q : α → World → Prop) (p : Action α) (w : World) : Prop :=
  AloneKeeping t (fun _ => True) Q p w

namespace Alone

section Rules

variable {α β : Type} {t : Tid} {ok : Op → Choice → Prop} {I : World → Prop} {w : World}

theorem ret {Q : β → World → Prop} {b : β} (h : Q b w) : Runs t ok I Q (Prog.ret b) w := h

theorem perform {o : Op} {Q : Res o → World → Prop}
    (h : ∀ ch : Choice, ok o ch → ∃ r w', step ch w t o = some (r, w') ∧ I w' ∧ Q r w') :
    Runs t ok I Q (MiniContainer.perform o) w := h

/-- One operation and what follows it. -/
theorem perform_bind {Q : β → World → Prop} {o : Op} {f : Res o → Action β}
    (h : ∀ ch : Choice, ok o ch → ∃ r w', step ch w t o = some (r, w') ∧ I w' ∧
      Runs t ok I Q (f r) w') :
    Runs t ok I Q ((MiniContainer.perform o).bind f) w := h

variable {Q : Except McError β → World → Prop}

/-- One operation and what follows it in an attempt. -/
theorem perform_andThen {o : Op} {f : Res o → Attempt β}
    (h : ∀ ch : Choice, ok o ch → ∃ r w', step ch w t o = some (r, w') ∧ I w' ∧
      Runs t ok I Q (f r) w') :
    Runs t ok I Q ((liftM (MiniContainer.perform o) : Attempt (Res o)) >>= f : Attempt β) w := h

/-- An attempt and what follows it. -/
theorem andThen {p : Attempt α} {f : α → Attempt β}
    (h : Runs t ok I (fun
      | .ok a, w => Runs t ok I Q (f a) w
      | .error e, w => Q (.error e) w) p w) : Runs t ok I Q (p >>= f : Attempt β) w :=
  Prog.Total.bind (h.mono fun
    | .ok _, _, h => h
    | .error _, _, h => h)

/-- A program and what follows it in an attempt. -/
theorem lift_andThen {p : Action α} {f : α → Attempt β}
    (h : Runs t ok I (fun a w => Runs t ok I Q (f a) w) p w) :
    Runs t ok I Q ((liftM p : Attempt α) >>= f : Attempt β) w :=
  andThen (Prog.Total.bind h)

/-- A checked operation and what follows its success. -/
theorem check_andThen {p : Action Bool} {e : McError} {f : Unit → Attempt β}
    (h : Runs t ok I (fun good w => if good then Runs t ok I Q (f ()) w
      else Q (.error e) w) p w) :
    Runs t ok I Q (Attempt.check p e >>= f : Attempt β) w :=
  andThen (Prog.Total.bind (h.mono fun
    | true, _, h => h
    | false, _, h => h))

end Rules

variable {β : Type} {t : Tid} {I : World → Prop} {w : World} {Q : β → World → Prop}

/-- The scan of the containers directory. -/
theorem opendir {f : Listing → Action β} (hI : I w)
    (habsent : w.dirs.keys = [] → AloneKeeping t I Q (f .absent) w)
    (hentries : ∀ names, names.Perm w.dirs.keys → AloneKeeping t I Q (f (.entries names)) w) :
    AloneKeeping t I Q ((MiniContainer.perform .opendir).bind f) w := by
  refine perform_bind fun ch hch => ?_
  have hperm := hch.order w.dirs.keys
  simp only [step, hch.fault, ne_eq, not_true_eq_false, if_false, List.isPerm_iff.mpr hperm,
    if_true]
  split
  · rename_i h
    exact ⟨.absent, w, rfl, hI, habsent (List.isEmpty_iff.mp (Bool.and_eq_true_iff.mp h).2)⟩
  · exact ⟨.entries (ch.order w.dirs.keys), w, rfl, hI, hentries _ hperm⟩

theorem opendir_andThen {Q : Except McError β → World → Prop} {f : Listing → Attempt β} (hI : I w)
    (habsent : w.dirs.keys = [] → AloneKeeping t I Q (f .absent) w)
    (hentries : ∀ names, names.Perm w.dirs.keys → AloneKeeping t I Q (f (.entries names)) w) :
    AloneKeeping t I Q
      ((liftM (MiniContainer.perform .opendir) : Attempt Listing) >>= f : Attempt β) w :=
  opendir hI habsent hentries

end Alone

/-! ## Scans -/

section Scans

variable {t : Tid} (w : World)

/-- The addresses that `mc_state_allocate_ip` finds in use. -/
def heldIn (κ : Name → Option Value) (names : List Name) : List UInt32 :=
  (names.filter (!hiddenEntry ·)).flatMap fun d => (heldAddress (κ d)).toList

theorem alone_usedAddresses (names : List Name) :
    Alone t (fun used w' => w' = w ∧ used = heldIn w.config names) (usedAddresses names) w := by
  induction names with
  | nil => exact ⟨rfl, rfl⟩
  | cons d ds ih =>
    rw [usedAddresses]
    cases hd : hiddenEntry d with
    | true =>
      have hheld : heldIn w.config (d :: ds) = heldIn w.config ds := by simp [heldIn, hd]
      rw [if_pos rfl, hheld]
      exact ih
    | false =>
      have hheld : heldIn w.config (d :: ds) =
          (heldAddress (w.config d)).toList ++ heldIn w.config ds := by
        simp [heldIn, hd]
      rw [if_neg (by decide), hheld]
      refine Alone.perform_bind fun ch _ => ⟨_, _, rfl, trivial, Prog.Total.bind (ih.mono ?_)⟩
      rintro used _ ⟨rfl, rfl⟩
      exact ⟨rfl, rfl⟩

end Scans

/-! ## Programs that only read -/

section Reads

variable {α : Type} {t : Tid} {w : World}

theorem step_reads {ch : Choice} (hch : ch.Calm) {o : Op} (ho : o.reads = true) :
    ∃ r, step ch w t o = some (r, w) := by
  cases o with
  | opendir =>
    simp only [step, hch.fault, ne_eq, not_true_eq_false, if_false,
      List.isPerm_iff.mpr (hch.order w.dirs.keys), if_true]
    split
    · exact ⟨_, rfl⟩
    · exact ⟨_, rfl⟩
  | readConfig | readState | startTime | clock | bindProbe => exact ⟨_, rfl⟩
  | control c number =>
    simp only [step]
    split
    · split
      · exact ⟨_, rfl⟩
      · exact ⟨_, rfl⟩
    · exact ⟨_, rfl⟩
  | _ => cases ho

theorem alone_of_reads {I : World → Prop} {p : Action α} (hp : p.Uses fun o => o.reads = true)
    (hI : I w) : AloneKeeping t I (fun _ w' => w' = w) p w := by
  induction p with
  | ret a => exact rfl
  | act o k ih =>
    intro ch hch
    obtain ⟨r, hr⟩ := step_reads hch hp.1
    exact ⟨r, w, hr, hI, ih r (hp.2 r)⟩

end Reads

/-! ## Atomic replacement -/

section Replace

variable {t : Tid} {w : World} {c : Name} (content : Content)

/-- Without a temporary file of an earlier process with this process ID, the document is
    replaced. -/
theorem alone_writeAtomic {I : World → Prop} {d : Dir} (hd : w.dir c = some d)
    (htemporary : (content.file, w.pidOf t) ∉ d.temporaries)
    (hI : I (w.setDir c { d with
      temporaries := (content.file, w.pidOf t) :: d.temporaries }))
    (hI' : I ((w.setDir c (d.install content)).recordWrite t c content)) :
    AloneKeeping t I (fun result w' => result = .ok () ∧
      w' = (w.setDir c (d.install content)).recordWrite t c content) (writeAtomic c content) w := by
  let x := (content.file, w.pidOf t)
  let w₁ := w.setDir c { d with temporaries := x :: d.temporaries }
  have hcreate : ∀ ch : Choice, ch.Calm →
      step ch w t (.createTemporary c content) = some (true, w₁) :=
    fun ch hch => by simp [step, hd, hch.fault, htemporary, w₁, x]
  have hfilter : d.temporaries.filter (· ≠ x) = d.temporaries :=
    List.filter_eq_self.mpr fun y hy => by
      have hne : y ≠ x := by
        rintro rfl
        exact htemporary hy
      simpa using hne
  have hunlink : Dir.unlink { d with temporaries := x :: d.temporaries }
      (.temporary content.file (w.pidOf t)) = d := by
    simp only [Dir.unlink]
    rw [List.filter_cons_of_neg (by simp [x]), hfilter]
  have hcommit : ∀ ch : Choice, ch.Calm → step ch w₁ t (.commit c content) =
      some (.none, (w.setDir c (d.install content)).recordWrite t c content) := by
    intro ch hch
    have hdir : w₁.dir c = some { d with temporaries := x :: d.temporaries } :=
      AList.lookup_insert _
    have hset : w₁.setDir c (d.install content) = w.setDir c (d.install content) := by
      simp only [w₁, World.setDir, AList.insert_insert]
    have hpid : w₁.pidOf t = w.pidOf t := rfl
    have hmem : (content.file, w.pidOf t) ∈ x :: d.temporaries := List.mem_cons_self
    simp only [step, hdir, hch.fault, hpid, hunlink, hset]
    rw [if_neg (not_not_intro hmem)]
  refine Alone.check_andThen (Alone.perform fun ch hch => ⟨_, _, hcreate ch hch, hI, ?_⟩)
  rw [if_pos rfl]
  refine Alone.perform_andThen fun ch hch => ⟨_, _, hcommit ch hch, hI', ?_⟩
  exact ⟨rfl, rfl⟩

/-- Otherwise the replacement is refused, and nothing changes. -/
theorem alone_writeAtomic_refused {I : World → Prop}
    (h : ∀ d, w.dir c = some d → (content.file, w.pidOf t) ∈ d.temporaries) (hI : I w) :
    AloneKeeping t I (fun result w' => w' = w ∧ ∃ e, result = .error e)
      (writeAtomic c content) w := by
  refine Alone.check_andThen (Alone.perform (o := .createTemporary c content) fun ch hch => ?_)
  have hrefused : step ch w t (.createTemporary c content) = some (false, w) := by
    cases hd : w.dir c with
    | none => simp only [step, hd]
    | some d => simp only [step, hd, h d hd, or_true, if_true]
  exact ⟨_, _, hrefused, hI, rfl, _, rfl⟩

end Replace

/-! ## References -/

section References

variable {t : Tid} {w : World}

/-- The entry is a match for the reference: a container whose ID starts with it or whose
    name it is. -/
def refersTo (κ : Name → Option Value) (reference : Text) (d : Name) : Bool :=
  containerEntry d && (reference.isPrefixOf d || hasName (κ d) reference)

theorem alone_resolveIn (reference : Text) (names : List Name) (id : Name) (found : Nat) :
    Alone t (fun result w' => w' = w ∧
      result = ((names.filter (refersTo w.config reference)).foldl (fun _ d => d) id,
        found + (names.filter (refersTo w.config reference)).length))
      (resolveIn reference names id found) w := by
  induction names generalizing id found with
  | nil => exact ⟨rfl, rfl⟩
  | cons d ds ih =>
    have hcons : ∀ b, refersTo w.config reference d = b →
        (d :: ds).filter (refersTo w.config reference) =
          if b then d :: ds.filter (refersTo w.config reference)
          else ds.filter (refersTo w.config reference) := by
      rintro b rfl
      rw [List.filter_cons]
    have hhit : refersTo w.config reference d = true →
        Alone t (fun result w' => w' = w ∧
          result = (((d :: ds).filter (refersTo w.config reference)).foldl (fun _ d => d) id,
            found + ((d :: ds).filter (refersTo w.config reference)).length))
          (resolveIn reference ds d (found + 1)) w := by
      intro h
      rw [hcons true h, if_pos rfl, List.foldl_cons, List.length_cons]
      refine (ih d (found + 1)).mono ?_
      rintro _ _ ⟨rfl, rfl⟩
      exact ⟨rfl, by rw [Nat.add_assoc, Nat.add_comm 1]⟩
    have hmiss : refersTo w.config reference d = false →
        Alone t (fun result w' => w' = w ∧
          result = (((d :: ds).filter (refersTo w.config reference)).foldl (fun _ d => d) id,
            found + ((d :: ds).filter (refersTo w.config reference)).length))
          (resolveIn reference ds id found) w := by
      intro h
      rw [hcons false h, if_neg (by decide)]
      exact ih id found
    rw [resolveIn]
    cases hentry : containerEntry d with
    | false => exact hmiss (by rw [refersTo, hentry]; rfl)
    | true =>
      rw [if_neg (by decide)]
      cases hpre : List.isPrefixOf reference d with
      | true => exact hhit (by rw [refersTo, hentry, hpre]; rfl)
      | false =>
        rw [if_neg (by decide)]
        refine Alone.perform_bind fun ch _ => ⟨_, _, rfl, trivial, ?_⟩
        cases hname : hasName (w.config d) reference with
        | true => exact hhit (by rw [refersTo, hentry, hname, Bool.or_true]; rfl)
        | false => exact hmiss (by rw [refersTo, hentry, hpre, hname]; rfl)

/-- A reference with exactly one match is resolved to it. -/
theorem alone_resolve {reference : Text} {c : Name} (hne : reference ≠ [])
    (hc : w.dir c ≠ none)
    (hmatch : refersTo w.config reference c = true)
    (hunique : ∀ d, w.dir d ≠ none → refersTo w.config reference d = true → d = c) :
    Alone t (fun result w' => w' = w ∧ result = .ok c) (resolve reference) w := by
  rw [resolve, if_neg hne]
  refine Alone.opendir_andThen trivial (fun h => ?_) fun names hnames => ?_
  · exact absurd (World.mem_keys.mpr hc) (by simp [h])
  have hfilter : names.filter (refersTo w.config reference) = [c] := by
    have hnodup : (names.filter (refersTo w.config reference)).Nodup :=
      (hnames.nodup_iff.mpr w.dirs.keys_nodup).filter _
    refine List.perm_singleton.mp
      ((List.perm_ext_iff_of_nodup hnodup (List.nodup_singleton c)).mpr fun d => ?_)
    rw [List.mem_filter, hnames.mem_iff, World.mem_keys, List.mem_singleton]
    exact ⟨fun h => hunique d h.1 h.2, fun h => h ▸ ⟨hc, hmatch⟩⟩
  refine Alone.lift_andThen ((alone_resolveIn reference names [] 0).mono ?_)
  rintro _ _ ⟨rfl, rfl⟩
  rw [hfilter]
  exact ⟨rfl, rfl⟩

end References

end MiniContainer
