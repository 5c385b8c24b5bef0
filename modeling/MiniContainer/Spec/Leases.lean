import MiniContainer.Spec.Accepted
import MiniContainer.Spec.Alone
import MiniContainer.Spec.Quiet
import MiniContainer.Spec.Scans
import MiniContainer.Spec.Steps

/-!
# Address leases and published ports

The table of leases and of published ports is nowhere stored: it is what the stored
configurations say, and it is read again for every new container. Here it is shown
that the configurations of a reachable registry never contradict each other, whatever
commands and shims run side by side, fail or are killed.

The argument is about the registry lock. A process that holds it knows that nobody
else stores a configuration; others can only take one away (`World.Shrinks`). What a
scan has ruled out therefore stays ruled out until the new configuration is stored.
-/

namespace MiniContainer

open Contract
open CString (Text)
open JsonC (Value)

/-! ## Configurations that do not contradict each other -/

/-- A stored document is the document of an accepted configuration. -/
structure StoredAs (host : Host) (c : Name) (document : Value) (config : RunConfig) : Prop where
  id : config.id = c
  isId : ∃ id : ContainerId, id.text = c
  accepted : config.Accepted host
  lease : if config.networkBridge then InPool config.ipv4Host else config.ipv4Host = 0
  document : ∃ stamp image, document = configJson stamp config image

/-- The documents of two containers claim different addresses, host ports and names. -/
structure Compatible (x y : Value) : Prop where
  lease : ∀ a, leaseOf x = some a → leaseOf y ≠ some a
  ports : ∀ p ∈ publishesOf x, ∀ q ∈ publishesOf y, p.overlaps q = false
  names : ∀ name, hasName (some x) name = true → hasName (some y) name = false

/-- It does not matter which of two containers is looked at first. -/
theorem Compatible.symm {x y : Value} (h : Compatible x y) : Compatible y x where
  lease a hy hx := h.lease a hx hy
  ports p hp q hq := by rw [Publish.overlaps_comm, h.ports q hq p hp]
  names name hy := by
    cases hx : hasName (some x) name with
    | false => rfl
    | true => exact absurd hy (by rw [h.names name hx]; decide)

/-- What holds of the configurations in every reachable world. -/
structure LeaseInv (host : Host) (w : World) : Prop where
  stored : ∀ c x, w.config c = some x → ∃ config, StoredAs host c x config
  compatible : ∀ c d x y, c ≠ d → w.config c = some x → w.config d = some y → Compatible x y

/-- Configurations have at most been removed. -/
def World.Shrinks (w w' : World) : Prop :=
  ∀ c, w'.config c = w.config c ∨ w'.config c = none

/-- What is stored now was stored before. -/
theorem World.Shrinks.of_config {w w' : World} (h : w.Shrinks w') {c : Name} {x : Value}
    (hc : w'.config c = some x) : w.config c = some x := by
  cases h c with
  | inl h => rw [← h, hc]
  | inr h => exact nomatch h.symm.trans hc

/-! ## The contract -/

/-- The step does not disturb `t` while `t` holds the registry lock. -/
def Spares (t : Tid) (w w' : World) : Prop :=
  w.registry = some t → w'.registry = some t ∧ w.Shrinks w'

/-- What all commands and shims agree on: the holder of the registry lock keeps it, and
    nobody else stores a configuration meanwhile. Only its reads are taken to succeed. -/
def leaseContract (host : Host) : Contract Op Res World where
  inv := LeaseInv host
  rely t _ := Spares t
  guar t _ w w' := ∀ t', t' ≠ t → Spares t' w w'
  admits w t
    | .readConfig c, document => w.registry = some t → document = w.config c
    | _, _ => True

section Steps

variable {host : Host} {ch : Choice} {w w' : World} {t : Tid} {o : Op} {r : Res o}

/-- Removing containers keeps the invariant. -/
theorem LeaseInv.shrink (hi : LeaseInv host w) (hs : w.Shrinks w') : LeaseInv host w' where
  stored c x hc := hi.stored c x (hs.of_config hc)
  compatible c d x y hne hc hd := hi.compatible c d x y hne (hs.of_config hc) (hs.of_config hd)

/-- An operation that stores nothing takes at most one configuration away. -/
theorem shrinks_step (h : faultyStep ch w t o = some (r, w')) (ho : o.stores = false) :
    w.Shrinks w' := by
  intro c
  obtain ⟨_, h⟩ := exists_step_of_faultyStep h
  obtain hc | ⟨doc, rfl, -⟩ | ⟨-, hc⟩ := step_config h c
  · exact .inl hc
  · exact nomatch ho
  · exact .inr hc

/-- Nobody takes the registry lock from its holder. -/
theorem registry_step {t' : Tid} (h : faultyStep ch w t o = some (r, w')) (hne : t' ≠ t)
    (hr : w.registry = some t') : w'.registry = some t' := by
  obtain ⟨_, h⟩ := exists_step_of_faultyStep h
  obtain h | ⟨-, hn, -⟩ | ⟨ht, -⟩ := step_registry h
  · rw [h, hr]
  · exact nomatch hn.symm.trans hr
  · exact absurd (Option.some.inj (hr.symm.trans ht)) hne

/-- An operation that stores no configuration. -/
theorem settled_step (hi : LeaseInv host w) (h : faultyStep ch w t o = some (r, w'))
    (ho : o.stores = false) : LeaseInv host w' ∧ ∀ t', t' ≠ t → Spares t' w w' :=
  ⟨hi.shrink (shrinks_step h ho),
    fun _ hne hr => ⟨registry_step h hne hr, shrinks_step h ho⟩⟩

end Steps

/-! ## Programs that store nothing -/

section Triples

variable {host : Host} {build : Build} {t : Tid} {α : Type}

/-- A program that stores nothing needs nothing. -/
theorem triple_settled {p : Action α} (hp : Settled p) :
    (leaseContract host).Triple (faultyMachine host build) t (fun _ => True) p fun _ _ => True :=
  Triple.of_uses hp (fun _ _ _ _ _ _ _ _ => trivial) fun _ ho _ _ _ _ hi _ hs _ =>
    ⟨(settled_step hi hs ho).1, (settled_step hi hs ho).2, trivial⟩

/-- An assertion that survives the removal of configurations. -/
def Shrinking (F : World → Prop) : Prop := ∀ w w', w.Shrinks w' → F w → F w'

/-- Process `t` holds the registry lock, and `F`. -/
def Locked (t : Tid) (F : World → Prop) (w : World) : Prop := w.registry = some t ∧ F w

/-- The lock keeps what other processes cannot undo. -/
theorem Locked.stable {F : World → Prop} (hF : Shrinking F) (o : Op) :
    (leaseContract host).Stable t o (Locked t F) :=
  fun _ _ _ _ hr h => ⟨(hr h.1).1, hF _ _ (hr h.1).2 h.2⟩

/-- Its holder keeps it with operations that do not give it back. -/
theorem Locked.step {F : World → Prop} (hF : Shrinking F) {ch : Choice} {w w' : World} {o : Op}
    {r : Res o} (ho : (o.stores || o.releases) = false) (h : Locked t F w)
    (hs : faultyStep ch w t o = some (r, w')) : Locked t F w' := by
  obtain ⟨hstores, hreleases⟩ := Bool.or_eq_false_iff.mp ho
  refine ⟨?_, hF w w' (shrinks_step hs hstores) h.2⟩
  obtain ⟨_, hs⟩ := exists_step_of_faultyStep hs
  obtain hr | ⟨-, -, hr⟩ | ⟨-, -, rfl | ⟨code, rfl⟩⟩ := step_registry hs
  · rw [hr, h.1]
  · exact hr
  · exact nomatch hreleases
  · exact nomatch hreleases

/-- A quiet program keeps the lock and what was ruled out under it. -/
theorem triple_quiet {p : Action α} (hp : Quiet p) {F : World → Prop} (hF : Shrinking F) :
    (leaseContract host).Triple (faultyMachine host build) t (Locked t F) p fun _ => Locked t F :=
  Triple.of_uses hp (fun o _ => Locked.stable hF o) fun _ ho _ _ _ _ hi h hs _ =>
    have hstep := settled_step hi hs (Bool.or_eq_false_iff.mp ho).1
    ⟨hstep.1, hstep.2, h.step hF ho hs⟩

/-- One quiet operation, with what its answer says. -/
theorem triple_quiet_perform {o : Op} (ho : (o.stores || o.releases) = false)
    {F : World → Prop} (hF : Shrinking F) {G : Res o → World → Prop}
    (hG : ∀ ch w r w', w.registry = some t → faultyStep ch w t o = some (r, w') →
      (leaseContract host).admits w t o r → G r w') :
    (leaseContract host).Triple (faultyMachine host build) t (Locked t F) (perform o)
      fun r => Locked t fun w => F w ∧ G r w :=
  Triple.perform (Locked.stable hF o) fun ch w r w' hi h hs ha =>
    have hstep := settled_step hi hs (Bool.or_eq_false_iff.mp ho).1
    have hlocked := h.step hF ho hs
    ⟨hstep.1, hstep.2, hlocked.1, hlocked.2, hG ch w r w' h.1 hs ha⟩

/-! ## Scans under the registry lock -/

/-- What the answer of `opendir` says about the stored configurations. -/
def Lists : Listing → World → Prop
  | .absent, w => ∀ d, w.config d = none
  | .failed, _ => True
  | .entries names, w => ∀ d, w.config d ≠ none → d ∈ names

/-- A listing stays complete. -/
theorem Lists.shrinking (listing : Listing) : Shrinking (Lists listing) := by
  intro w w' hs h
  cases listing with
  | absent =>
    intro d
    cases hd : w'.config d with
    | none => rfl
    | some x => exact nomatch (h d).symm.trans (hs.of_config hd)
  | failed => trivial
  | entries names =>
    intro d hd
    obtain ⟨x, hx⟩ := Option.ne_none_iff_exists'.mp hd
    exact h d (by rw [hs.of_config hx]; simp)

/-- `opendir` reports every directory. -/
theorem lists_opendir {ch : Choice} {w w' : World} {listing : Listing}
    (h : step ch w t .opendir = some (listing, w')) : Lists listing w' := by
  have hkeys : ∀ d, w.config d ≠ none → d ∈ w.dirs.keys := fun d hd =>
    World.mem_keys.mpr fun hn => hd (by rw [World.config, hn]; rfl)
  simp only [step] at h
  split at h
  · obtain ⟨rfl, -⟩ := Prod.mk.inj (Option.some.inj h)
    trivial
  · split at h
    · rename_i hempty
      cases h
      intro d
      by_contra hd
      have := hkeys d hd
      simp_all
    · split at h
      · rename_i hperm
        cases h
        exact fun d hd => (List.isPerm_iff.mp hperm).mem_iff.mpr (hkeys d hd)
      · cases h

/-- The document that was read is still the configuration, unless that was removed. -/
def Knows (d : Name) (document : Option Value) (w : World) : Prop :=
  ∀ x, w.config d = some x → document = some x

/-- A document that was read stays as it was or goes. -/
theorem Knows.shrinking (d : Name) (document : Option Value) : Shrinking (Knows d document) :=
  fun _ _ hs h x hx => h x (hs.of_config hx)

theorem Shrinking.and {F G : World → Prop} (hF : Shrinking F) (hG : Shrinking G) :
    Shrinking fun w => F w ∧ G w :=
  fun w w' hs h => ⟨hF w w' hs h.1, hG w w' hs h.2⟩

/-- The directory is listed under the lock. -/
theorem triple_opendir {F : World → Prop} (hF : Shrinking F) :
    (leaseContract host).Triple (faultyMachine host build) t (Locked t F) (perform .opendir)
      fun listing => Locked t fun w => F w ∧ Lists listing w :=
  triple_quiet_perform rfl hF fun _ _ _ _ _ hs _ => lists_opendir (t := t) hs

/-- A stored configuration is read under the lock. -/
theorem triple_readConfig {F : World → Prop} (hF : Shrinking F) (d : Name) :
    (leaseContract host).Triple (faultyMachine host build) t (Locked t F) (perform (.readConfig d))
      fun document => Locked t fun w => F w ∧ Knows d document w :=
  triple_quiet_perform rfl hF fun _ w _ _ hlock hs hread => by
    obtain rfl := (Prod.mk.inj (Option.some.inj hs)).2
    exact fun _ hx => (hread hlock).trans hx

/-- No configuration of another container among `names` is found. -/
def NoneFound (found : Option Value → Bool) (own : Name) (names : List Name) (w : World) : Prop :=
  ∀ d ∈ names, hiddenEntry d = false → d ≠ own → ∀ x, w.config d = some x →
    found (some x) = false

/-- A scan that finds nothing has seen every listed container. -/
theorem triple_anyConfigIn {F : World → Prop} (hF : Shrinking F) (found : Option Value → Bool)
    (own : Name) (names : List Name) :
    (leaseContract host).Triple (faultyMachine host build) t (Locked t F)
      (anyConfigIn found own names)
      fun taken => Locked t fun w => F w ∧ (taken = false → NoneFound found own names w) := by
  induction names generalizing F with
  | nil => exact Triple.ret fun w _ h => ⟨h.1, h.2, fun _ => by simp [NoneFound]⟩
  | cons d ds ih =>
    rw [anyConfigIn]
    split
    · rename_i hskip
      refine (ih hF).conseq (fun _ _ h => h) fun taken w _ h => ⟨h.1, h.2.1, fun htaken => ?_⟩
      intro e he hh hne
      rcases List.mem_cons.mp he with rfl | he
      · rcases hskip with hskip | hskip
        · exact absurd hskip (by rw [hh]; decide)
        · exact absurd hskip hne
      · exact h.2.2 htaken e he hh hne
    · refine Triple.bind (triple_readConfig hF d) fun document => ?_
      split
      · exact Triple.ret fun w _ h => ⟨h.1, h.2.1, fun h => by cases h⟩
      · rename_i hfound
        refine (ih (hF.and (Knows.shrinking d document))).conseq (fun _ _ h => h)
          fun taken w _ h => ⟨h.1, h.2.1.1, fun htaken => ?_⟩
        intro e he hh hne x hx
        rcases List.mem_cons.mp he with rfl | he
        · rw [← h.2.1.2 x hx]
          exact Bool.not_eq_true _ ▸ hfound
        · exact h.2.2 htaken e he hh hne x hx

/-- The directory of a container is no hidden entry. -/
theorem StoredAs.not_hidden {c : Name} {x : Value} {config : RunConfig}
    (h : StoredAs host c x config) : hiddenEntry c = false := by
  obtain ⟨id, rfl⟩ := h.isId
  exact id.not_hidden

/-- No configuration of another container is found. -/
def Clear (found : Option Value → Bool) (own : Name) (w : World) : Prop :=
  ∀ d x, d ≠ own → w.config d = some x → found (some x) = false

theorem Clear.shrinking (found : Option Value → Bool) (own : Name) :
    Shrinking (Clear found own) :=
  fun _ _ hs h d x hne hx => h d x hne (hs.of_config hx)

/-- A whole scan under the lock. -/
theorem triple_anyConfig {F : World → Prop} (hF : Shrinking F) (found : Option Value → Bool)
    (own : Name) :
    (leaseContract host).Triple (faultyMachine host build) t (Locked t F) (anyConfig found own)
      fun taken => Locked t fun w => F w ∧ (taken = false → Clear found own w) := by
  refine Triple.bind (triple_opendir hF) fun listing => ?_
  cases listing with
  | absent =>
    refine Triple.ret fun w _ h => ⟨h.1, h.2.1, fun _ d x _ hx => ?_⟩
    exact nomatch (h.2.2 d).symm.trans hx
  | failed => exact Triple.ret fun w _ h => ⟨h.1, h.2.1, fun h => nomatch h⟩
  | entries names =>
    refine (triple_anyConfigIn (hF.and (Lists.shrinking (.entries names))) found own names).conseq
      (fun _ _ h => h) fun taken w hi h => ⟨h.1, h.2.1.1, fun htaken d x hne hx => ?_⟩
    obtain ⟨config, hstored⟩ := hi.stored d x hx
    have hlisted : d ∈ names := h.2.1.2 d (by rw [hx]; simp)
    exact h.2.2 htaken d hlisted hstored.not_hidden hne x hx

/-- What the address scan has collected covers the configurations that it has seen. -/
def Collected (names : List Name) (used : List UInt32) (w : World) : Prop :=
  ∀ d ∈ names, hiddenEntry d = false → ∀ x a, w.config d = some x →
    heldAddress (some x) = some a → a ∈ used

/-- The scan of `mc_state_allocate_ip` sees all addresses. -/
theorem triple_usedAddresses {F : World → Prop} (hF : Shrinking F) (names : List Name) :
    (leaseContract host).Triple (faultyMachine host build) t (Locked t F) (usedAddresses names)
      fun used => Locked t fun w => F w ∧ Collected names used w := by
  induction names generalizing F with
  | nil => exact Triple.ret fun w _ h => ⟨h.1, h.2, by simp [Collected]⟩
  | cons d ds ih =>
    rw [usedAddresses]
    split
    · rename_i hskip
      refine (ih hF).conseq (fun _ _ h => h) fun used w _ h => ⟨h.1, h.2.1, ?_⟩
      intro e he hh
      rcases List.mem_cons.mp he with rfl | he
      · exact absurd hskip (by rw [hh]; decide)
      · exact h.2.2 e he hh
    · refine Triple.bind (triple_readConfig hF d) fun document =>
        Triple.bind (ih (hF.and (Knows.shrinking d document))) fun used =>
        Triple.ret fun w _ h => ⟨h.1, h.2.1.1, ?_⟩
      intro e he hh x a hx ha
      rw [List.mem_append]
      rcases List.mem_cons.mp he with rfl | he
      · rw [h.2.1.2 x hx, ha]
        exact .inl (by simp)
      · exact .inr (h.2.2 e he hh x a hx ha)

/-- The address is in the pool, and no configuration leases it. -/
def FreeAddress (a : UInt32) (w : World) : Prop :=
  InPool a ∧ ∀ d x, w.config d = some x → leaseOf x ≠ some a

theorem FreeAddress.shrinking (a : UInt32) : Shrinking (FreeAddress a) :=
  fun _ _ hs h => ⟨h.1, fun d x hx => h.2 d x (hs.of_config hx)⟩

/-- The scan sees the leases of stored configurations. -/
theorem StoredAs.heldAddress {c : Name} {x : Value} {config : RunConfig} {n : UInt32}
    (h : StoredAs host c x config) (hn : n ∈ candidates)
    (hlease : leaseOf x = some (subnet ||| n)) :
    heldAddress (some x) = some n := by
  obtain ⟨stamp, image, rfl⟩ := h.document
  have hip : config.ipv4Host = subnet ||| n := by
    rw [leaseOf_configJson] at hlease
    split at hlease
    · exact Option.some.inj hlease
    · exact nomatch hlease
  obtain ⟨-, hnet, hhost⟩ := subnet_or_candidate n hn
  rw [heldAddress_eq, Option.bind_some, addressOf_configJson, Option.bind_some, hip, if_pos hnet,
    hhost]

/-- The address that is chosen is free. -/
theorem triple_chooseAddress {F : World → Prop} {used : List UInt32} {P : World → Prop}
    (hfree : ∀ n ∈ candidates, n ∉ used → ∀ w, LeaseInv host w → P w →
      Locked t (fun w => F w ∧ FreeAddress (subnet ||| n) w) w) :
    (leaseContract host).Triple (faultyMachine host build) t P (chooseAddress used)
      (Ends (fun a => Locked t fun w => F w ∧ FreeAddress a w) fun _ => True) := by
  rw [chooseAddress]
  split
  · rename_i n hfind
    refine Triple.pure fun w hi h => hfree n (List.mem_of_find?_eq_some hfind) ?_ w hi h
    simpa using List.find?_some hfind
  · exact Triple.fail fun _ _ _ => trivial

/-- `mc_state_allocate_ip` under the lock. -/
theorem triple_allocateIp {F : World → Prop} (hF : Shrinking F) :
    (leaseContract host).Triple (faultyMachine host build) t (Locked t F) allocateIp
      (Ends (fun a => Locked t fun w => F w ∧ FreeAddress a w) fun _ => True) := by
  refine Triple.andThen (Triple.lift (triple_opendir hF)) fun listing => ?_
  cases listing with
  | absent =>
    refine triple_chooseAddress fun n hn _ w _ h => ⟨h.1, h.2.1, (subnet_or_candidate n hn).1, ?_⟩
    exact fun d x hx => nomatch (h.2.2 d).symm.trans hx
  | failed => exact Triple.fail fun _ _ _ => trivial
  | entries names =>
    refine Triple.andThen (Triple.lift
      (triple_usedAddresses (hF.and (Lists.shrinking (.entries names))) names)) fun used =>
      triple_chooseAddress fun n hn hused w hi h =>
        ⟨h.1, h.2.1.1, (subnet_or_candidate n hn).1, fun d x hx hlease => ?_⟩
    obtain ⟨config, hstored⟩ := hi.stored d x hx
    have hlisted : d ∈ names := h.2.1.2 d (by rw [hx]; simp)
    exact hused (h.2.2 d hlisted hstored.not_hidden x n hx (hstored.heldAddress hn hlease))

/-! ## Storing a configuration -/

/-- The document may be stored for the container. -/
def Admissible (host : Host) (c : Name) (document : Value) (w : World) : Prop :=
  (∃ config, StoredAs host c document config) ∧
    ∀ d y, d ≠ c → w.config d = some y → Compatible document y

theorem Admissible.shrinking (c : Name) (document : Value) :
    Shrinking (Admissible host c document) :=
  fun _ _ hs h => ⟨h.1, fun d y hne hy => h.2 d y hne (hs.of_config hy)⟩

/-- Storing an admissible document keeps the configurations compatible. -/
theorem LeaseInv.commit {ch : Choice} {w w' : World} {c : Name} {document : Value} {r : Fault}
    (hi : LeaseInv host w) (ha : Admissible host c document w)
    (h : step ch w t (.commit c (.config document)) = some (r, w')) : LeaseInv host w' := by
  have hold : ∀ d x, w'.config d = some x → w.config d = some x ∨ (d = c ∧ x = document) := by
    intro d x hx
    obtain hc | ⟨y, ho, hc⟩ | ⟨ho, -⟩ := step_config h d
    · exact .inl (hc ▸ hx)
    · obtain ⟨rfl, hy⟩ := Op.commit.inj ho
      exact .inr ⟨rfl, by rw [Content.config.inj hy, ← Option.some.inj (hc.symm.trans hx)]⟩
    · exact nomatch ho
  refine ⟨fun d x hx => ?_, fun d e x y hne hx hy => ?_⟩
  · obtain hx | ⟨rfl, rfl⟩ := hold d x hx
    · exact hi.stored d x hx
    · exact ha.1
  · obtain hx | ⟨rfl, rfl⟩ := hold d x hx <;> obtain hy | ⟨rfl, rfl⟩ := hold e y hy
    · exact hi.compatible d e x y hne hx hy
    · exact (ha.2 d x hne hx).symm
    · exact ha.2 e y hne.symm hy
    · exact absurd rfl hne

/-- An admissible configuration is stored. -/
theorem triple_writeAtomic_config (c : Name) (document : Value) :
    (leaseContract host).Triple (faultyMachine host build) t (Locked t (Admissible host c document))
      (writeAtomic c (.config document))
      (Ends (fun _ => Locked t fun _ => True) fun _ => True) := by
  have hcommit : (leaseContract host).Triple (faultyMachine host build) t
      (Locked t (Admissible host c document)) (perform (.commit c (.config document)))
      fun _ => Locked t fun _ => True := by
    refine Triple.perform (Locked.stable (Admissible.shrinking c document) _) ?_
    intro ch w r w' hi h hs _
    change step ch w t (.commit c (.config document)) = some (r, w') at hs
    refine ⟨hi.commit h.2 hs, fun t' hne hr => ?_, ?_, trivial⟩
    · exact absurd (Option.some.inj (hr.symm.trans h.1)) hne
    · obtain hr | ⟨ho, -⟩ | ⟨-, -, ho | ⟨code, ho⟩⟩ := step_registry hs
      · rw [hr, h.1]
      all_goals exact nomatch ho
  refine Triple.andThen (Triple.check (R := Locked t (Admissible host c document))
    ((triple_quiet (Quiet.perform rfl) (Admissible.shrinking c document)).conseq (fun _ _ h => h)
      fun ok w _ h => ?_)) fun _ => Triple.andThen (Triple.lift hcommit)
    fun fault => ?_
  · cases ok with
    | true => exact h
    | false => trivial
  · cases fault with
    | none => exact Triple.pure fun _ _ h => h
    | _ => exact Triple.fail fun _ _ _ => trivial

/-- The address of a configuration is its own, or none. -/
def FreeLease (config : RunConfig) (w : World) : Prop :=
  if config.networkBridge then FreeAddress config.ipv4Host w else config.ipv4Host = 0

theorem FreeLease.shrinking (config : RunConfig) : Shrinking (FreeLease config) := by
  intro w w' hs h
  rw [FreeLease] at h ⊢
  split_ifs at h ⊢
  · exact FreeAddress.shrinking _ w w' hs h
  · exact h

/-- What the three checks of `mc_state_save_config` and the allocation rule out. -/
theorem admissible_configJson {config : RunConfig} {id : ContainerId} (hid : config.id = id.text)
    (ha : config.Accepted host) {stamp : Stamp} {image : Text} {w : World}
    (hlease : FreeLease config w)
    (hname : ∀ name ∈ config.name, Clear (hasName · name) config.id w)
    (hports : Clear (publishesAny config.publishes) config.id w) (hi : LeaseInv host w) :
    Admissible host config.id (configJson stamp config image) w := by
  refine ⟨⟨config, rfl, ⟨id, hid.symm⟩, ha, ?_, stamp, image, rfl⟩, fun d y hne hy => ?_⟩
  · rw [FreeLease] at hlease
    split_ifs at hlease ⊢
    · exact hlease.1
    · exact hlease
  · obtain ⟨other, hstored⟩ := hi.stored d y hy
    refine ⟨fun a hx => ?_, fun p hp q hq => ?_, fun name hx => ?_⟩
    · rw [leaseOf_configJson] at hx
      rw [FreeLease] at hlease
      split at hx
      · rename_i hbridge
        rw [if_pos hbridge] at hlease
        exact Option.some.inj hx ▸ hlease.2 d y hy
      · exact nomatch hx
    · have hany := hports d y hne hy
      obtain ⟨stamp', image', rfl⟩ := hstored.document
      rw [publishesOf_configJson] at hp hq
      rw [publishesAny_configJson, List.any_eq_false] at hany
      have hq := hany q hq
      rw [Bool.not_eq_true, List.any_eq_false] at hq
      simpa using hq p hp
    · rw [hasName_configJson, beq_iff_eq] at hx
      obtain ⟨given, hgiven, rfl⟩ := Option.map_eq_some_iff.mp hx
      rw [untilNul_of_validName (ha.name given hgiven)]
      exact hname given hgiven d y hne hy

/-- The check of the name. -/
theorem triple_nameIsTaken {F : World → Prop} (hF : Shrinking F) (name : Option Text) (own : Name) :
    (leaseContract host).Triple (faultyMachine host build) t (Locked t F) (nameIsTaken name own)
      fun taken => Locked t fun w => F w ∧
        (taken = false → ∀ n ∈ name, Clear (hasName · n) own w) := by
  cases name with
  | none => exact Triple.ret fun w _ h => ⟨h.1, h.2, fun _ _ h => nomatch h⟩
  | some name =>
    refine (triple_anyConfig hF (hasName · name) own).conseq (fun _ _ h => h) fun taken w _ h =>
      ⟨h.1, h.2.1, fun htaken n hn => ?_⟩
    cases hn
    exact h.2.2 htaken

private theorem publishesAny_nil (document : Option Value) : publishesAny [] document = false := by
  rw [publishesAny]
  split <;> simp

/-- The check of the published ports. -/
theorem triple_publishedPortIsTaken {F : World → Prop} (hF : Shrinking F) (config : RunConfig) :
    (leaseContract host).Triple (faultyMachine host build) t (Locked t F)
      (publishedPortIsTaken config) fun taken => Locked t fun w => F w ∧
        (taken = false → Clear (publishesAny config.publishes) config.id w) := by
  rw [publishedPortIsTaken]
  split
  · rename_i hnil
    rw [hnil]
    exact Triple.ret fun w _ h => ⟨h.1, h.2, fun _ _ _ _ _ => publishesAny_nil _⟩
  · exact triple_anyConfig hF (publishesAny config.publishes) config.id

/-- `mc_state_save_config` under the lock. -/
theorem triple_saveConfig {config : RunConfig} (ha : config.Accepted host) {id : ContainerId}
    (hid : config.id = id.text) (image : Text) :
    (leaseContract host).Triple (faultyMachine host build) t (Locked t (FreeLease config))
      (saveConfig build config image) (Ends (fun _ => Locked t fun _ => True) fun _ => True) := by
  refine .andThen (.lift (triple_nameIsTaken (FreeLease.shrinking config) config.name config.id))
    fun taken => ?_
  split
  · exact .fail fun _ _ _ => trivial
  rename_i hname
  have hFname : Shrinking fun w => FreeLease config w ∧
      (taken = false → ∀ n ∈ config.name, Clear (hasName · n) config.id w) :=
    (FreeLease.shrinking config).and fun w w' hs h htaken n hn =>
      Clear.shrinking _ _ w w' hs (h htaken n hn)
  refine .andThen (.lift (triple_publishedPortIsTaken hFname config)) fun published => ?_
  split
  · exact .fail fun _ _ _ => trivial
  rename_i hport
  have hF := hFname.and (G := fun w => published = false →
    Clear (publishesAny config.publishes) config.id w) fun w w' hs h hp =>
      Clear.shrinking _ _ w w' hs (h hp)
  refine .andThen (.lift (triple_quiet (reads_hostPortsAreAvailable config.publishes).quiet hF))
    fun available => ?_
  split
  · exact .fail fun _ _ _ => trivial
  refine .andThen (.lift (triple_quiet (Quiet.perform rfl) hF)) fun now =>
    .andThen (R := fun _ => Locked t (Admissible host config.id
      (configJson ⟨build.version, build.gitCommit, now⟩ config image)))
      (.check ((triple_quiet (Quiet.perform rfl) hF).conseq (fun _ _ h => h) fun ok w hi h => ?_))
      fun _ => triple_writeAtomic_config _ _
  cases ok with
  | false => trivial
  | true =>
    obtain ⟨hlock, ⟨hlease, hn⟩, hp⟩ := h
    exact ⟨hlock, admissible_configJson hid ha hlease (hn (by simpa using hname))
      (hp (by simpa using hport)) hi⟩

/-! ## Whole commands -/

/-- The lock is taken. -/
theorem triple_registryLock :
    (leaseContract host).Triple (faultyMachine host build) t (fun _ => True) registryLock
      (Ends (fun _ => Locked t fun _ => True) fun _ => True) := by
  refine .check (.perform (fun _ _ _ _ _ _ => trivial) fun ch w r w' hi _ hs _ => ?_)
  change faultyStep ch w t .lockRegistry = some (r, w') at hs
  refine ⟨(settled_step hi hs rfl).1, (settled_step hi hs rfl).2, ?_⟩
  change step ch w t .lockRegistry = some (r, w') at hs
  simp only [step] at hs
  split at hs
  · obtain ⟨rfl, -⟩ := Prod.mk.inj (Option.some.inj hs)
    trivial
  · split at hs
    · cases hs
      exact ⟨rfl, trivial⟩
    · cases hs

/-- A quiet attempt in the middle of the critical section. -/
private theorem triple_quiet_attempt {p : Attempt α} (hp : Quiet p) {F : World → Prop}
    (hF : Shrinking F) : (leaseContract host).Triple (faultyMachine host build) t (Locked t F) p
      (Ends (fun _ => Locked t F) fun _ => True) :=
  (triple_quiet hp hF).conseq (fun _ _ h => h) fun result _ _ h => by
    cases result with
    | ok => exact h
    | error => trivial

/-- The address that the configuration gets is nobody else's. -/
theorem triple_leaseAddress (config : RunConfig) :
    (leaseContract host).Triple (faultyMachine host build) t (Locked t fun _ => True)
      (leaseAddress config)
      (Ends (fun ipv4Host => Locked t (FreeLease { config with ipv4Host })) fun _ => True) := by
  rw [leaseAddress]
  split
  · rename_i hbridge
    refine (triple_allocateIp (F := fun _ => True) fun _ _ _ h => h).conseq (fun _ _ h => h)
      fun result w _ h => ?_
    cases result with
    | ok a =>
      refine ⟨h.1, ?_⟩
      rw [FreeLease, if_pos hbridge]
      exact h.2.2
    | error => trivial
  · rename_i hbridge
    refine .pure fun w _ h => ⟨h.1, ?_⟩
    rw [FreeLease, if_neg hbridge]

/-- The critical section of `run` and `create`. -/
theorem triple_registerSteps (createOnly : Bool) {config : RunConfig} {id : ContainerId}
    (hid : config.id = id.text)
    (ha : ∀ ipv4Host, RunConfig.Accepted host { config with ipv4Host }) (image : Text) :
    (leaseContract host).Triple (faultyMachine host build) t (fun _ => True)
      (registerSteps build createOnly config image) (Ends (fun _ _ => True) fun _ => True) := by
  refine .andThen triple_registryLock fun _ =>
    .andThen (triple_quiet_attempt quiet_reconcile fun _ _ _ h => h) fun _ =>
    .andThen (triple_quiet_attempt (quiet_containerLock config.id) fun _ _ _ h => h) fun _ =>
    .andThen (triple_leaseAddress config) fun ipv4Host =>
    .andThen (triple_saveConfig (ha ipv4Host) hid image) fun _ => ?_
  split
  · refine .andThen (triple_quiet_attempt (quiet_writeAtomic_state _ _ _) fun _ _ _ h => h) fun _ =>
      .pure fun _ _ _ => trivial
  · exact .pure fun _ _ _ => trivial

/-- Both commands, behind the parser. -/
theorem triple_runOrCreate (createOnly : Bool) {request : RunRequest} {args : List Text}
    (hr : runRequest host args = .ok request) :
    (leaseContract host).Triple (faultyMachine host build) t (fun _ => True)
      (runOrCreate build createOnly request) fun _ _ => True := by
  refine .bind (triple_settled (uses_perform.mpr rfl)) fun id => ?_
  cases id with
  | none => exact .ret fun _ _ _ => trivial
  | some id =>
    dsimp only
    split
    · exact .ret fun _ _ _ => trivial
    refine .bind (R := fun _ _ => True) (.bind (triple_registerSteps createOnly rfl
      (fun ipv4Host => RunRequest.config_accepted hr id.text ipv4Host) request.image)
      fun result => ?_) fun result => ?_
    · cases result with
      | ok registered =>
        exact triple_settled (.perform_bind rfl fun _ => .perform_bind rfl fun _ => trivial)
      | error e =>
        exact triple_settled (.perform_bind rfl fun _ => .bind (Quiet.settled (quiet_remove _))
          fun _ => .perform_bind rfl fun _ => trivial)
    · cases result with
      | error e => exact .ret fun _ _ _ => trivial
      | ok config =>
        dsimp only
        split
        · exact .ret fun _ _ _ => trivial
        · exact triple_settled (.bind (Quiet.settled (quiet_launchShim config)) fun _ => trivial)

/-- The same with the parser. -/
theorem triple_runCommand (createOnly : Bool) (args : List Text) :
    (leaseContract host).Triple (faultyMachine host build) t (fun _ => True)
      (runCommand host build createOnly args) fun _ _ => True := by
  unfold runCommand
  split
  · exact .ret fun _ _ _ => trivial
  · exact .ret fun _ _ _ => trivial
  · rename_i request hr
    exact triple_runOrCreate createOnly hr

/-- Every command of the program keeps the contract. -/
theorem triple_main (root : Bool) (args : List Text) :
    (leaseContract host).Triple (faultyMachine host build) t (fun _ => True)
      (main host build root args) fun _ _ => True := by
  have hexiting : ∀ p : Action Outcome,
      (leaseContract host).Triple (faultyMachine host build) t (fun _ => True) p (fun _ _ => True) →
      (leaseContract host).Triple (faultyMachine host build) t (fun _ => True) (exiting p)
        fun _ _ => True :=
    fun p hp => .bind hp fun _ => triple_settled (.perform_bind rfl fun _ => trivial)
  cases args with
  | nil => exact hexiting _ (.ret fun _ _ _ => trivial)
  | cons name args =>
    refine hexiting _ ?_
    unfold subcommand
    split_ifs
    · exact triple_settled (settled_psCommand root args)
    · exact triple_runCommand false args
    · exact triple_runCommand true args
    · exact triple_settled (settled_gcCommand root args)
    · exact triple_settled (settled_killCommand args)
    · exact triple_settled (settled_stopCommand args)
    · exact triple_settled (settled_rmCommand args)
    · exact triple_settled (settled_startCommand root args)
    · exact .ret fun _ _ _ => trivial

end Triples

/-! ## Reachable registries -/

section Reachable

variable {host : Host} {build : Build}

/-- A change that touches no directory. -/
private theorem shrinks_of_dirs {w w' : World} (h : w'.dirs = w.dirs) : w.Shrinks w' :=
  fun c => .inl (by rw [World.config, World.dir, h]; rfl)

/-- The holder of the registry lock can read the configurations that are stored. -/
def readsStored (S : Sys Op Res Outcome World) : Event Choice Cmd → Bool
  | .act t ch =>
    match S.pending t with
    | some (.readConfig c) =>
      S.world.registry != some t || ch.fault == .none || (S.world.config c).isNone
    | _ => true
  | _ => true

/-- The contract covers shims, children and the environment. -/
theorem leaseContract_sound :
    (leaseContract host).Sound (faultyMachine host build) fun S e => readsStored S e = true where
  admits S t ch o k r w hreads hpool hstep := by
    cases o with
    | readConfig c =>
      intro hlock
      have hpending : S.pending t = some (.readConfig c) := by
        rw [Sys.pending, hpool]
        rfl
      obtain ⟨rfl, -⟩ := Prod.mk.inj (Option.some.inj hstep)
      simp only [readsStored, hpending, hlock, bne_self_eq_false, Bool.false_or, Bool.or_eq_true,
        beq_iff_eq, Option.isNone_iff_eq_none] at hreads
      rcases hreads with hcalm | hnone
      · rw [if_pos hcalm]
      · rw [hnone, ite_self]
    | _ => trivial
  compat _ _ _ _ _ _ _ _ _ _ _ _ hg t' _ _ hne _ := hg t' hne
  spawn ch w t o r w' t' c _ _ hi' _ hspawn := by
    obtain ⟨args, rfl⟩ := forked_eq_some hspawn
    exact triple_settled (settled_shimMain host args) w' hi' trivial
  enter S t c ch w _ hi henter := by
    cases c with
    | shim args => exact nomatch henter
    | cli root args =>
      simp only [faultyMachine, machine] at henter
      split at henter
      · cases henter
        have hs : S.world.Shrinks (S.world.addProc t ch.pid ch.start) := shrinks_of_dirs rfl
        exact ⟨hi.shrink hs, triple_main root args _ (hi.shrink hs) trivial,
          fun t' _ _ _ _ hr => ⟨hr, hs⟩⟩
      · exact nomatch henter
  kill S t _ hi := by
    have hs : S.world.Shrinks (S.world.leave t killedCode) :=
      shrinks_of_dirs (World.dirs_leave S.world t killedCode)
    refine ⟨hi.shrink hs, fun t' _ _ hne _ hr => ⟨?_, hs⟩⟩
    change (S.world.leave t killedCode).registry = some t'
    rw [World.registry_leave, hr, if_neg fun h => hne (Option.some.inj h)]
  env S ch w _ hi henv := by
    obtain ⟨procs, rfl⟩ := envStep_eq henv
    have hs : S.world.Shrinks { S.world with procs } := shrinks_of_dirs rfl
    exact ⟨hi.shrink hs, fun t' _ _ _ hr => ⟨hr, hs⟩⟩

/-- The stored configurations of every registry that is reachable where the holder of the lock
    can read them are accepted ones and do not contradict each other. -/
theorem leaseInv_of_readsStored {S : Sys Op Res Outcome World}
    (h : (faultyMachine host build).Reach (fun S e => readsStored S e = true) initialSystem S) :
    LeaseInv host S.world := by
  have hconfig : ∀ c, World.config {} c = none := fun c => by
    rw [World.config, World.dir, AList.lookup_empty]
    rfl
  have hinit : LeaseInv host {} :=
    ⟨fun c x hx => absurd ((hconfig c).symm.trans hx) (by simp),
      fun c _ x _ _ hx => absurd ((hconfig c).symm.trans hx) (by simp)⟩
  have hsafe : (leaseContract host).SafeSys (faultyMachine host build) initialSystem :=
    ⟨hinit, fun t p hp => by cases hp⟩
  exact (leaseContract_sound.reach hsafe h).1

/-- The machine without failing reads is a part of the one with them. -/
theorem reach_faultyMachine {S : Sys Op Res Outcome World}
    (h : (machine host build).Reach (fun _ _ => True) initialSystem S) :
    (faultyMachine host build).Reach (fun S e => readsStored S e = true) initialSystem S := by
  induction h with
  | refl => exact .refl
  | @step S S' e _ _ hnext ih =>
    cases e with
    | act t ch =>
      cases hpool : S.pool t with
      | none => simp [Machine.next, hpool] at hnext
      | some p =>
        cases p with
        | ret a => simp [Machine.next, hpool] at hnext
        | act o k =>
          obtain ⟨ch', hstep, hcalm⟩ := exists_faultyStep_eq ch S.world t o
          refine ih.step (e := .act t ch') ?_ ?_
          · cases o with
            | readConfig c => simp [readsStored, Sys.pending, hpool, Prog.head, hcalm c rfl]
            | _ => simp only [readsStored, Sys.pending, hpool, Option.bind_some, Prog.head]
          · simp only [Machine.next, hpool] at hnext ⊢
            rwa [show (faultyMachine host build).step ch' S.world t o =
              (machine host build).step ch S.world t o from hstep]
    | enter t c ch => exact ih.step (e := .enter t c ch) rfl hnext
    | kill t => exact ih.step (e := .kill t) rfl hnext
    | env ch => exact ih.step (e := .env ch) rfl hnext

/-- The invariant in runs without faults of reading. -/
theorem leaseInv_of_reach {S : Sys Op Res Outcome World}
    (h : (machine host build).Reach (fun _ _ => True) initialSystem S) :
    LeaseInv host S.world :=
  leaseInv_of_readsStored (reach_faultyMachine h)

/-! ## Allocation -/

/-- The address is the `ipv4_host` of a stored configuration. -/
def World.Holds (w : World) (a : UInt32) : Prop :=
  ∃ c x, w.config c = some x ∧ addressOf x = some a

/-- The smallest address of the pool that `H` does not hold. -/
def SmallestFree (H : UInt32 → Prop) (a : UInt32) : Prop :=
  InPool a ∧ ¬ H a ∧ ∀ b, InPool b → ¬ H b → a ≤ b

/-- What a choice among the candidates returns, if the used ones are those that `H` holds. -/
structure Allocates (H : UInt32 → Prop) (result : Except McError UInt32) : Prop where
  ok : ∀ a, result = .ok a ↔ SmallestFree H a
  conflict : (∃ e, result = .error e ∧ e.code = .conflict) ↔ ∀ a, InPool a → H a

theorem chooseAddress_allocates {H : UInt32 → Prop} {used : List UInt32}
    (hused : ∀ n ∈ candidates, n ∈ used ↔ H (subnet ||| n)) :
    ∃ result, chooseAddress used = Prog.ret result ∧ Allocates H result := by
  rw [chooseAddress]
  cases hfind : candidates.find? (· ∉ used) with
  | none =>
    have hall : ∀ a, InPool a → H a := by
      intro a ha
      obtain ⟨n, hn, rfl⟩ := ha.candidate
      exact (hused n hn).mp (by simpa using List.find?_eq_none.mp hfind n hn)
    exact ⟨_, rfl, fun a => ⟨fun h => (nomatch h), fun h => absurd (hall a h.1) h.2.1⟩,
      fun _ => hall, fun _ => ⟨_, rfl, rfl⟩⟩
  | some n =>
    obtain ⟨hfree, before, after, hsplit, hbefore⟩ := List.find?_eq_some_iff_append.mp hfind
    have hn : n ∈ candidates := by simp [hsplit]
    have hnot : ¬ H (subnet ||| n) := fun h => by simp [(hused n hn).mpr h] at hfree
    have hleast : SmallestFree H (subnet ||| n) := by
      refine ⟨(subnet_or_candidate n hn).1, hnot, fun b hb hbH => ?_⟩
      obtain ⟨m, hm, rfl⟩ := hb.candidate
      -- a smaller candidate stands in front of `n`, and those are all in use
      have hsorted := hsplit ▸ candidates_sorted
      obtain hm' | rfl | hm' : m ∈ before ∨ m = n ∨ m ∈ after := by
        simpa [hsplit] using hm
      · exact absurd ((hused m hm).mp (by simpa using hbefore m hm')) hbH
      · exact UInt32.le_refl _
      · exact UInt32.le_of_lt
          ((List.pairwise_cons.mp (List.pairwise_append.mp hsorted).2.1).1 m hm')
    refine ⟨_, rfl, fun a => ⟨fun h => ?_, fun h => ?_⟩, fun h => ?_, fun h => ?_⟩
    · exact Except.ok.inj h ▸ hleast
    · rw [UInt32.le_antisymm (hleast.2.2 a h.1 h.2.1) (h.2.2 _ hleast.1 hnot)]
    · obtain ⟨e, he, -⟩ := h
      exact nomatch he
    · exact absurd (h _ hleast.1) hnot

/-- The scan finds the candidates whose addresses are held. -/
theorem mem_heldIn {w : World} (hi : LeaseInv host w) {names : List Name}
    (hnames : names.Perm w.dirs.keys) {n : UInt32} (hn : n ∈ candidates) :
    n ∈ heldIn w.config names ↔ w.Holds (subnet ||| n) := by
  obtain ⟨-, hnet, hhost⟩ := subnet_or_candidate n hn
  simp only [heldIn, List.mem_flatMap, List.mem_filter, Option.mem_toList]
  constructor
  · rintro ⟨d, -, hd⟩
    rw [heldAddress_eq] at hd
    obtain ⟨a, ha, hmask⟩ := Option.bind_eq_some_iff.mp hd
    obtain ⟨x, hx, ha⟩ := Option.bind_eq_some_iff.mp ha
    split at hmask
    · rename_i ha'
      refine ⟨d, x, hx, ?_⟩
      rw [ha, ← network_or_host a, ha', Option.some.inj hmask]
    · cases hmask
  · rintro ⟨d, x, hx, ha⟩
    obtain ⟨config, hstored⟩ := hi.stored d x hx
    have hdir : w.dir d ≠ none := fun h => by simp [World.config, h] at hx
    refine ⟨d, ⟨hnames.mem_iff.mpr (World.mem_keys.mpr hdir), by simp [hstored.not_hidden]⟩, ?_⟩
    rw [hx, heldAddress_eq, Option.bind_some, ha, Option.bind_some, if_pos hnet, hhost]

/-- `mc_state_allocate_ip` run alone. -/
theorem alone_allocateIp {w : World} (hi : LeaseInv host w) (t : Tid) :
    Alone t (fun result w' => w' = w ∧ Allocates w.Holds result) allocateIp w := by
  have hchoose : ∀ {used}, (∀ n ∈ candidates, n ∈ used ↔ w.Holds (subnet ||| n)) →
      Alone t (fun result w' => w' = w ∧ Allocates w.Holds result) (chooseAddress used) w := by
    intro used hused
    obtain ⟨result, hresult, hspec⟩ := chooseAddress_allocates hused
    rw [hresult]
    exact ⟨rfl, hspec⟩
  refine Alone.opendir_andThen trivial (fun habsent => ?_) fun names hnames => ?_
  · refine hchoose fun n _ => ⟨fun h => by simp at h, ?_⟩
    rintro ⟨c, x, hx, -⟩
    have hdir : w.dir c ≠ none := fun h => by simp [World.config, h] at hx
    exact absurd (World.mem_keys.mpr hdir) (by simp [habsent])
  · refine Alone.lift_andThen ((alone_usedAddresses w names).mono ?_)
    rintro used _ ⟨rfl, rfl⟩
    exact hchoose fun n hn => mem_heldIn hi hnames hn

/-- In every reachable registry the bridged containers hold different addresses of the pool;
    the allocation finds the smallest address that no stored configuration holds, and reports
    a conflict exactly when there is none. -/
theorem leases_unique {S : Sys Op Res Outcome World}
    (h : (machine host build).Reach (fun _ _ => True) initialSystem S) :
    (∀ c x, S.world.config c = some x → isBridge x = true →
      ∃ a, addressOf x = some a ∧ InPool a ∧
        ∀ d y, d ≠ c → S.world.config d = some y → isBridge y = true → addressOf y ≠ some a) ∧
    ∀ t, Alone t (fun result w => w = S.world ∧
      (∀ a, result = .ok a ↔ SmallestFree S.world.Holds a) ∧
      ((∃ e, result = .error e ∧ e.code = .conflict) ↔ ∀ a, InPool a → S.world.Holds a))
      allocateIp S.world := by
  have hi := leaseInv_of_reach h
  refine ⟨fun c x hx hbridge => ?_, fun t => (alone_allocateIp hi t).mono ?_⟩
  · obtain ⟨config, hstored⟩ := hi.stored c x hx
    have hlease := hstored.lease
    obtain ⟨stamp, image, rfl⟩ := hstored.document
    rw [isBridge_configJson] at hbridge
    rw [if_pos hbridge] at hlease
    refine ⟨_, addressOf_configJson .., hlease, fun d y hne hy hbridge' ha => ?_⟩
    refine (hi.compatible c d _ y hne.symm hx hy).lease config.ipv4Host ?_ ?_
    · rw [leaseOf_configJson, if_pos hbridge]
    · rw [leaseOf, if_pos hbridge', ha]
  · rintro result w ⟨rfl, hspec⟩
    exact ⟨rfl, hspec.ok, hspec.conflict⟩

/-- `create` of a container on the bridge that publishes one port. -/
def createPublished (publish : String) : Cmd :=
  .cli true (["create", "--image", "alpine", "--network", "bridge", "--publish", publish, "--",
    "sh"].map String.toList)

/-- One container after the other is created, the second one with operations that may fail. -/
def twoCreated (publish : String) (fault : Nat → Fault) : List (Event Choice Cmd) :=
  .enter 1 (createPublished "127.0.0.1:8080:80/tcp") { pid := 101, start := 1 } ::
    List.replicate 18 (.act 1 {}) ++
  .enter 2 (createPublished publish) { pid := 102, start := 1 } ::
    (List.range 21).map fun i => .act 2 { random := fun _ => 1, fault := fault i }

/-- Two containers on the bridge have the first two addresses. -/
theorem leases_unique_two :
    ∃ S, (machine plainHost plainBuild).Reach (fun _ _ => True) initialSystem S ∧
      (S.world.config (plainId 0).text).bind leaseOf = some 0x0a2c0002 ∧
      (S.world.config (plainId 1).text).bind leaseOf = some 0x0a2c0003 ∧
      (∀ d y, d ≠ (plainId 0).text → S.world.config d = some y → isBridge y = true →
        addressOf y ≠ some 0x0a2c0002) ∧
      Alone 3 (fun result w => w = S.world ∧
        (∀ a, result = .ok a ↔ SmallestFree S.world.Holds a) ∧
        ((∃ e, result = .error e ∧ e.code = .conflict) ↔ ∀ a, InPool a → S.world.Holds a))
        allocateIp S.world := by
  have hrun : ((machine plainHost plainBuild).run
      (twoCreated "127.0.0.2:8080:80/tcp" fun _ => .none) initialSystem).any (fun S =>
      (S.world.config (plainId 0).text).bind leaseOf == some 0x0a2c0002 &&
        (S.world.config (plainId 1).text).bind leaseOf == some 0x0a2c0003) = true := by
    decide +kernel
  obtain ⟨S, hS, htest⟩ := Machine.exists_reach_of_run _ hrun
  obtain ⟨hfirst, hsecond⟩ := Bool.and_eq_true_iff.mp htest
  have hunique := leases_unique hS
  refine ⟨S, hS, beq_iff_eq.mp hfirst, beq_iff_eq.mp hsecond, ?_, hunique.2 3⟩
  obtain ⟨x, hx, hlease⟩ := Option.bind_eq_some_iff.mp (beq_iff_eq.mp hfirst)
  rw [leaseOf] at hlease
  split at hlease
  · rename_i hbridge
    obtain ⟨a, ha, -, hothers⟩ := hunique.1 (plainId 0).text x hx hbridge
    obtain rfl := Option.some.inj (ha.symm.trans hlease)
    exact hothers
  · cases hlease

/-! ## Published ports -/

/-- Entry `i` of the published entries of container `c`. -/
def World.PublishedAt (w : World) (c : Name) (i : Nat) (p : Publish) : Prop :=
  ∃ x, w.config c = some x ∧ (publishesOf x)[i]? = some p

/-- Different entries of a reachable registry do not overlap. -/
theorem LeaseInv.disjoint {w : World} (hi : LeaseInv host w) {c d : Name} {i j : Nat}
    {p q : Publish} (hp : w.PublishedAt c i p) (hq : w.PublishedAt d j q)
    (hne : (c, i) ≠ (d, j)) : p.overlaps q = false := by
  obtain ⟨x, hx, hp⟩ := hp
  obtain ⟨y, hy, hq⟩ := hq
  by_cases hcd : c = d
  · -- in one container the command line has checked them
    subst hcd
    obtain rfl : x = y := Option.some.inj (hx.symm.trans hy)
    obtain ⟨config, hstored⟩ := hi.stored c x hx
    obtain ⟨stamp, image, rfl⟩ := hstored.document
    rw [publishesOf_configJson] at hp hq
    obtain ⟨hi', rfl⟩ := List.getElem?_eq_some_iff.mp hp
    obtain ⟨hj', rfl⟩ := List.getElem?_eq_some_iff.mp hq
    have hpair := List.pairwise_iff_getElem.mp hstored.accepted.disjoint
    rcases Nat.lt_trichotomy i j with hlt | rfl | hgt
    · exact hpair i j hi' hj' hlt
    · exact absurd rfl hne
    · rw [Publish.overlaps_comm]
      exact hpair j i hj' hi' hgt
  · exact (hi.compatible c d x y hcd hx hy).ports p (List.mem_of_getElem? hp) q
      (List.mem_of_getElem? hq)

end Reachable

end MiniContainer
