import MiniContainer.Native.Network
import MiniContainer.Native.World
import MiniContainer.Spec.NftRemove

/-!
# Networks of different containers

What the network operations on one container do to the link and the rules of another one.

Links are found by their names, which hold eight digits of the container's ID. Two containers
with these digits in common have one link name: the setup of the second finds the name taken,
and its failure path deletes the link of the first. Rules are found by the whole ID, so a removal
that fits the buffers of `mc_nft_remove_container` leaves those of others; the last command of
one that does not may have lost digits of its handle. Nothing else is shared
(`network_frame_iff`).
-/

namespace MiniContainer.Network

open CString (Text)

/-! ## Rules of another container -/

section Rules

variable {a b : ContainerId} {view : NftView} {chains : Chains}

/-- The rules of a container in a chain. -/
def rulesOf (id : ContainerId) (chains : Chains) (chain : Chain) : List Rule :=
  (chains chain).filter (·.ownedBy id.text)

/-- A rule has one owner at most. -/
theorem ownedBy_unique (hne : a ≠ b) {r : Rule} (h : r.ownedBy a.text = true) :
    r.ownedBy b.text = false := by
  simp only [Rule.ownedBy, beq_iff_eq] at h
  simp only [Rule.ownedBy, h, beq_eq_false_iff_ne, ne_eq, Option.some.injEq]
  intro heq
  have htext : a.text = b.text := List.append_cancel_left heq
  cases a
  cases b
  cases htext
  exact hne rfl

/-- A removal that loses nothing on its way to `nft` leaves the rules of another container. -/
theorem rulesOf_nftRemoveContainer (hne : a ≠ b) (hn : DistinctHandles chains)
    (h : Removable view b chains) (c : Chain) :
    rulesOf a (nftRemoveContainer view b.text chains) c = rulesOf a chains c := by
  rw [nftRemoveContainer_of_removable view hn h]
  unfold rulesOf othersOf
  rw [List.filter_filter]
  refine List.filter_congr fun r hr => ?_
  cases howned : r.ownedBy a.text with
  | false => rfl
  | true => rw [ownedBy_unique hne howned]; rfl

end Rules

/-! ## Links -/

/-- The name of the host's end of a veth pair is the one by which the registry knows it. -/
theorem hostInterface_eq (id : Text) : hostInterface id = linkName id := by
  have hlength : ("mch".toList ++ id.take 8).length < 16 := by
    have hmch : "mch".toList.length = 3 := rfl
    have htake := List.length_take_le 8 id
    rw [List.length_append, hmch]
    omega
  exact CString.snprintf_of_fits hlength

theorem peerInterface_eq (id : Text) : peerInterface id = "mcc".toList ++ id.take 8 := by
  have hlength : ("mcc".toList ++ id.take 8).length < 16 := by
    have hmcc : "mcc".toList.length = 3 := rfl
    have htake := List.length_take_le 8 id
    rw [List.length_append, hmcc]
    omega
  exact CString.snprintf_of_fits hlength

/-- No link of a container is the bridge. -/
theorem hostInterface_ne_bridgeName (id : Text) : hostInterface id ≠ bridgeName := by
  rw [hostInterface_eq]
  intro h
  exact absurd (congrArg (·[2]?) h) (by simp [linkName, bridgeName])

theorem peerInterface_ne_bridgeName (id : Text) : peerInterface id ≠ bridgeName := by
  rw [peerInterface_eq]
  intro h
  exact absurd (congrArg (·[2]?) h) (by simp [bridgeName])

/-- The ends of a pair have different names. -/
theorem peerInterface_ne_hostInterface (id id' : Text) : peerInterface id ≠ hostInterface id' := by
  rw [peerInterface_eq, hostInterface_eq]
  intro h
  exact absurd (congrArg (·[2]?) h) (by simp [linkName])

/-- Names of links tell containers apart by their first eight digits. -/
theorem hostInterface_inj {id id' : Text} :
    hostInterface id = hostInterface id' ↔ id.take 8 = id'.take 8 := by
  rw [hostInterface_eq, hostInterface_eq, linkName, linkName, List.append_cancel_left_eq]

/-- The link of a container: it is attached to the bridge, and the other end of its pair is in
    the namespace of the container. -/
structure Host.Attached (n : Host) (id : Text) (l : Link) : Prop where
  mem : l ∈ n.links
  name : l.name = hostInterface id
  bridge : ∃ b ∈ n.links, b.name = bridgeName ∧ b.pair = none ∧ l.master = some b.index
  pair : l.pair ≠ none
  peer : ∀ l' ∈ n.links, l'.pair = l.pair → l' = l

section Links

variable {n : Host} {id : Text} {l : Link}

/-- Links differ in their indices. -/
theorem Host.eq_of_index {l l' : Link} (hl : l ∈ n.links) (hl' : l' ∈ n.links)
    (h : l.index = l'.index) : l = l' :=
  List.inj_on_of_nodup_map n.index_nodup hl hl' h

/-- Links differ in their names. -/
theorem Host.eq_of_name {l l' : Link} (hl : l ∈ n.links) (hl' : l' ∈ n.links)
    (h : l.name = l'.name) : l = l' :=
  List.inj_on_of_nodup_map n.name_nodup hl hl' h

/-- What `if_nametoindex` finds. -/
theorem Host.exists_of_ifNametoindex {name : Text} (h : n.ifNametoindex name ≠ 0) :
    ∃ l ∈ n.links, l.name = name ∧ l.index = n.ifNametoindex name := by
  unfold Host.ifNametoindex at h ⊢
  cases hfind : n.links.find? (·.name == name) with
  | none =>
    rw [hfind] at h
    exact absurd rfl h
  | some l =>
    have hname := List.find?_some hfind
    exact ⟨l, List.mem_of_find?_eq_some hfind, by simpa using hname, rfl⟩

/-- A link is found by its name. -/
theorem Host.ifNametoindex_eq {l : Link} (hl : l ∈ n.links) : n.ifNametoindex l.name = l.index := by
  have hne : n.ifNametoindex l.name ≠ 0 := by
    unfold Host.ifNametoindex
    cases hfind : n.links.find? (·.name == l.name) with
    | none =>
      have hnone := List.find?_eq_none.mp hfind l hl
      simp at hnone
    | some l' =>
      have := n.index_pos l' (List.mem_of_find?_eq_some hfind)
      show l'.index ≠ 0
      omega
  obtain ⟨l', hl', hname, hindex⟩ := Host.exists_of_ifNametoindex hne
  rw [← hindex, Host.eq_of_name hl' hl hname]

/-- A link of another name is another link. -/
theorem Host.Attached.index_ne (h : n.Attached id l) {name : Text} (hname : name ≠ hostInterface id)
    (hfound : n.ifNametoindex name ≠ 0) : n.ifNametoindex name ≠ l.index := by
  obtain ⟨l', hl', hname', hindex⟩ := Host.exists_of_ifNametoindex hfound
  rw [← hindex]
  intro heq
  rw [Host.eq_of_index hl' h.mem heq, h.name] at hname'
  exact hname hname'.symm

/-- A link that is not the bridge has another index. -/
theorem Host.Attached.master_ne (h : n.Attached id l) {name : Text} (hname : name ≠ bridgeName)
    (hfound : n.ifNametoindex name ≠ 0) : some (n.ifNametoindex name) ≠ l.master := by
  obtain ⟨l', hl', hname', hindex⟩ := Host.exists_of_ifNametoindex hfound
  obtain ⟨b, hb, hbridge, -, hmaster⟩ := h.bridge
  rw [← hindex, hmaster]
  intro heq
  rw [Host.eq_of_index hl' hb (Option.some.inj heq), hbridge] at hname'
  exact hname hname'.symm

/-- There is a bridge already. -/
theorem Host.Attached.createBridge (h : n.Attached id l) : createBridge n = n := by
  obtain ⟨b, hb, hname, -, -⟩ := h.bridge
  exact dif_neg fun hfree => hfree b hb hname

/-- Links that are added leave the link alone. -/
theorem Host.Attached.add (h : n.Attached id l) {name : Text} {pair : Option Nat}
    (hname : ∀ l ∈ n.links, l.name ≠ name) (hpair : ∀ k ∈ pair, k ≤ n.nextIndex)
    (hother : pair ≠ l.pair) : (n.add name pair hname hpair).Attached id l where
  mem := List.mem_cons_of_mem _ h.mem
  name := h.name
  bridge :=
    have ⟨b, hb, hbridge⟩ := h.bridge
    ⟨b, List.mem_cons_of_mem _ hb, hbridge⟩
  pair := h.pair
  peer := by
    intro l' hl' heq
    rcases List.mem_cons.mp hl' with rfl | hl'
    · exact absurd heq hother
    · exact h.peer l' hl' heq

/-- A new pair of links disturbs no other. -/
theorem Host.Attached.createVeth (h : n.Attached id l) {host peer : Text} {n' : Host}
    (hn' : createVeth host peer n = some n') : n'.Attached id l := by
  have hother : some n.nextIndex ≠ l.pair := by
    intro heq
    exact Nat.lt_irrefl _ (n.pair_lt l h.mem _ heq.symm)
  unfold Network.createVeth at hn'
  split at hn'
  · dsimp only at hn'
    split at hn'
    · cases hn'
      exact (h.add _ _ hother).add _ _ hother
    · exact nomatch hn'
  · exact nomatch hn'

/-- Settings of other links leave the link alone. -/
theorem Host.Attached.configure (h : n.Attached id l) {f : Link → Setting}
    (hf : f l = ⟨l.up, l.master⟩) : (n.configure f).Attached id l where
  mem := List.mem_map.mpr ⟨l, h.mem, by rw [hf]; rfl⟩
  name := h.name
  bridge :=
    have ⟨b, hb, hbridge⟩ := h.bridge
    ⟨b.set (f b), List.mem_map_of_mem hb, hbridge⟩
  pair := h.pair
  peer := by
    intro l' hl' heq
    obtain ⟨l₀, hl₀, rfl⟩ := List.mem_map.mp hl'
    rw [h.peer l₀ hl₀ heq, hf]
    rfl

/-- Neither does the configuration of another link, -/
theorem Host.Attached.configureLink (h : n.Attached id l) {index : Nat} {master : Option Nat}
    {n' : Host} (hindex : index ≠ l.index) (hn' : configureLink index master n = some n') :
    n'.Attached id l := by
  unfold Network.configureLink at hn'
  split at hn'
  · cases hn'
    exact h.configure (if_neg hindex.symm)
  · exact nomatch hn'

/-- Links that go leave the link alone, if neither it nor the bridge is among them. -/
theorem Host.Attached.keep (h : n.Attached id l) {p : Link → Bool} (hl : p l = true)
    (hbridge : ∀ b ∈ n.links, b.pair = none → l.master = some b.index → p b = true) :
    (n.keep p).Attached id l where
  mem := List.mem_filter.mpr ⟨h.mem, hl⟩
  name := h.name
  bridge :=
    have ⟨b, hb, hname, hpair, hmaster⟩ := h.bridge
    ⟨b, List.mem_filter.mpr ⟨hb, hbridge b hb hpair hmaster⟩, hname, hpair, hmaster⟩
  pair := h.pair
  peer l' hl' := h.peer l' (List.mem_filter.mp hl').1

/-- its move into a namespace -/
theorem Host.Attached.moveLink (h : n.Attached id l) {index : Nat} {n' : Host}
    (hindex : index ≠ l.index) (hmaster : some index ≠ l.master)
    (hn' : moveLink index n = some n') : n'.Attached id l := by
  unfold Network.moveLink at hn'
  split at hn'
  · cases hn'
    refine h.keep (bne_iff_ne.mpr hindex.symm) fun b _ _ hb => bne_iff_ne.mpr fun heq => ?_
    exact hmaster (heq ▸ hb.symm)
  · exact nomatch hn'

/-- or its deletion. -/
theorem Host.Attached.deleteIndex (h : n.Attached id l) {index : Nat} {n' : Host}
    (hindex : index ≠ l.index) (hmaster : some index ≠ l.master)
    (hn' : deleteIndex index n = some n') : n'.Attached id l := by
  unfold Network.deleteIndex at hn'
  split at hn'
  · exact nomatch hn'
  · rename_i deleted hfind
    cases hn'
    have hdeleted : deleted.index = index := by simpa using List.find?_some hfind
    have hmem := List.mem_of_find?_eq_some hfind
    have hpair : l.pair ≠ deleted.pair := by
      intro heq
      rw [h.peer deleted hmem heq.symm] at hdeleted
      exact hindex hdeleted.symm
    refine Host.Attached.configure (h.keep ?_ ?_) ?_
    · simp [hindex.symm, hpair]
    · intro b _ hb hbridge
      have hne : b.index ≠ index := fun heq => hmaster (heq ▸ hbridge.symm)
      simp [hne, hb]
    · rw [if_neg hmaster.symm]

end Links

/-! ## Operations -/

/-- The link and the rules of a container are as they were. -/
structure Untouched (a : ContainerId) (n n' : Host) : Prop where
  link : ∀ l, n.Attached a.text l → n'.Attached a.text l
  rules : ∀ c, rulesOf a n'.chains c = rulesOf a n.chains c

theorem Untouched.refl (a : ContainerId) (n : Host) : Untouched a n n :=
  ⟨fun _ h => h, fun _ => rfl⟩

theorem Untouched.trans {a : ContainerId} {n₁ n₂ n₃ : Host} (h : Untouched a n₁ n₂)
    (h' : Untouched a n₂ n₃) : Untouched a n₁ n₃ :=
  ⟨fun l hl => h'.link l (h.link l hl), fun c => (h'.rules c).trans (h.rules c)⟩

section Operations

variable {a b : ContainerId} {n : Host}

/-- A property of the variables that every call keeps holds behind the calls. -/
theorem runCalls_induction {answer : Step → Answer} {I : Vars → Prop} {calls : List Call}
    (hcalls : ∀ call ∈ calls, ∀ v v', I v → call.effect v = some v' → I v') {v : Vars} (h : I v) :
    I (runCalls answer calls v).2 := by
  induction calls generalizing v with
  | nil => exact h
  | cons call calls ih =>
    have hrest := fun c hc => hcalls c (List.mem_cons_of_mem call hc)
    unfold runCalls
    split
    · exact h
    · rename_i v' heffect
      have h' := hcalls call List.mem_cons_self v v' h heffect
      split
      · exact ih hrest h'
      · exact h
      · exact h'

/-- The link and the rules are all there is. -/
theorem Untouched.of_attached {n' : Host} {l : Link} (hl : n.Attached a.text l)
    (hl' : n'.Attached a.text l) (hrules : ∀ c, rulesOf a n'.chains c = rulesOf a n.chains c) :
    Untouched a n n' where
  link l₀ hl₀ := by
    rwa [Host.eq_of_name hl₀.mem hl.mem (hl₀.name.trans hl.name.symm)]
  rules := hrules

/-- What the setup of another container keeps true of its variables: they do not denote the
    link `l`, and the peer is not the bridge to which it is attached. -/
structure Beside (a : ContainerId) (l : Link) (rules : Chain → List Rule) (v : Vars) : Prop where
  attached : v.host.Attached a.text l
  rules : ∀ c, rulesOf a v.host.chains c = rules c
  bridgeIndex : v.bridgeIndex ≠ l.index
  hostIndex : v.hostIndex ≠ l.index
  peerIndex : v.peerIndex ≠ l.index
  peerMaster : some v.peerIndex ≠ l.master

section Calls

variable {l : Link} {rules : Chain → List Rule} {v v' : Vars}

/-- A request keeps what it keeps of the link and the rules. -/
theorem Beside.request (h : Beside a l rules v) {effect : Host → Option Host}
    (hrequest : v.request effect = some v')
    (heffect : ∀ n', effect v.host = some n' →
      n'.Attached a.text l ∧ ∀ c, rulesOf a n'.chains c = rules c) : Beside a l rules v' := by
  obtain ⟨n', hn', rfl⟩ := Option.map_eq_some_iff.mp hrequest
  obtain ⟨hattached, hrules⟩ := heffect n' hn'
  exact { h with attached := hattached, rules := hrules }

/-- A request to a link keeps the rules. -/
theorem Beside.linkRequest (h : Beside a l rules v) {effect : Host → Option Host}
    (hrequest : v.request effect = some v')
    (heffect : ∀ n', effect v.host = some n' →
      n'.Attached a.text l ∧ n'.chains = v.host.chains) : Beside a l rules v' := by
  refine h.request hrequest fun n' hn' => ?_
  obtain ⟨hattached, hchains⟩ := heffect n' hn'
  exact ⟨hattached, fun c => hchains ▸ h.rules c⟩

/-- Requests for links change no rules. -/
theorem createVeth_chains {host peer : Text} {n' : Host} (h : createVeth host peer n = some n') :
    n'.chains = n.chains := by
  unfold createVeth at h
  split at h
  · dsimp only at h
    split at h
    · cases h
      rfl
    · exact nomatch h
  · exact nomatch h

theorem configureLink_chains {index : Nat} {master : Option Nat} {n' : Host}
    (h : configureLink index master n = some n') : n'.chains = n.chains := by
  unfold configureLink at h
  split at h
  · cases h
    rfl
  · exact nomatch h

theorem moveLink_chains {index : Nat} {n' : Host} (h : moveLink index n = some n') :
    n'.chains = n.chains := by
  unfold moveLink at h
  split at h
  · cases h
    rfl
  · exact nomatch h

theorem deleteIndex_chains {index : Nat} {n' : Host} (h : deleteIndex index n = some n') :
    n'.chains = n.chains := by
  unfold deleteIndex at h
  split at h
  · exact nomatch h
  · cases h
    rfl

/-- An index that a lookup finds. -/
theorem exists_of_lookup {name : Text} {assign : Nat → Vars} (h : v.lookup name assign = some v') :
    v.host.ifNametoindex name ≠ 0 ∧ v' = assign (v.host.ifNametoindex name) := by
  unfold Vars.lookup at h
  split at h
  · exact nomatch h
  · rename_i hne
    exact ⟨hne, (Option.some.inj h).symm⟩

/-- New rules of others are not rules of the container. -/
theorem rulesOf_append_of_unowned {chains chains' : Chains} {c : Chain} {added : List Rule}
    (hadded : chains' c = chains c ++ added) (hunowned : ∀ r ∈ added, r.ownedBy a.text = false) :
    rulesOf a chains' c = rulesOf a chains c := by
  have hnone : added.filter (·.ownedBy a.text) = [] :=
    List.filter_eq_nil_iff.mpr fun r hr => by simp [hunowned r hr]
  unfold rulesOf
  rw [hadded, List.filter_append, hnone, List.append_nil]

/-- The base table is made anew without touching rules. -/
theorem rulesOf_ensureBase (o : Outcome) (n : Host) (c : Chain) :
    rulesOf a (ensureBase o n).chains c = rulesOf a n.chains c := by
  unfold ensureBase
  split
  · rfl
  · by_cases hc : c = .forward
    · subst hc
      have hadded : Function.update n.chains .forward (n.chains .forward ++ o.base.rules) .forward =
          n.chains .forward ++ o.base.rules := Function.update_self ..
      exact rulesOf_append_of_unowned hadded fun r hr => o.base.unowned r hr a
    · have hsame : Function.update n.chains .forward (n.chains .forward ++ o.base.rules) c =
          n.chains c ++ [] := by rw [Function.update_of_ne hc, List.append_nil]
      exact rulesOf_append_of_unowned hsame nofun

theorem Host.Attached.ensureBase {id : Text} (o : Outcome) (h : n.Attached id l) :
    (ensureBase o n).Attached id l := by
  unfold Network.ensureBase
  split
  · exact h
  · exact ⟨h.mem, h.name, h.bridge, h.pair, h.peer⟩

/-- New rules belong to their container. -/
theorem rulesOf_nftAddContainer (hne : a ≠ b) (ipv4Host : UInt32) (publishes : List Publish)
    (handles : Nat → Handle) (chains : Chains) (c : Chain) :
    rulesOf a (nftAddContainer b ipv4Host publishes handles chains) c = rulesOf a chains c := by
  refine rulesOf_append_of_unowned rfl fun r hr => ?_
  obtain ⟨⟨p, i⟩, -, rfl⟩ := List.mem_map.mp hr
  exact ownedBy_unique hne.symm (beq_self_eq_true (some (ownerComment b.text)))

end Calls

/-- The calls of a setup leave the link and the rules of a container alone whose first eight
    digits are others. -/
theorem beside_setupCalls {args : Args} {l : Link} (hne : a ≠ args.id)
    (hdigits : a.text.take 8 ≠ args.id.text.take 8) (hl : n.Attached a.text l) (o : Outcome) :
    Beside a l (rulesOf a n.chains) (setupCalls o args n).2 := by
  have hhost : hostInterface args.id.text ≠ hostInterface a.text :=
    fun heq => hdigits (hostInterface_inj.mp heq).symm
  have hzero : 0 ≠ l.index := Nat.ne_of_lt (n.index_pos l hl.mem)
  have hmaster : some 0 ≠ l.master := by
    obtain ⟨br, hbr, -, -, hmaster⟩ := hl.bridge
    rw [hmaster]
    exact fun heq => Nat.ne_of_lt (n.index_pos br hbr) (Option.some.inj heq)
  apply runCalls_induction
  · intro call hcall v v' h heffect
    simp only [linkCalls, List.cons_append, List.nil_append, List.mem_cons] at hcall
    -- one case for each call, in the order of the source
    rcases hcall with rfl | rfl | rfl | rfl | rfl | rfl | rfl | rfl | rfl | rfl | rfl | hcall
    · dsimp only at heffect
      refine h.request heffect fun n' hn' => ?_
      cases hn'
      rw [h.attached.createBridge]
      exact ⟨h.attached, h.rules⟩
    · dsimp only at heffect
      refine h.request heffect fun n' hn' => ?_
      cases hn'
      exact ⟨h.attached.ensureBase o, fun c => (rulesOf_ensureBase o v.host c).trans (h.rules c)⟩
    · dsimp only at heffect
      obtain ⟨hfound, rfl⟩ := exists_of_lookup heffect
      have hindex := h.attached.index_ne (hostInterface_ne_bridgeName a.text).symm hfound
      exact { h with bridgeIndex := hindex }
    · dsimp only at heffect
      refine h.linkRequest heffect fun n' hn' => ?_
      exact ⟨h.attached.configureLink h.bridgeIndex hn', configureLink_chains hn'⟩
    · cases heffect
      exact h
    · dsimp only at heffect
      refine h.linkRequest heffect fun n' hn' => ?_
      exact ⟨h.attached.createVeth hn', createVeth_chains hn'⟩
    · dsimp only at heffect
      obtain ⟨hfound, rfl⟩ := exists_of_lookup heffect
      exact { h with hostIndex := h.attached.index_ne hhost hfound }
    · dsimp only at heffect
      obtain ⟨hfound, rfl⟩ := exists_of_lookup heffect
      have hindex := h.attached.index_ne (peerInterface_ne_hostInterface _ _) hfound
      have hbridge := h.attached.master_ne (peerInterface_ne_bridgeName _) hfound
      exact { h with peerIndex := hindex, peerMaster := hbridge }
    · dsimp only at heffect
      refine h.linkRequest heffect fun n' hn' => ?_
      exact ⟨h.attached.configureLink h.hostIndex hn', configureLink_chains hn'⟩
    · dsimp only at heffect
      refine h.linkRequest heffect fun n' hn' => ?_
      exact ⟨h.attached.moveLink h.peerIndex h.peerMaster hn', moveLink_chains hn'⟩
    · cases heffect
      exact h
    · unfold publishCalls at hcall
      split at hcall
      · exact nomatch hcall
      · rw [List.mem_singleton] at hcall
        subst hcall
        dsimp only at heffect
        refine h.request heffect fun n' hn' => ?_
        cases hn'
        refine ⟨⟨h.attached.mem, h.attached.name, h.attached.bridge, h.attached.pair,
          h.attached.peer⟩, fun c => ?_⟩
        exact (rulesOf_nftAddContainer hne _ _ _ _ c).trans (h.rules c)
  · exact ⟨hl, fun _ => rfl, hzero, hzero, hzero, hmaster⟩

/-- The deletion of a link changes no rules. -/
theorem deleteLink_chains (o : Outcome) (name : Text) (n : Host) :
    (deleteLink o name n).chains = n.chains := by
  unfold deleteLink
  split
  · cases hdelete : deleteIndex (n.ifNametoindex name) n with
    | none => rfl
    | some n' => exact deleteIndex_chains hdelete
  · rfl

/-- `delete_link` leaves links of other names alone. -/
theorem untouched_deleteLink (hactive : ∃ l, n.Attached a.text l) {name : Text}
    (hname : name ≠ hostInterface a.text) (hbridge : name ≠ bridgeName) (o : Outcome) :
    Untouched a n (deleteLink o name n) := by
  obtain ⟨l, hl⟩ := hactive
  refine Untouched.of_attached hl ?_ fun c => by rw [deleteLink_chains]
  unfold deleteLink
  split
  · rename_i hfound
    cases hdelete : deleteIndex (n.ifNametoindex name) n with
    | none => exact hl
    | some n' =>
      exact hl.deleteIndex (hl.index_ne hname hfound.2.1) (hl.master_ne hbridge hfound.2.1) hdelete
  · exact hl

/-- The rules of a container fit the buffers of its removal, if there is one. -/
def Outcome.Fits (o : Outcome) (id : ContainerId) (chains : Chains) : Prop :=
  o.locks = true → Removable o.view id chains

/-- `mc_nft_remove_container` leaves the rules of others alone if those of its container fit. -/
theorem untouched_removeRules {o : Outcome} (hne : a ≠ b) (hn : DistinctHandles n.chains)
    (h : o.Fits b n.chains) : Untouched a n (removeRules o b.text n) := by
  unfold removeRules
  split
  · rename_i hlocks
    exact ⟨fun l hl => ⟨hl.mem, hl.name, hl.bridge, hl.pair, hl.peer⟩,
      rulesOf_nftRemoveContainer hne hn (h hlocks)⟩
  · exact .refl a n

/-- A container that is left alone stays attached. -/
theorem Untouched.attached {n' : Host} (h : Untouched a n n') (hactive : ∃ l, n.Attached a.text l) :
    ∃ l, n'.Attached a.text l :=
  hactive.imp h.link

end Operations

/-- The rules on the host when the calls of a setup end: those that were there, with the base
    rules, and with those of the published ports too. -/
def Outcome.chainsBehind (o : Outcome) (args : Args) (n : Host) : List Chains :=
  [n.chains, (ensureBase o n).chains,
    nftAddContainer args.id args.ipv4Host args.publishes o.handles (ensureBase o n).chains]

theorem ensureBase_chains (o : Outcome) {n n' : Host} (h : n'.chains = n.chains) :
    (ensureBase o n').chains = (ensureBase o n).chains := by
  unfold ensureBase
  split
  · exact h
  · simp only [h]

/-- Calls that leave the rules alone end among themselves or lead to the next ones. -/
theorem runCalls_chains {answer : Step → Answer} {calls : List Call} (last : List Call)
    (hcalls : ∀ call ∈ calls, ∀ v v', call.effect v = some v' → v'.host.chains = v.host.chains)
    (v : Vars) : (runCalls answer (calls ++ last) v).2.host.chains = v.host.chains ∨
      ∃ v', v'.host.chains = v.host.chains ∧
        runCalls answer (calls ++ last) v = runCalls answer last v' := by
  induction calls generalizing v with
  | nil => exact .inr ⟨v, rfl, rfl⟩
  | cons call calls ih =>
    rw [List.cons_append, runCalls]
    split
    · exact .inl rfl
    · rename_i v' heffect
      have hsame := hcalls call List.mem_cons_self v v' heffect
      split
      · rcases ih (fun c hc => hcalls c (List.mem_cons_of_mem call hc)) v' with h | ⟨v'', h, heq⟩
        · exact .inl (h.trans hsame)
        · exact .inr ⟨v'', h.trans hsame, heq⟩
      · exact .inl rfl
      · exact .inl hsame

/-- A call that changes the rules, and what comes behind it. -/
theorem runCalls_cons {answer : Step → Answer} {P : Vars → Prop} {call : Call}
    {calls : List Call} {v : Vars} (h : P v)
    (hcall : ∀ v', call.effect v = some v' → P v' ∧ P (runCalls answer calls v').2) :
    P (runCalls answer (call :: calls) v).2 := by
  rw [runCalls]
  split
  · exact h
  · rename_i v' heffect
    split
    · exact (hcall v' heffect).2
    · exact h
    · exact (hcall v' heffect).1

theorem host_of_request {v v' : Vars} {effect : Host → Host}
    (h : v.request (fun n => some (effect n)) = some v') : v'.host = effect v.host := by
  obtain ⟨n', hn', rfl⟩ := Option.map_eq_some_iff.mp h
  exact (Option.some.inj hn').symm

theorem chains_of_request {v v' : Vars} {effect : Host → Option Host}
    (heffect : ∀ {n n'}, effect n = some n' → n'.chains = n.chains)
    (h : v.request effect = some v') : v'.host.chains = v.host.chains := by
  obtain ⟨n', hn', rfl⟩ := Option.map_eq_some_iff.mp h
  exact heffect hn'

/-- Behind the base rules, the calls on links leave the rules alone. -/
theorem linkCalls_chains (o : Outcome) (args : Args) :
    ∀ call ∈ (linkCalls o args).drop 2, ∀ v v', call.effect v = some v' →
      v'.host.chains = v.host.chains := by
  intro call hcall v v' heffect
  simp only [linkCalls, List.drop_succ_cons, List.drop_zero, List.mem_cons, List.not_mem_nil,
    or_false] at hcall
  rcases hcall with rfl | rfl | rfl | rfl | rfl | rfl | rfl | rfl | rfl
  · dsimp only at heffect
    rw [(exists_of_lookup heffect).2]
  · exact chains_of_request configureLink_chains heffect
  · cases heffect
    rfl
  · exact chains_of_request createVeth_chains heffect
  · dsimp only at heffect
    rw [(exists_of_lookup heffect).2]
  · dsimp only at heffect
    rw [(exists_of_lookup heffect).2]
  · exact chains_of_request configureLink_chains heffect
  · exact chains_of_request moveLink_chains heffect
  · cases heffect
    rfl

/-- Which rules `mc_network_setup` may leave behind. -/
theorem setupCalls_chains (o : Outcome) (args : Args) (n : Host) :
    (setupCalls o args n).2.host.chains ∈ o.chainsBehind args n := by
  have hbridge : (createBridge n).chains = n.chains := by
    unfold createBridge
    split <;> rfl
  let P : Vars → Prop := fun v => v.host.chains ∈ o.chainsBehind args n
  have hbefore : ∀ v : Vars, v.host.chains = n.chains → P v := fun v h => by
    simp [P, Outcome.chainsBehind, h]
  have hbase : ∀ v : Vars, v.host.chains = (ensureBase o n).chains → P v := fun v h => by
    simp [P, Outcome.chainsBehind, h]
  -- the bridge is made, and the base rules are added
  refine runCalls_cons (P := P) (hbefore _ rfl) fun v₁ h₁ => ?_
  have h₁ : v₁.host.chains = n.chains := by rw [host_of_request h₁, hbridge]
  refine ⟨hbefore v₁ h₁, runCalls_cons (P := P) (hbefore v₁ h₁) fun v₂ h₂ => ?_⟩
  have h₂ : v₂.host.chains = (ensureBase o n).chains := by
    rw [host_of_request h₂, ensureBase_chains o h₁]
  refine ⟨hbase v₂ h₂, ?_⟩
  -- the calls on links are next, and the ports are last
  rcases runCalls_chains (publishCalls o args) (linkCalls_chains o args) v₂ with
    h | ⟨v₃, h₃, heq⟩
  · exact hbase _ (h.trans h₂)
  · refine (congrArg (fun r => P r.2) heq).mpr ?_
    unfold publishCalls
    split
    · exact hbase v₃ (h₃.trans h₂)
    · refine runCalls_cons (P := P) (hbase v₃ (h₃.trans h₂)) fun v₄ h₄ => ?_
      dsimp only at h₄
      have h₄ : P v₄ := by
        simp [P, Outcome.chainsBehind, host_of_request h₄, h₃, h₂]
      exact ⟨h₄, h₄⟩

/-- The handles that `nft` gives to rules during a setup are new. -/
def Outcome.Fresh (o : Outcome) (args : Args) (n : Host) : Prop :=
  ∀ chains ∈ o.chainsBehind args n, DistinctHandles chains

/-- The state of the network of a container, as `mc_network_setup` leaves it. -/
def stateOf (args : Args) (active : Bool) : State :=
  ⟨hostInterface args.id.text, peerInterface args.id.text, args.ipv4Host,
    CString.snprintf 33 args.id.text, active⟩

theorem stateOf_id (args : Args) (active : Bool) : (stateOf args active).id = args.id.text :=
  CString.snprintf_of_fits (by rw [args.id.length_text]; decide)

/-- No outcome of the three operations on a container touches another one, as long as the rules
    of the container fit the buffers of their removal. -/
structure Frame (a : ContainerId) (args : Args) (n : Host) : Prop where
  setup : ∀ o : Outcome, o.Fresh args n →
    (∀ chains ∈ o.chainsBehind args n, o.Fits args.id chains) →
    Untouched a n (setup o args n).2.2
  destroy : ∀ (o : Outcome) (active : Bool), o.Fits args.id n.chains →
    Untouched a n (destroy o (stateOf args active) n).2
  cleanupOwned : ∀ o : Outcome, o.Fits args.id n.chains →
    Untouched a n (cleanupOwned o args.id.text n)

section Frame

variable {a : ContainerId} {args : Args} {n : Host}

/-- What the removal of the link and the rules of a container leaves of another one. -/
theorem untouched_removal (hne : a ≠ args.id) (hactive : ∃ l, n.Attached a.text l)
    (hdigits : a.text.take 8 ≠ args.id.text.take 8) (hn : DistinctHandles n.chains) {o : Outcome}
    (hfits : o.Fits args.id n.chains) :
    Untouched a n (removeRules o args.id.text (deleteLink o (hostInterface args.id.text) n)) := by
  have hlink := untouched_deleteLink hactive
    (fun heq => hdigits (hostInterface_inj.mp heq).symm)
    (hostInterface_ne_bridgeName args.id.text) o
  refine hlink.trans (untouched_removeRules hne ?_ ?_)
  · rwa [deleteLink_chains]
  · rwa [deleteLink_chains]

/-- A set-up touches no container with other leading digits. -/
theorem untouched_setup (hne : a ≠ args.id) (hactive : ∃ l, n.Attached a.text l)
    (hdigits : a.text.take 8 ≠ args.id.text.take 8) {o : Outcome} (hfresh : o.Fresh args n)
    (hfits : ∀ chains ∈ o.chainsBehind args n, o.Fits args.id chains) :
    Untouched a n (setup o args n).2.2 := by
  obtain ⟨l, hl⟩ := hactive
  have hbeside := beside_setupCalls hne hdigits hl o
  have hbehind := setupCalls_chains o args n
  have hn := hfresh _ hbehind
  have hfits := hfits _ hbehind
  unfold setup
  revert hn hfits hbeside
  rcases setupCalls o args n with ⟨_ | error, v⟩
  · exact fun hbeside _ _ => .of_attached hl hbeside.attached hbeside.rules
  · intro hbeside hn hfits
    have hcalls : Untouched a n v.host := .of_attached hl hbeside.attached hbeside.rules
    have hremoved := hcalls.trans (untouched_removeRules hne hn hfits)
    refine hremoved.trans (untouched_deleteLink (hremoved.attached ⟨l, hl⟩) ?_
      (hostInterface_ne_bridgeName args.id.text) o)
    exact fun heq => hdigits (hostInterface_inj.mp heq).symm

/-- `delete_link` with the name of a link deletes the link. -/
theorem not_mem_deleteLink {l : Link} (hl : l ∈ n.links) {o : Outcome} (hlooksUp : o.looksUp = true)
    (hdeletion : o.deletion ≠ .refused) : l ∉ (deleteLink o l.name n).links := by
  have hindex := Host.ifNametoindex_eq hl
  have hpos := n.index_pos l hl
  have hfind : ∃ l', n.links.find? (·.index == l.index) = some l' := by
    cases hnone : n.links.find? (·.index == l.index) with
    | none => simpa using List.find?_eq_none.mp hnone l hl
    | some l' => exact ⟨l', rfl⟩
  obtain ⟨l', hl'⟩ := hfind
  unfold deleteLink
  rw [if_pos ⟨hlooksUp, by omega, hdeletion⟩, hindex]
  unfold deleteIndex
  rw [hl']
  intro hmem
  obtain ⟨l₀, hl₀, heq⟩ := List.mem_map.mp hmem
  have hkept := (List.mem_filter.mp hl₀).2
  have hsame : l₀.index = l.index := by
    rw [← heq]
    rfl
  simp [hsame] at hkept

/-- An outcome in which nothing fails. -/
def smooth (view : NftView) : Outcome where
  answer _ := .done
  listed := true
  base := ⟨[], nofun⟩
  handles _ := ⟨1, by decide, by decide⟩
  looksUp := true
  deletion := .done
  locks := true
  view := view

/-- The clean-up deletes the link and the rules. -/
theorem cleanupOwned_eq (o : Outcome) (id : ContainerId) (n : Host) :
    cleanupOwned o id.text n = removeRules o id.text (deleteLink o (hostInterface id.text) n) :=
  if_neg fun h => h id.length_text

end Frame

/-- As long as its rules fit the buffers of their removal, the operations on the network of a
    container do not touch the active network of another one exactly when the first eight digits
    of the two IDs are different. -/
theorem network_frame_iff {a : ContainerId} {args : Args} (hne : a ≠ args.id) {n : Host}
    (hactive : ∃ l, n.Attached a.text l) (hhandles : DistinctHandles n.chains) :
    Frame a args n ↔ a.text.take 8 ≠ args.id.text.take 8 := by
  constructor
  · intro h hdigits
    obtain ⟨l, hl⟩ := hactive
    have hname : hostInterface args.id.text = l.name :=
      (hostInterface_inj.mpr hdigits.symm).trans hl.name.symm
    -- the link is deleted whether or not the rules are removed
    have hkept := ((h.cleanupOwned { smooth plainView with locks := false }
      fun hlocks => nomatch hlocks).link l hl).mem
    rw [cleanupOwned_eq, hname] at hkept
    exact not_mem_deleteLink hl.mem rfl (by decide) hkept
  · intro hdigits
    refine ⟨fun o hfresh hfits => ?_, fun o active hfits => ?_, fun o hfits => ?_⟩
    · exact untouched_setup hne hactive hdigits hfresh hfits
    · unfold destroy
      rw [stateOf_id]
      split
      · exact untouched_removal hne hactive hdigits hhandles hfits
      · exact .refl a n
    · rw [cleanupOwned_eq]
      exact untouched_removal hne hactive hdigits hhandles hfits

/-! ## Two containers -/

def firstId : ContainerId := generateId fun _ => 0xaa

/-- The bridge. -/
def bridgeLink : Link := ⟨1, bridgeName, true, none, none⟩

/-- The link of the first container. -/
def firstLink : Link := ⟨3, hostInterface firstId.text, true, some 1, some 2⟩

/-- The host behind the setup of the first container, which publishes no ports. -/
def firstHost : Host where
  links := [firstLink, bridgeLink]
  nextIndex := 4
  chains _ := []
  index_nodup := by decide
  name_nodup := by decide
  index_pos := by decide
  index_lt := by decide
  pair_lt := by decide

theorem attached_firstHost : firstHost.Attached firstId.text firstLink where
  mem := by decide
  name := rfl
  bridge := ⟨bridgeLink, by decide, rfl, rfl, rfl⟩
  pair := by decide
  peer := by decide

/-- A second container that publishes a port. -/
def secondArgs (id : ContainerId) : Args := ⟨id, 0x0a2c0003, [⟨0, 8080, 80, ipprotoTcp⟩]⟩

/-- The ID of the second container starts with another digit. -/
def otherArgs : Args := secondArgs (generateId fun _ => 0xbb)

/-- The ID of the second container starts with the same eight digits. -/
def clashingArgs : Args := secondArgs (generateId fun i => if i.val < 4 then 0xaa else 0xbb)

/-- The rules of the second container fit, and the first one is not touched. -/
theorem network_frame_other :
    (∀ chains ∈ (smooth plainView).chainsBehind otherArgs firstHost,
      DistinctHandles chains ∧ (smooth plainView).Fits otherArgs.id chains) ∧
    Untouched firstId firstHost (setup (smooth plainView) otherArgs firstHost).2.2 ∧
    Untouched firstId firstHost (cleanupOwned (smooth plainView) otherArgs.id.text firstHost) := by
  have hbehind : ∀ chains ∈ (smooth plainView).chainsBehind otherArgs firstHost,
      DistinctHandles chains ∧ (smooth plainView).Fits otherArgs.id chains := by
    have hremovable : ∀ chains : Chains, DistinctHandles chains →
        (∀ c, nftRemoveContainer plainView otherArgs.id.text chains c =
          othersOf otherArgs.id chains c) →
        DistinctHandles chains ∧ (smooth plainView).Fits otherArgs.id chains := fun chains hn h =>
      ⟨hn, fun _ => (nftRemoveContainer_eq_iff plainView hn).mp (funext h)⟩
    intro chains hchains
    simp only [Outcome.chainsBehind, List.mem_cons, List.not_mem_nil, or_false] at hchains
    rcases hchains with rfl | rfl | rfl
    · exact hremovable _ (fun _ => List.nodup_nil) fun _ => rfl
    · exact hremovable _ (fun _ => List.nodup_nil) fun _ => rfl
    · refine hremovable _ (fun c => ?_) fun c => ?_
      · cases c <;> decide +kernel
      · have hothers : othersOf otherArgs.id (nftAddContainer otherArgs.id otherArgs.ipv4Host
            otherArgs.publishes (smooth plainView).handles
            (ensureBase (smooth plainView) firstHost).chains) = fun _ => [] :=
          othersOf_nftAddContainer fun _ _ hr => nomatch hr
        rw [hothers, ← List.isEmpty_iff]
        cases c <;> decide +kernel
  have hframe : Frame firstId otherArgs firstHost :=
    (network_frame_iff (by decide) ⟨firstLink, attached_firstHost⟩ fun _ => List.nodup_nil).mpr
      (by decide)
  exact ⟨hbehind, hframe.setup _ (fun chains h => (hbehind chains h).1) fun chains h =>
    (hbehind chains h).2, hframe.cleanupOwned _ (hbehind _ (by simp [Outcome.chainsBehind])).2⟩

/-- The setup of the second container finds the name of its link taken, fails, and deletes the
    link of the first container. -/
theorem setup_deletes_link :
    firstId ≠ clashingArgs.id ∧ firstHost.Attached firstId.text firstLink ∧
      (setup (smooth plainView) clashingArgs firstHost).1 =
        some (errorSet .runtime .system "network-setup" clashingArgs.id.text
          "rtnetlink bridge/veth configuration failed") ∧
      (setup (smooth plainView) clashingArgs firstHost).2.2.links = [bridgeLink] :=
  ⟨by decide, attached_firstHost, by decide +kernel, by decide +kernel⟩

end MiniContainer.Network
