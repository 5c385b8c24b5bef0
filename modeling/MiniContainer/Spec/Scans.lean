import MiniContainer.Spec.ConfigRoundTrip
import MiniContainer.Spec.Rules

/-!
# What scans see in stored documents

`name_is_taken`, `published_port_is_taken` and `mc_state_allocate_ip` look at single
members of the documents that `config_json` wrote. Here these members are traced
back to the configuration that was stored.
-/

namespace MiniContainer

open CString (Text)
open JsonC (Value toU8 toU16 toU32)

/-- The member `ipv4_host` of a document. -/
def addressOf (document : Value) : Option UInt32 :=
  (document.getEx "ipv4_host").map fun value => toU32 value.getInt64

/-- The member `network_mode` of a document is the bridge. -/
def isBridge (document : Value) : Bool :=
  (document.getEx "network_mode").bind Value.getString == some "bridge".toList

/-- The address that a document leases: its `ipv4_host`, if its network is the bridge. -/
def leaseOf (document : Value) : Option UInt32 :=
  if isBridge document then addressOf document else none

/-- The published entries of a document. -/
def publishesOf (document : Value) : List Publish :=
  ((getArray document "publishes").getD []).filterMap loadPublish

/-- What the address scan makes of a document. -/
theorem heldAddress_eq (document : Option Value) :
    heldAddress document = (document.bind addressOf).bind fun address =>
      if address &&& 0xffffff00 = subnet then some (address &&& 0xff) else none := by
  cases document with
  | none => rfl
  | some x =>
    simp only [heldAddress, addressOf, Option.bind_some]
    cases x.getEx "ipv4_host" <;> rfl

section Members

variable (stamp : Stamp) (config : RunConfig) (image : Text)

theorem hasName_configJson (name : Text) :
    hasName (some (configJson stamp config image)) name =
      (config.name.map untilNul == some name) := by
  rw [hasName, getEx_name_configJson]
  cases config.name <;> rfl

private theorem toU32_getInt64 (n : UInt32) : toU32 (Value.int n.toNat).getInt64 = n := by
  have := n.toNat_lt
  rw [Value.getInt64_int (by omega) (by omega), JsonC.toU32_toNat]

theorem addressOf_configJson :
    addressOf (configJson stamp config image) = some config.ipv4Host := by
  rw [addressOf, getEx_configJson stamp config image "ipv4_host" rfl rfl rfl, Option.map_some,
    toU32_getInt64]

theorem isBridge_configJson : isBridge (configJson stamp config image) = config.networkBridge := by
  rw [isBridge, getEx_configJson stamp config image "network_mode" rfl rfl rfl, Option.bind_some]
  cases config.networkBridge <;> rfl

theorem leaseOf_configJson :
    leaseOf (configJson stamp config image) =
      if config.networkBridge then some config.ipv4Host else none := by
  rw [leaseOf, isBridge_configJson, addressOf_configJson]

private theorem getArray_publishes :
    getArray (configJson stamp config image) "publishes" =
      some (config.publishes.map Publish.toJson) := by
  rw [getArray, getEx_configJson stamp config image "publishes" rfl rfl rfl]
  rfl

theorem publishesOf_configJson :
    publishesOf (configJson stamp config image) = config.publishes := by
  rw [publishesOf, getArray_publishes, Option.getD_some, List.filterMap_map]
  have hload : loadPublish ∘ Publish.toJson = some := funext loadPublish_toJson
  rw [hload, List.filterMap_some]

/-- A stored entry collides with what it overlaps; its container port does not matter. -/
theorem collides_toJson (requested p : Publish) :
    collides requested p.toJson = requested.overlaps p := by
  have hload := loadPublish_toJson p
  simp only [loadPublish, collides, Publish.toJson, Value.getEx_obj, List.lookup_cons,
    String.reduceBEq] at hload ⊢
  have hp : p = ⟨toU32 (Value.int p.hostIpv4.toNat).getInt64,
      toU16 (Value.int p.hostPort.toNat).getInt,
      toU16 (Value.int p.containerPort.toNat).getInt, toU8 (Value.int p.protocol.toNat).getInt⟩ :=
    (Option.some.inj hload).symm
  conv_rhs => rw [hp]
  rfl

theorem publishesAny_configJson (requested : List Publish) :
    publishesAny requested (some (configJson stamp config image)) =
      config.publishes.any fun p => requested.any (·.overlaps p) := by
  simp only [publishesAny, Option.bind_some, getArray_publishes, List.any_map, Function.comp_def,
    collides_toJson]

end Members

/-- The directory of a container is not hidden from any scan. -/
theorem ContainerId.not_hidden (id : ContainerId) : hiddenEntry id.text = false := by
  rw [hiddenEntry]
  cases h : id.text.head? with
  | none => rfl
  | some c =>
    have hc : isHexDigit c = true := id.hex c (List.mem_of_head? h)
    have hdot : c ≠ '.' := by
      rintro rfl
      exact absurd hc (by decide)
    simpa using hdot

/-! ## The address pool -/

/-- The addresses 10.44.0.2 to 10.44.0.254. -/
def InPool (address : UInt32) : Prop := 0x0a2c0002 ≤ address ∧ address ≤ 0x0a2c00fe

instance (address : UInt32) : Decidable (InPool address) := inferInstanceAs (Decidable (_ ∧ _))

/-- A candidate gives an address of the pool, from which the scan reads the candidate back. -/
theorem subnet_or_candidate :
    ∀ n ∈ candidates, InPool (subnet ||| n) ∧ (subnet ||| n) &&& 0xffffff00 = subnet ∧
      (subnet ||| n) &&& 0xff = n := by
  have hall : candidates.all (fun n => decide (InPool (subnet ||| n) ∧
      (subnet ||| n) &&& 0xffffff00 = subnet ∧ (subnet ||| n) &&& 0xff = n)) = true := by
    decide +kernel
  exact fun n hn => of_decide_eq_true (List.all_eq_true.mp hall n hn)

/-- An address is its network and its host part. -/
theorem network_or_host (a : UInt32) : (a &&& 0xffffff00) ||| (a &&& 0xff) = a := by
  apply UInt32.toBitVec_inj.mp
  simp only [UInt32.toBitVec_or, UInt32.toBitVec_and]
  rw [← BitVec.and_or_distrib_left]
  exact BitVec.and_allOnes

private theorem subnet_or_ofNat : ∀ index < 253,
    subnet ||| UInt32.ofNat (2 + index) = UInt32.ofNat (0x0a2c0002 + index) := by
  decide +kernel

/-- The candidates are tried in the order of their addresses. -/
theorem candidates_sorted :
    candidates.Pairwise fun m n => subnet ||| m < subnet ||| n := by
  rw [candidates, List.pairwise_map]
  refine List.pairwise_lt_range.imp_of_mem fun {i j} hi hj hij => ?_
  have hi : i < 253 := List.mem_range.mp hi
  have hj : j < 253 := List.mem_range.mp hj
  rw [subnet_or_ofNat i hi, subnet_or_ofNat j hj, UInt32.lt_iff_toNat_lt,
    UInt32.toNat_ofNat_of_lt' (by simp [UInt32.size]; omega),
    UInt32.toNat_ofNat_of_lt' (by simp [UInt32.size]; omega)]
  omega

/-- Every address of the pool has its candidate. -/
theorem InPool.candidate {a : UInt32} (h : InPool a) : ∃ n ∈ candidates, a = subnet ||| n := by
  have hlow : 0x0a2c0002 ≤ a.toNat := h.1
  have hhigh : a.toNat ≤ 0x0a2c00fe := h.2
  have hindex : a.toNat - 0x0a2c0002 < 253 := by omega
  refine ⟨_, List.mem_map.mpr ⟨_, List.mem_range.mpr hindex, rfl⟩, ?_⟩
  rw [subnet_or_ofNat _ hindex, Nat.add_sub_cancel' hlow, UInt32.ofNat_toNat]

end MiniContainer
