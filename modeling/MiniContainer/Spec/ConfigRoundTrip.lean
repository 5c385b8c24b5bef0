import MiniContainer.ForStd.List
import MiniContainer.Native.ConfigJson

/-!
# Stored configurations read back

`loadDocument` is a left inverse of `configJson` on every configuration whose
mounts name their source where one is needed. The members are looked up one by
one; the five lists are read back element by element.
-/

namespace MiniContainer

open CString (Text)
open JsonC (Value toU8 toU16 toU32)

theorem untilNul_eq_self_iff {s : Text} : untilNul s = s ↔ '\x00' ∉ s := by
  rw [untilNul, List.takeWhile_eq_self_iff]
  constructor
  · intro h hmem
    simpa using h _ hmem
  · intro h c hc
    simp only [bne_iff_ne, ne_eq]
    exact fun hnul => h (hnul ▸ hc)

/-! ## Elements of the lists -/

theorem mapM_getString_str (xs : List Text) : (xs.map Value.str).mapM Value.getString = some xs :=
  List.mapM_map_of_forall fun _ _ => rfl

/-- A published entry reads back: each member fits the type it is cast to. -/
theorem loadPublish_toJson (p : Publish) : loadPublish p.toJson = some p := by
  have h₁ := p.hostIpv4.toNat_lt
  have h₂ := p.hostPort.toNat_lt
  have h₃ := p.containerPort.toNat_lt
  have h₄ := p.protocol.toNat_lt
  have hip : (Value.int p.hostIpv4.toNat).getInt64 = p.hostIpv4.toNat :=
    Value.getInt64_int (by omega) (by omega)
  have hhp : (Value.int p.hostPort.toNat).getInt = p.hostPort.toNat :=
    Value.getInt_int (by omega) (by omega)
  have hcp : (Value.int p.containerPort.toNat).getInt = p.containerPort.toNat :=
    Value.getInt_int (by omega) (by omega)
  have hpr : (Value.int p.protocol.toNat).getInt = p.protocol.toNat :=
    Value.getInt_int (by omega) (by omega)
  simp [loadPublish, Publish.toJson, List.lookup_cons, hip, hhp, hcp, hpr]

/-- What a mount must satisfy to be stored: a type of the enumeration, and a source
    when it is a bind mount. -/
def Mount.Storable (m : Mount) : Prop :=
  (m.type = .bind ∧ m.source ≠ none) ∨ m.type = .tmpfs

/-- A mount reads back. -/
theorem loadMount_toJson {m : Mount} (h : m.Storable) : loadMount m.toJson = some m := by
  obtain ⟨type, source, target, size, readonly⟩ := m
  rcases h with ⟨rfl, hs⟩ | rfl
  · have htype : (Value.int 1).getInt = 1 := by decide
    cases source with
    | none => exact absurd rfl hs
    | some s =>
      simp [loadMount, Mount.toJson, MountType.toInt, MountType.ofInt, copyString, List.lookup_cons,
        List.lookup_nil, Value.lookup_optional_ne, htype]
  · have htype : (Value.int 2).getInt = 2 := by decide
    simp [loadMount, Mount.toJson, MountType.toInt, MountType.ofInt, copyString, List.lookup_cons,
      List.lookup_nil, Value.lookup_optional_ne, htype]
    cases source <;> rfl

/-! ## Members of the document -/

section Members

variable (stamp : Stamp) (config : RunConfig) (image : Text)

/-- Members behind the optional ones are found as if those were not there. -/
theorem getEx_configJson (key : String) {value : Value} (hn : (key == "name") = false)
    (hd : (key == "image_digest") = false)
    (h : (("schema_version", .int 1) :: ("id", .str config.id) :: ("image", .str image) ::
      configMembers stamp config).lookup key = some value) :
    (configJson stamp config image).getEx key = some value := by
  rw [← h]
  simp only [configJson, Value.getEx_obj, List.append_assoc, List.cons_append, List.nil_append,
    List.lookup_cons, Value.lookup_optional_ne hn, Value.lookup_optional_ne hd]

/-- The name is stored when the configuration has one. -/
theorem getEx_name_configJson :
    (configJson stamp config image).getEx "name" = config.name.map .str := by
  simp only [configJson, Value.getEx_obj, List.append_assoc, List.cons_append, List.nil_append,
    List.lookup_cons, List.lookup_nil, String.reduceBEq, Value.lookup_optional_self,
    Value.lookup_optional_ne, configMembers, Option.or_none]

/-- The lists of a stored configuration read back. -/
theorem loadArrays_configJson (hm : ∀ m ∈ config.mounts, m.Storable) (hc : config.command ≠ []) :
    loadArrays (configJson stamp config image) =
      some ⟨config.environment, config.command, config.publishes, config.mounts,
        config.seccompDenies⟩ := by
  have hp : (config.publishes.map Publish.toJson).mapM loadPublish = some config.publishes :=
    List.mapM_map_of_forall fun p _ => loadPublish_toJson p
  have hmounts : (config.mounts.map Mount.toJson).mapM loadMount = some config.mounts :=
    List.mapM_map_of_forall fun m hmem => loadMount_toJson (hm m hmem)
  have member := getEx_configJson stamp config image
  simp only [loadArrays, loadMountsAndDenies, getArray, member "environment" rfl rfl rfl,
    member "command" rfl rfl rfl, member "publishes" rfl rfl rfl, member "mounts" rfl rfl rfl,
    member "seccomp_denies" rfl rfl rfl, Option.bind_some, Option.bind_eq_bind, Option.pure_def,
    Value.getArray?_arr, mapM_getString_str, hp, hmounts]
  simp [hc]

/-- The members of a configuration that `config.json` keeps; the two others describe one
    launch and are reset. -/
def RunConfig.persisted (config : RunConfig) : RunConfig :=
  { config with detach := false, readyFd := -1 }

/-- A stored document reads back as the configuration it was written for. -/
theorem loadDocument_stored (hm : ∀ m ∈ config.mounts, m.Storable) (hc : config.command ≠ []) :
    loadDocument (configJson stamp config image) =
      some (config.persisted, CString.snprintf pathMax image) := by
  have huser : (Value.int config.user.toNat).getInt64 = config.user.toNat := by
    have := config.user.toNat_lt
    exact Value.getInt64_int (by omega) (by omega)
  have hgroup : (Value.int config.group.toNat).getInt64 = config.group.toNat := by
    have := config.group.toNat_lt
    exact Value.getInt64_int (by omega) (by omega)
  have hip : (Value.int config.ipv4Host.toNat).getInt64 = config.ipv4Host.toNat := by
    have := config.ipv4Host.toNat_lt
    exact Value.getInt64_int (by omega) (by omega)
  have hname : (config.name.map Value.str).bind Value.getStr? = config.name := by
    cases config.name <;> rfl
  have hmode : (some (if config.networkBridge then "bridge".toList else "none".toList) ==
      some "bridge".toList) = config.networkBridge := by
    cases config.networkBridge <;> decide
  have member := getEx_configJson stamp config image
  simp only [loadDocument, loadU64, loadArrays_configJson stamp config image hm hc,
    copyString, getEx_name_configJson, hname, member "image" rfl rfl rfl, member "user" rfl rfl rfl,
    member "group" rfl rfl rfl, member "network_mode" rfl rfl rfl,
    member "ipv4_host" rfl rfl rfl, member "resources" rfl rfl rfl, member "id" rfl rfl rfl,
    member "rootfs" rfl rfl rfl, member "hostname" rfl rfl rfl, member "workdir" rfl rfl rfl,
    member "capability_mask" rfl rfl rfl, member "readonly_root" rfl rfl rfl,
    Option.bind_some, Option.bind_eq_bind, Option.pure_def]
  simp only [Option.bind_some, Option.map_some, Option.getD_some, Value.getEx_obj, List.lookup_cons,
    String.reduceBEq, Value.getStr?_str, Value.getString_str, Value.getUint64_int,
    Value.getBoolean_bool, UInt64.ofNat_toNat, huser, hgroup, hip, hmode, JsonC.toU32_toNat]
  rfl

/-- The image reads back too when it fits its buffer. -/
theorem loadDocument_configJson (hm : ∀ m ∈ config.mounts, m.Storable) (hc : config.command ≠ [])
    (hi : image.length < pathMax) :
    loadDocument (configJson stamp config image) = some (config.persisted, image) := by
  rw [loadDocument_stored stamp config image hm hc, CString.snprintf_of_fits hi]

end Members

end MiniContainer
