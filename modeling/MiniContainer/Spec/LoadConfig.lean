import Mathlib.Data.List.Forall2
import MiniContainer.Spec.ConfigRoundTrip

/-!
# Fields of loaded configurations

What `mc_state_load_config` makes of a document that something else may have written. The
accessors of json-c convert values of other types, so a field is reproduced only if its
value has the type of the field; and the loader returns early where a document has no
`mounts`, before it reads `seccomp_denies`.
-/

namespace MiniContainer

open CString (Text)
open JsonC (Value toU8 toU16 toU32)

/-! ## Values of a type -/

/-- A JSON string that is a C string. -/
def IsText (v : Value) : Prop := ∃ s, v = .str s ∧ '\x00' ∉ s

/-- A JSON integer that fits into this many bits. -/
def IsUint (w : Nat) (v : Value) : Prop := ∃ n : Nat, v = .int n ∧ n < 2 ^ w

/-- A JSON integer of the range of `int`. -/
def IsInt (v : Value) : Prop := ∃ i, v = .int i ∧ -2 ^ 31 ≤ i ∧ i < 2 ^ 31

def IsBool (v : Value) : Prop := ∃ b, v = .bool b

/-- An array of values of a type. -/
def IsList (P : Value → Prop) (v : Value) : Prop := ∃ items, v = .arr items ∧ ∀ x ∈ items, P x

/-- The member is of the type, if it is there. -/
def Typed (P : Value → Prop) (root : Value) (key : String) : Prop :=
  ∀ v, root.getEx key = some v → P v

/-- A published port whose members have the right types. -/
structure IsPublish (published : Value) : Prop where
  hostIpv4 : Typed (IsUint 32) published "host_ipv4"
  hostPort : Typed (IsUint 16) published "host_port"
  containerPort : Typed (IsUint 16) published "container_port"
  protocol : Typed (IsUint 8) published "protocol"

/-- A mount whose members have the right types. -/
structure IsMount (mounted : Value) : Prop where
  type : Typed IsInt mounted "type"
  source : Typed IsText mounted "source"
  target : Typed IsText mounted "target"
  size : Typed (IsUint 64) mounted "size"
  readonly : Typed IsBool mounted "readonly"

/-- The fields of the document have the types that the runtime writes. -/
structure WellTyped (root : Value) : Prop where
  environment : Typed (IsList IsText) root "environment"
  command : Typed (IsList IsText) root "command"
  publishes : Typed (IsList IsPublish) root "publishes"
  mounts : Typed (IsList IsMount) root "mounts"
  seccompDenies : Typed (IsList IsText) root "seccomp_denies"
  capabilityMask : Typed (IsUint 64) root "capability_mask"
  readonlyRoot : Typed IsBool root "readonly_root"
  limits : ∀ resources, root.getEx "resources" = some resources →
    ∀ key ∈ ["memory_max", "swap_max", "cpu_quota", "pids_max"], Typed (IsUint 64) resources key

/-- A document without mounts denies no system calls. -/
def DeniesRead (root : Value) : Prop :=
  root.getEx "mounts" = none → Typed (· = .arr []) root "seccomp_denies"

/-! ## Reproduction -/

/-- The member is this value, if it is there. -/
abbrev Holds (root : Value) (key : String) (value : Value) : Prop := Typed (· = value) root key

/-- The member is a list of these elements, in this order, if it is there. -/
def HoldsList {α : Type} (R : Value → α → Prop) (root : Value) (key : String) (xs : List α) :
    Prop :=
  Typed (fun v => ∃ items, v = .arr items ∧ List.Forall₂ R items xs) root key

/-- The stored entry is this published port. -/
structure PublishedAs (published : Value) (p : Publish) : Prop where
  hostIpv4 : published.getEx "host_ipv4" = some (.int p.hostIpv4.toNat)
  hostPort : published.getEx "host_port" = some (.int p.hostPort.toNat)
  containerPort : published.getEx "container_port" = some (.int p.containerPort.toNat)
  protocol : published.getEx "protocol" = some (.int p.protocol.toNat)

/-- The stored entry is this mount. -/
structure MountedAs (mounted : Value) (m : Mount) : Prop where
  type : mounted.getEx "type" = some (.int m.type.toInt)
  source : mounted.getEx "source" = m.source.map .str
  target : mounted.getEx "target" = some (.str m.target)
  size : mounted.getEx "size" = some (.int m.size.toNat)
  readonly : mounted.getEx "readonly" = some (.bool m.readonly)

/-- Every field of the document is found in the configuration, with all its elements in
    order. -/
structure Reproduced (root : Value) (config : RunConfig) : Prop where
  environment : HoldsList (· = .str ·) root "environment" config.environment
  command : HoldsList (· = .str ·) root "command" config.command
  publishes : HoldsList PublishedAs root "publishes" config.publishes
  mounts : HoldsList MountedAs root "mounts" config.mounts
  seccompDenies : HoldsList (· = .str ·) root "seccomp_denies" config.seccompDenies
  capabilityMask : Holds root "capability_mask" (.int config.capabilityMask.toNat)
  readonlyRoot : Holds root "readonly_root" (.bool config.readonlyRoot)
  limits : ∀ resources, root.getEx "resources" = some resources →
    Holds resources "memory_max" (.int config.memoryMax.toNat) ∧
    Holds resources "swap_max" (.int config.swapMax.toNat) ∧
    Holds resources "cpu_quota" (.int config.cpuQuota.toNat) ∧
    Holds resources "pids_max" (.int config.pidsMax.toNat)

/-! ## Conversions

An accessor returns the value itself exactly for the values of its type. -/

theorem eq_str_untilNul_iff {v : Value} {s : Text} (h : v.getString = some s) :
    v = .str (untilNul s) ↔ IsText v := by
  constructor
  · intro hv
    have hself : untilNul s = s := by simpa [hv] using h
    exact ⟨s, by rw [hv, hself], untilNul_eq_self_iff.mp hself⟩
  · rintro ⟨s', rfl, hnul⟩
    obtain rfl : s' = s := by simpa using h
    rw [untilNul_eq_self_iff.mpr hnul]

/-- What is read of a value is the value, for the numbers of the width. -/
theorem eq_int_read_iff {w : Nat} (read : Value → Nat) (hlt : ∀ v, read v < 2 ^ w)
    (hread : ∀ n : Nat, n < 2 ^ w → read (.int n) = n) {v : Value} :
    v = .int (read v) ↔ IsUint w v := by
  constructor
  · intro h
    exact ⟨_, h, hlt v⟩
  · rintro ⟨n, rfl, hn⟩
    rw [hread n hn]

theorem eq_int_uint64_iff {v : Value} :
    v = .int (UInt64.ofNat v.getUint64).toNat ↔ IsUint 64 v :=
  eq_int_read_iff (fun v => (UInt64.ofNat v.getUint64).toNat) (fun _ => UInt64.toNat_lt _)
    fun n hn => by rw [Value.getUint64_int, UInt64.toNat_ofNat', Nat.mod_eq_of_lt hn]

theorem eq_int_u32_iff {v : Value} : v = .int (toU32 v.getInt64).toNat ↔ IsUint 32 v :=
  eq_int_read_iff (fun v => (toU32 v.getInt64).toNat) (fun _ => UInt32.toNat_lt _) fun n hn => by
    rw [Value.getInt64_int (by omega) (by omega), toU32, UInt32.toNat_ofNat']
    omega

theorem eq_int_u16_iff {v : Value} : v = .int (toU16 v.getInt).toNat ↔ IsUint 16 v :=
  eq_int_read_iff (fun v => (toU16 v.getInt).toNat) (fun _ => UInt16.toNat_lt _) fun n hn => by
    rw [Value.getInt_int (by omega) (by omega), toU16, UInt16.toNat_ofNat']
    omega

theorem eq_int_u8_iff {v : Value} : v = .int (toU8 v.getInt).toNat ↔ IsUint 8 v :=
  eq_int_read_iff (fun v => (toU8 v.getInt).toNat) (fun _ => UInt8.toNat_lt _) fun n hn => by
    rw [Value.getInt_int (by omega) (by omega), toU8, UInt8.toNat_ofNat']
    omega

theorem eq_bool_boolean_iff {v : Value} : v = .bool v.getBoolean ↔ IsBool v := by
  constructor
  · exact fun h => ⟨_, h⟩
  · rintro ⟨b, rfl⟩
    rfl

@[simp] theorem MountType.toInt_ofInt (raw : Int) : (MountType.ofInt raw).toInt = raw := by
  unfold ofInt
  split
  · rename_i h
    exact h.symm
  · split
    · rename_i h
      exact h.symm
    · rfl

theorem eq_int_mountType_iff {v : Value} :
    v = .int (MountType.ofInt v.getInt).toInt ↔ IsInt v := by
  rw [MountType.toInt_ofInt]
  constructor
  · intro h
    refine ⟨_, h, ?_, ?_⟩
    · simp only [Value.getInt]
      omega
    · simp only [Value.getInt]
      omega
  · rintro ⟨i, rfl, hlow, hhigh⟩
    rw [Value.getInt_int hlow hhigh]

/-! ## Members and lists -/

/-- A member that is there is of a type if and only if its value is. -/
theorem typed_iff {P : Value → Prop} {root v : Value} {key : String}
    (h : root.getEx key = some v) : Typed P root key ↔ P v := by
  simp [Typed, h]

theorem typed_of_none {P : Value → Prop} {root : Value} {key : String}
    (h : root.getEx key = none) : Typed P root key := by
  simp [Typed, h]

/-- A member is converted to itself exactly if it is of the type. -/
theorem getEx_eq_some_iff {P : Value → Prop} {root v value : Value} {key : String}
    (h : root.getEx key = some v) (hv : v = value ↔ P v) :
    root.getEx key = some value ↔ Typed P root key := by
  rw [h, Option.some.injEq, hv, typed_iff h]

/-- A list that is loaded element by element is reproduced if and only if every element is. -/
theorem forall₂_iff_of_mapM {α : Type} {load : Value → Option α} {copy : α → α}
    {R : Value → α → Prop} {P : Value → Prop} (h : ∀ v x, load v = some x → (R v (copy x) ↔ P v))
    {items : List Value} {xs : List α} (hload : items.mapM load = some xs) :
    List.Forall₂ R items (xs.map copy) ↔ ∀ v ∈ items, P v := by
  induction items generalizing xs with
  | nil =>
    obtain rfl : xs = [] := by simpa using hload.symm
    simp
  | cons v vs ih =>
    simp only [List.mapM_cons, Option.bind_eq_bind, Option.bind_eq_some_iff] at hload
    obtain ⟨x, hx, xs', hxs, hout⟩ := hload
    obtain rfl : x :: xs' = xs := by simpa using hout
    rw [List.map_cons, List.forall₂_cons, List.forall_mem_cons, h v x hx, ih hxs]

theorem getArray?_eq_some_iff {array : Value} {items : List Value} :
    array.getArray? = some items ↔ array = .arr items := by
  cases array <;> simp [Value.getArray?]

theorem holdsList_iff {α : Type} {load : Value → Option α} {copy : α → α}
    {R : Value → α → Prop} {P : Value → Prop} (h : ∀ v x, load v = some x → (R v (copy x) ↔ P v))
    {root : Value} {key : String} {items : List Value} (hkey : getArray root key = some items)
    {xs : List α} (hload : items.mapM load = some xs) :
    HoldsList R root key (xs.map copy) ↔ Typed (IsList P) root key := by
  obtain ⟨array, harray, hitems⟩ := Option.bind_eq_some_iff.mp hkey
  obtain rfl := getArray?_eq_some_iff.mp hitems
  rw [HoldsList, typed_iff harray, typed_iff harray, IsList]
  simp only [Value.arr.injEq, exists_eq_left']
  exact forall₂_iff_of_mapM h hload

/-! ## Entries -/

/-- A published port is kept if it is well typed, -/
theorem publishedAs_iff {published : Value} {p : Publish} (h : loadPublish published = some p) :
    PublishedAs published p ↔ IsPublish published := by
  simp only [loadPublish, Option.bind_eq_bind, Option.bind_eq_some_iff] at h
  obtain ⟨a, ha, b, hb, c, hc, d, hd, hp⟩ := h
  cases hp
  constructor
  · rintro ⟨h₁, h₂, h₃, h₄⟩
    exact ⟨(getEx_eq_some_iff ha eq_int_u32_iff).mp h₁, (getEx_eq_some_iff hb eq_int_u16_iff).mp h₂,
      (getEx_eq_some_iff hc eq_int_u16_iff).mp h₃, (getEx_eq_some_iff hd eq_int_u8_iff).mp h₄⟩
  · rintro ⟨h₁, h₂, h₃, h₄⟩
    exact ⟨(getEx_eq_some_iff ha eq_int_u32_iff).mpr h₁,
      (getEx_eq_some_iff hb eq_int_u16_iff).mpr h₂, (getEx_eq_some_iff hc eq_int_u16_iff).mpr h₃,
      (getEx_eq_some_iff hd eq_int_u8_iff).mpr h₄⟩

theorem getStr?_eq_some_iff {v : Value} {s : Text} : v.getStr? = some s ↔ v = .str s := by
  cases v <;> simp [Value.getStr?]

/-- An optional string is reproduced exactly if it is a string. -/
theorem getEx_eq_copyString_iff {root : Value} {key : String} :
    root.getEx key = ((copyString root key).map untilNul).map .str ↔ Typed IsText root key := by
  unfold copyString
  cases h : root.getEx key with
  | none => simp [typed_of_none h]
  | some v =>
    rw [typed_iff h, Option.bind_some]
    cases hs : v.getStr? with
    | none =>
      constructor
      · intro heq
        cases heq
      · rintro ⟨s, rfl, -⟩
        cases hs
    | some s =>
      obtain rfl := getStr?_eq_some_iff.mp hs
      rw [Option.map_some, Option.map_some, Option.some.injEq]
      exact eq_str_untilNul_iff rfl

/-- and so is a mount. -/
theorem mountedAs_iff {mounted : Value} {m : Mount} (h : loadMount mounted = some m) :
    MountedAs mounted m.strdup ↔ IsMount mounted := by
  simp only [loadMount, Option.bind_eq_bind, Option.bind_eq_some_iff] at h
  obtain ⟨a, ha, b, hb, c, hc, target, htarget, -, -, hm⟩ := h
  cases hm
  -- a target that was found is a string
  have htext : mounted.getEx "target" = some (.str (untilNul target)) ↔
      Typed IsText mounted "target" := by
    rw [← getEx_eq_copyString_iff, htarget]
    rfl
  constructor
  · rintro ⟨h₁, h₂, h₃, h₄, h₅⟩
    exact ⟨(getEx_eq_some_iff ha eq_int_mountType_iff).mp h₁, getEx_eq_copyString_iff.mp h₂,
      htext.mp h₃, (getEx_eq_some_iff hb eq_int_uint64_iff).mp h₄,
      (getEx_eq_some_iff hc eq_bool_boolean_iff).mp h₅⟩
  · rintro ⟨h₁, h₂, h₃, h₄, h₅⟩
    exact ⟨(getEx_eq_some_iff ha eq_int_mountType_iff).mpr h₁, getEx_eq_copyString_iff.mpr h₂,
      htext.mpr h₃, (getEx_eq_some_iff hb eq_int_uint64_iff).mpr h₄,
      (getEx_eq_some_iff hc eq_bool_boolean_iff).mpr h₅⟩

/-! ## Arrays -/

/-- A list of strings. -/
theorem holdsList_text_iff {root : Value} {key : String} {items : List Value} {xs : List Text}
    (hkey : getArray root key = some items) (hload : items.mapM Value.getString = some xs) :
    HoldsList (· = .str ·) root key (xs.map untilNul) ↔ Typed (IsList IsText) root key := by
  refine holdsList_iff (fun v s h => ?_) hkey hload
  exact eq_str_untilNul_iff h

/-- The lists behind the early return: the mounts are reproduced if they are well typed, the
    denied system calls if in addition they are read. -/
theorem mountsAndDenies_iff {root : Value} {mounts : List Mount} {denies : List Text}
    (h : loadMountsAndDenies root = some (mounts, denies)) :
    HoldsList MountedAs root "mounts" (mounts.map Mount.strdup) ∧
        HoldsList (· = .str ·) root "seccomp_denies" (denies.map untilNul) ↔
      (Typed (IsList IsMount) root "mounts" ∧ Typed (IsList IsText) root "seccomp_denies") ∧
        DeniesRead root := by
  unfold loadMountsAndDenies at h
  cases hmounts : root.getEx "mounts" with
  | none =>
    -- nothing behind the mounts is read
    rw [hmounts] at h
    obtain ⟨rfl, rfl⟩ : mounts = [] ∧ denies = [] := by simpa [eq_comm] using h
    have hempty : HoldsList (fun v s => v = Value.str s) root "seccomp_denies" [] ↔
        Typed (· = .arr []) root "seccomp_denies" := by
      simp [HoldsList]
    have hread : DeniesRead root ↔ Typed (· = .arr []) root "seccomp_denies" := by
      simp [DeniesRead, hmounts]
    rw [List.map_nil, List.map_nil, hempty, hread]
    constructor
    · rintro ⟨-, hdenies⟩
      refine ⟨⟨typed_of_none hmounts, fun v hv => ⟨[], hdenies v hv, ?_⟩⟩, hdenies⟩
      intro x hx
      cases hx
    · rintro ⟨-, hdenies⟩
      exact ⟨typed_of_none hmounts, hdenies⟩
  | some array =>
    rw [hmounts] at h
    have hread : DeniesRead root := by
      intro hnone
      rw [hmounts] at hnone
      cases hnone
    simp only [Option.bind_eq_bind, Option.bind_eq_some_iff] at h
    obtain ⟨items, hitems, ms, hms, h⟩ := h
    have harray : getArray root "mounts" = some items := by rw [getArray, hmounts]; exact hitems
    have hmountlist := holdsList_iff (fun _ _ h => mountedAs_iff h) harray hms
    cases hdenies : root.getEx "seccomp_denies" with
    | none =>
      rw [hdenies] at h
      obtain ⟨rfl, rfl⟩ : ms = mounts ∧ [] = denies := by simpa using h
      rw [hmountlist]
      simp [typed_of_none hdenies, HoldsList, hread]
    | some value =>
      rw [hdenies] at h
      simp only [Option.bind_eq_some_iff] at h
      obtain ⟨names, hnames, ds, hds, hout⟩ := h
      obtain ⟨rfl, rfl⟩ : ms = mounts ∧ ds = denies := by simpa using hout
      have harray' : getArray root "seccomp_denies" = some names := by
        rw [getArray, hdenies]
        exact hnames
      rw [hmountlist, holdsList_text_iff harray' hds]
      simp [hread]

theorem loadU64_holds_iff {resources : Value} {key : String} {limit : UInt64}
    (h : loadU64 resources key = some limit) :
    Holds resources key (.int limit.toNat) ↔ Typed (IsUint 64) resources key := by
  obtain ⟨v, hv, rfl⟩ := Option.map_eq_some_iff.mp h
  rw [Holds, typed_iff hv, typed_iff hv]
  exact eq_int_uint64_iff

/-! ## Documents -/

/-- What a configuration that was loaded takes from the document, apart from the members that
    have no lists or limits. -/
structure LoadedFrom (root : Value) (config : RunConfig) : Prop where
  arrays : ∃ arrays, loadArrays root = some arrays ∧
    config.environment = arrays.environment.map untilNul ∧
    config.command = arrays.command.map untilNul ∧ config.publishes = arrays.publishes ∧
    config.mounts = arrays.mounts.map Mount.strdup ∧
    config.seccompDenies = arrays.seccompDenies.map untilNul
  capabilityMask : config.capabilityMask =
    ((root.getEx "capability_mask").map (UInt64.ofNat ·.getUint64)).getD 0
  readonlyRoot : config.readonlyRoot =
    ((root.getEx "readonly_root").map Value.getBoolean).getD false
  limits : ∃ resources, root.getEx "resources" = some resources ∧
    loadU64 resources "memory_max" = some config.memoryMax ∧
    loadU64 resources "swap_max" = some config.swapMax ∧
    loadU64 resources "cpu_quota" = some config.cpuQuota ∧
    loadU64 resources "pids_max" = some config.pidsMax

/-- Where the fields of a loaded configuration come from. -/
theorem loadStored_eq_some {root : Value} {config : RunConfig} {image : Text}
    (h : loadStored root = some (config, image)) : LoadedFrom root config := by
  simp only [loadStored, Option.bind_eq_bind, Option.bind_eq_some_iff, Prod.exists] at h
  obtain ⟨loaded, name, hload, -, -, mode, -, hout⟩ := h
  obtain ⟨rfl, -⟩ := Prod.mk.inj (Option.some.inj hout)
  -- one bind at a time: the record at the end is too large to be rewritten at every step
  obtain ⟨_, -, hload⟩ := Option.bind_eq_some_iff.mp hload
  obtain ⟨_, -, hload⟩ := Option.bind_eq_some_iff.mp hload
  obtain ⟨_, -, hload⟩ := Option.bind_eq_some_iff.mp hload
  obtain ⟨_, -, hload⟩ := Option.bind_eq_some_iff.mp hload
  obtain ⟨_, -, hload⟩ := Option.bind_eq_some_iff.mp hload
  obtain ⟨resources, hresources, hload⟩ := Option.bind_eq_some_iff.mp hload
  obtain ⟨memory, hmemory, hload⟩ := Option.bind_eq_some_iff.mp hload
  obtain ⟨swap, hswap, hload⟩ := Option.bind_eq_some_iff.mp hload
  obtain ⟨cpu, hcpu, hload⟩ := Option.bind_eq_some_iff.mp hload
  obtain ⟨pids, hpids, hload⟩ := Option.bind_eq_some_iff.mp hload
  obtain ⟨_, -, hload⟩ := Option.bind_eq_some_iff.mp hload
  obtain ⟨_, -, hload⟩ := Option.bind_eq_some_iff.mp hload
  obtain ⟨_, -, hload⟩ := Option.bind_eq_some_iff.mp hload
  obtain ⟨_, -, hload⟩ := Option.bind_eq_some_iff.mp hload
  obtain ⟨arrays, harrays, hload⟩ := Option.bind_eq_some_iff.mp hload
  obtain ⟨rfl, -⟩ := Prod.mk.inj (Option.some.inj hload)
  exact ⟨⟨arrays, harrays, rfl, rfl, rfl, rfl, rfl⟩, rfl, rfl,
    ⟨resources, hresources, hmemory, hswap, hcpu, hpids⟩⟩

/-- A field with a default is reproduced exactly if it is well typed. -/
theorem holds_getD_iff {α : Type} {P : Value → Prop} {root : Value} {key : String}
    {read : Value → α} {default : α} (write : α → Value) (h : ∀ v, v = write (read v) ↔ P v) :
    Holds root key (write (((root.getEx key).map read).getD default)) ↔ Typed P root key := by
  cases hkey : root.getEx key with
  | none => simp [Holds, typed_of_none hkey]
  | some v =>
    rw [Holds, typed_iff hkey, typed_iff hkey]
    exact h v

/-- For every document that is accepted, all fields are reproduced if and only if they are
    well typed and a document without mounts denies no system calls. -/
theorem loadStored_reproduced_iff {root : Value} {config : RunConfig} {image : Text}
    (h : loadStored root = some (config, image)) :
    Reproduced root config ↔ WellTyped root ∧ DeniesRead root := by
  obtain ⟨⟨arrays, harrays, henvironment, hcommand, hpublishes, hmounts, hdenies⟩, hmask,
    hreadonly, ⟨resources, hresources, hmemory, hswap, hcpu, hpids⟩⟩ := loadStored_eq_some h
  simp only [loadArrays, Option.bind_eq_bind, Option.bind_eq_some_iff, Prod.exists] at harrays
  obtain ⟨items₁, hitems₁, xs₁, hxs₁, items₂, hitems₂, xs₂, hxs₂, -, -, items₃, hitems₃, xs₃, hxs₃,
    mounts, denies, htail, hout⟩ := harrays
  cases hout
  have environment : HoldsList (· = .str ·) root "environment" config.environment ↔
      Typed (IsList IsText) root "environment" :=
    henvironment ▸ holdsList_text_iff hitems₁ hxs₁
  have command : HoldsList (· = .str ·) root "command" config.command ↔
      Typed (IsList IsText) root "command" :=
    hcommand ▸ holdsList_text_iff hitems₂ hxs₂
  have publishes : HoldsList PublishedAs root "publishes" config.publishes ↔
      Typed (IsList IsPublish) root "publishes" := by
    rw [hpublishes, ← List.map_id xs₃]
    exact holdsList_iff (fun _ _ h => publishedAs_iff h) hitems₃ hxs₃
  have tail := mountsAndDenies_iff htail
  have mask : Holds root "capability_mask" (.int config.capabilityMask.toNat) ↔
      Typed (IsUint 64) root "capability_mask" := by
    rw [hmask]
    exact holds_getD_iff (fun n : UInt64 => .int n.toNat) fun v => eq_int_uint64_iff
  have readonly : Holds root "readonly_root" (.bool config.readonlyRoot) ↔
      Typed IsBool root "readonly_root" := by
    rw [hreadonly]
    exact holds_getD_iff .bool fun v => eq_bool_boolean_iff
  have limits : (Holds resources "memory_max" (.int config.memoryMax.toNat) ∧
      Holds resources "swap_max" (.int config.swapMax.toNat) ∧
      Holds resources "cpu_quota" (.int config.cpuQuota.toNat) ∧
      Holds resources "pids_max" (.int config.pidsMax.toNat)) ↔
      ∀ key ∈ ["memory_max", "swap_max", "cpu_quota", "pids_max"],
        Typed (IsUint 64) resources key := by
    rw [loadU64_holds_iff hmemory, loadU64_holds_iff hswap, loadU64_holds_iff hcpu,
      loadU64_holds_iff hpids]
    simp
  rw [← hmounts, ← hdenies] at tail
  constructor
  · intro hr
    obtain ⟨⟨hm, hd⟩, hread⟩ := tail.mp ⟨hr.mounts, hr.seccompDenies⟩
    refine ⟨⟨environment.mp hr.environment, command.mp hr.command, publishes.mp hr.publishes, hm,
      hd, mask.mp hr.capabilityMask, readonly.mp hr.readonlyRoot, ?_⟩, hread⟩
    intro resources' hresources'
    obtain rfl : resources = resources' := Option.some.inj (hresources.symm.trans hresources')
    exact limits.mp (hr.limits resources hresources)
  · rintro ⟨ht, hread⟩
    obtain ⟨hm, hd⟩ := tail.mpr ⟨⟨ht.mounts, ht.seccompDenies⟩, hread⟩
    refine ⟨environment.mpr ht.environment, command.mpr ht.command, publishes.mpr ht.publishes, hm,
      hd, mask.mpr ht.capabilityMask, readonly.mpr ht.readonlyRoot, ?_⟩
    intro resources' hresources'
    obtain rfl : resources = resources' := Option.some.inj (hresources.symm.trans hresources')
    exact limits.mpr (ht.limits resources hresources)

/-- A stored document with further members in front of the mandatory ones. -/
def storedWith (extra : List (String × Value)) : Value :=
  .obj (extra ++ [("id", .str "c".toList), ("image", .str "alpine".toList),
    ("rootfs", .str "/r".toList), ("hostname", .str "h".toList), ("workdir", .str "/".toList),
    ("user", .int 0), ("group", .int 0), ("network_mode", .str "none".toList),
    ("ipv4_host", .int 0), ("publishes", .arr []),
    ("resources", .obj [("memory_max", .int 1048576), ("swap_max", .int 0), ("cpu_quota", .int 0),
      ("pids_max", .int 16)]),
    ("environment", .arr []), ("command", .arr [.str "sh".toList])])

/-- A document that denies `mount` but has no list of mounts is accepted, and the container
    runs without the denial. -/
theorem loadStored_drops_denies :
    ∃ config image, loadStored (storedWith [("seccomp_denies", .arr [.str "mount".toList])]) =
        some (config, image) ∧ config.seccompDenies = [] ∧
      ¬ Reproduced (storedWith [("seccomp_denies", .arr [.str "mount".toList])]) config := by
  have haccepted : ((loadStored (storedWith
      [("seccomp_denies", .arr [.str "mount".toList])])).map (·.1.seccompDenies)) = some [] := by
    decide +kernel
  obtain ⟨⟨config, image⟩, hload, hdenies⟩ := Option.map_eq_some_iff.mp haccepted
  refine ⟨config, image, hload, hdenies, fun h => ?_⟩
  obtain ⟨items, hitems, hall⟩ := h.seccompDenies (.arr [.str "mount".toList]) rfl
  rw [hdenies] at hall
  cases hall
  cases hitems

/-- With an empty list of mounts the denial is kept. -/
theorem loadStored_reproduced_denies :
    ∃ config image, loadStored (storedWith [("mounts", .arr []),
        ("seccomp_denies", .arr [.str "mount".toList])]) = some (config, image) ∧
      Reproduced (storedWith [("mounts", .arr []),
        ("seccomp_denies", .arr [.str "mount".toList])]) config := by
  have haccepted : (loadStored (storedWith [("mounts", .arr []),
      ("seccomp_denies", .arr [.str "mount".toList])])).isSome = true := by
    decide +kernel
  obtain ⟨⟨config, image⟩, hload⟩ := Option.isSome_iff_exists.mp haccepted
  refine ⟨config, image, hload, (loadStored_reproduced_iff hload).mpr ⟨?_, ?_⟩⟩
  · constructor
    · exact (typed_iff rfl).mpr ⟨_, rfl, by simp⟩
    · exact (typed_iff rfl).mpr ⟨_, rfl, by simp [IsText]⟩
    · exact (typed_iff rfl).mpr ⟨_, rfl, by simp⟩
    · exact (typed_iff rfl).mpr ⟨_, rfl, by simp⟩
    · exact (typed_iff rfl).mpr ⟨_, rfl, by simp [IsText]⟩
    · exact typed_of_none rfl
    · exact typed_of_none rfl
    · intro resources hresources
      cases hresources
      simp only [List.forall_mem_cons, List.not_mem_nil, false_imp_iff, implies_true, and_true]
      exact ⟨(typed_iff rfl).mpr ⟨1048576, rfl, by decide⟩, (typed_iff rfl).mpr ⟨0, rfl, by decide⟩,
        (typed_iff rfl).mpr ⟨0, rfl, by decide⟩, (typed_iff rfl).mpr ⟨16, rfl, by decide⟩⟩
  · intro hnone
    cases hnone

end MiniContainer
