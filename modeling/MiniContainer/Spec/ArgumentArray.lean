import Mathlib.Data.List.Induction
import MiniContainer.Native.Launch
import MiniContainer.Spec.ShimArgs

/-!
# The argument array of the shim

`mc_launch_shim` allocates the array before it fills it, from the numbers of entries and one
constant. The stores turn out to go to the indices 0, 1, 2, ... in order, so the array holds the
argument vector with null pointers behind it, and the constant has room for one of them.
-/

namespace MiniContainer

open CString (Text)

/-! ## Stores in order -/

namespace Filling

/-- The values were stored at the indices 0, 1, 2, ... -/
def Holds (f : Filling) (values : List (Option Text)) : Prop :=
  f.stores = values.zipIdx.map fun v => (v.2, v.1)

/-- The next value goes behind the others. -/
def Follows (f : Filling) (values : List (Option Text)) : Prop :=
  f.Holds values ∧ f.position = values.length

variable {f : Filling} {values : List (Option Text)}

/-- Where the code sets `position` behind what it has stored. -/
theorem Holds.follows (h : f.Holds values) {position : Nat} (hposition : position = values.length) :
    ({ f with position } : Filling).Follows values := ⟨h, hposition⟩

theorem Holds.store (h : f.Holds values) {index : Nat} (hindex : index = values.length)
    (value : Option Text) : (f.store index value).Holds (values ++ [value]) := by
  unfold Holds Filling.store at *
  rw [h, List.zipIdx_append, List.map_append, hindex]
  simp

theorem Follows.push (h : f.Follows values) (value : Option Text) :
    (f.push value).Follows (values ++ [value]) := by
  refine ⟨h.1.store h.2 value, ?_⟩
  rw [List.length_append, ← h.2]
  rfl

theorem Follows.pushAll (h : f.Follows values) (more : List (Option Text)) :
    (f.pushAll more).Follows (values ++ more) := by
  induction more generalizing f values with
  | nil => simpa [Filling.pushAll] using h
  | cons value more ih => simpa [Filling.pushAll] using ih (h.push value)

theorem Follows.pushIf (h : f.Follows values) (condition : Bool) (value : Option Text) :
    (if condition then f.push value else f).Follows
      (values ++ if condition then [value] else []) := by
  cases condition with
  | true => exact h.push value
  | false => simpa using h

/-- A loop that pushes some values in each turn. -/
theorem Follows.loop {α : Type} (h : f.Follows values) (arguments : α → List (Option Text))
    (items : List α) :
    (items.foldl (fun f item => f.pushAll (arguments item)) f).Follows
      (values ++ items.flatMap arguments) := by
  induction items generalizing f values with
  | nil => simpa using h
  | cons item items ih => simpa using ih (h.pushAll (arguments item))

/-- A loop that stores one value in each turn, at its number behind an offset. -/
theorem Holds.loop {α : Type} (value : α → Option Text) (offset : Filling → Nat)
    (hoffset : ∀ f index value, offset (f.store index value) = offset f) (items : List α) {k : Nat}
    (h : f.Holds values) (hk : offset f + k = values.length) :
    ((items.zipIdx k).foldl (fun f item => f.store (offset f + item.2) (value item.1)) f).Holds
      (values ++ items.map value) := by
  induction items generalizing f values k with
  | nil => simpa using h
  | cons item items ih =>
    have hnext := ih (k := k + 1) (h.store hk (value item)) (by
      rw [hoffset, List.length_append, List.length_singleton]
      omega)
    simpa using hnext

/-- The loop over the command, which leaves `position` where it is. -/
theorem Follows.command (h : f.Follows values) (words : List Text) :
    (words.zipIdx.foldl (fun f word => f.store (f.position + word.2) (some word.1)) f).Holds
        (values ++ words.map some) ∧
      (words.zipIdx.foldl (fun f word => f.store (f.position + word.2) (some word.1)) f).position +
        words.length = (values ++ words.map some).length := by
  have hposition : ∀ (words : List (Text × Nat)) (f : Filling), (words.foldl
      (fun f word => f.store (f.position + word.2) (some word.1)) f).position = f.position := by
    intro words
    induction words with
    | nil => exact fun f => rfl
    | cons word words ih => exact fun f => ih _
  refine ⟨h.1.loop some Filling.position (fun _ _ _ => rfl) words (k := 0) h.2, ?_⟩
  rw [hposition, h.2, List.length_append, List.length_map]

/-- The loop over the environment, which stores a flag and an assignment in each turn. -/
theorem Holds.environment (assignments : List Text) {k : Nat} (h : f.Holds values)
    (hk : values.length = 11 + k * 2) :
    ((assignments.zipIdx k).foldl (fun f assignment =>
      (f.store (11 + assignment.2 * 2) (some "--env".toList)).store (12 + assignment.2 * 2)
        (some assignment.1)) f).Holds
      (values ++ assignments.flatMap fun assignment =>
        [some "--env".toList, some assignment]) := by
  induction assignments generalizing f values k with
  | nil => simpa using h
  | cons assignment assignments ih =>
    have hflag := h.store hk.symm (some "--env".toList)
    have hvalue : 12 + k * 2 = (values ++ [some "--env".toList]).length := by
      rw [List.length_append, List.length_singleton]
      omega
    have hpair := hflag.store hvalue (some assignment)
    have hnext := ih (k := k + 1) hpair
      (by simp only [List.length_append, List.length_singleton]; omega)
    simpa using hnext

/-! ## The array -/

/-- Storing values in order in front of null pointers. -/
theorem Holds.array_eq (h : f.Holds values) {slots : Nat} (hslots : values.length ≤ slots) :
    f.array slots = values ++ List.replicate (slots - values.length) none := by
  unfold Filling.array
  rw [h]
  clear h
  induction values using List.reverseRecOn with
  | nil => simp
  | append_singleton values value ih =>
    rw [List.length_append, List.length_singleton] at hslots
    rw [List.zipIdx_append, List.map_append, List.foldl_append, ih (by omega)]
    have hrest : List.replicate (slots - values.length) (none : Option Text) =
        none :: List.replicate (slots - (values.length + 1)) none := by
      rw [← List.replicate_succ]
      congr 1
      omega
    rw [hrest, List.length_append, List.length_singleton]
    simp

end Filling

/-- The stores up to the environment. -/
theorem fillArguments_start (path : Text) (config : RunConfig) :
    (config.environment.zipIdx.foldl (fun f assignment =>
      (f.store (11 + assignment.2 * 2) (some "--env".toList)).store (12 + assignment.2 * 2)
        (some assignment.1))
      ((some path :: identityArguments config).zipIdx.foldl (fun f v => f.store v.2 v.1)
        ({} : Filling))).Holds
      (some path :: identityArguments config ++
        config.environment.flatMap fun assignment => [some "--env".toList, some assignment]) := by
  have hempty : ({} : Filling).Holds [] := rfl
  have hidentity := hempty.loop id (fun _ => 0) (fun _ _ _ => rfl)
    (some path :: identityArguments config) (k := 0) rfl
  simp only [Nat.zero_add, id, List.nil_append] at hidentity
  exact hidentity.environment config.environment (k := 0) rfl

/-- Each argument is stored behind the ones before it, and `position` stays in front of the
    command. -/
theorem fillArguments_holds (path : Text) (config : RunConfig) (fd : Nat) :
    (fillArguments path config fd).Holds (some path :: argumentVector config fd) ∧
      (fillArguments path config fd).position + config.command.length =
        (some path :: argumentVector config fd).length := by
  have hlength : ((some path :: identityArguments config ++ config.environment.flatMap
      fun assignment => [some "--env".toList, some assignment])).length =
      11 + config.environment.length * 2 := by
    rw [List.length_append, List.length_flatMap]
    simp [identityArguments]
  have hstart := (fillArguments_start path config).follows hlength.symm
  have hlimits := hstart.pushAll (limitArguments config)
  have hpublishes := hlimits.loop publishArguments config.publishes
  have hcapabilities := hpublishes.loop (capabilityArguments config.capabilityMask) (List.range 64)
  have hreadonly := hcapabilities.pushIf config.readonlyRoot (some "--read-only".toList)
  have hmounts := hreadonly.loop mountArguments config.mounts
  have hdenies := hmounts.loop (fun name => [some "--seccomp-deny".toList, some name])
    config.seccompDenies
  have hdetach := hdenies.pushAll (detachArguments config fd)
  have hseparator := hdetach.push (some "--".toList)
  have hcommand := hseparator.command config.command
  refine Eq.subst (motive := fun values => (fillArguments path config fd).Holds values ∧
    (fillArguments path config fd).position + config.command.length = values.length) ?_ hcommand
  simp only [argumentVector, List.cons_append, List.append_assoc, List.nil_append]

/-! ## The number of slots -/

section Accepted

variable {host : Host} {config : RunConfig}

theorem length_flatMap_le {α β : Type} {l : List α} {f : α → List β} {n : Nat}
    (h : ∀ a ∈ l, (f a).length ≤ n) : (l.flatMap f).length ≤ l.length * n := by
  induction l with
  | nil => simp
  | cons a l ih =>
    obtain ⟨ha, hl⟩ := List.forall_mem_cons.mp h
    rw [List.flatMap_cons, List.length_append, List.length_cons, Nat.add_mul, Nat.one_mul]
    have := ih hl
    omega

/-- Each of the 41 known capabilities adds at most a flag and a name. -/
theorem capabilityArguments_length (ha : config.Accepted host) :
    ((List.range 64).flatMap (capabilityArguments config.capabilityMask)).length ≤ 82 := by
  have hunknown : ((List.range 23).map (41 + ·)).flatMap
      (capabilityArguments config.capabilityMask) = [] := by
    rw [List.flatMap_eq_nil_iff]
    intro i hi
    obtain ⟨j, -, rfl⟩ := List.mem_map.mp hi
    rw [capabilityArguments, if_neg]
    intro hbit
    have : 41 + j < 41 := ha.capabilities _ hbit
    omega
  rw [show 64 = 41 + 23 from rfl, List.range_add, List.flatMap_append, hunknown, List.append_nil]
  refine (length_flatMap_le (n := 2) fun i _ => ?_).trans (by simp)
  unfold capabilityArguments
  split <;> simp

theorem length_pairs {α : Type} (l : List α) {f : α → List (Option Text)}
    (h : ∀ a, (f a).length = 2) : (l.flatMap f).length = l.length * 2 := by
  simp [List.length_flatMap, h]

/-- The arguments leave at least one slot of the array over. -/
theorem argumentVector_length (ha : config.Accepted host) (fd : Nat) :
    (argumentVector config fd).length + 1 < argumentSlots config := by
  have hcapabilities := capabilityArguments_length ha
  have hmounts : (config.mounts.flatMap mountArguments).length = config.mounts.length * 2 :=
    length_pairs _ fun m => by unfold mountArguments; split <;> rfl
  have hpublishes : (config.publishes.flatMap publishArguments).length =
      config.publishes.length * 2 := length_pairs _ fun _ => rfl
  have hdetach : (detachArguments config fd).length ≤ 3 := by
    unfold detachArguments
    split <;> simp
  have hreadonly : (if config.readonlyRoot then [some "--read-only".toList] else
      ([] : List (Option Text))).length ≤ 1 := by
    split <;> simp
  have henvironment : (config.environment.flatMap fun assignment =>
      [some "--env".toList, some assignment]).length = config.environment.length * 2 :=
    length_pairs _ fun _ => rfl
  have hdenies : (config.seccompDenies.flatMap fun name =>
      [some "--seccomp-deny".toList, some name]).length = config.seccompDenies.length * 2 :=
    length_pairs _ fun _ => rfl
  have hidentity : (identityArguments config).length = 10 := rfl
  have hlimits : (limitArguments config).length = 12 := rfl
  simp only [argumentVector, List.length_append, List.length_cons, List.length_map, argumentSlots]
  omega

theorem all_isSome_flatMap {α : Type} (l : List α) {f : α → List (Option Text)}
    (h : ∀ a, (f a).all Option.isSome = true) : (l.flatMap f).all Option.isSome = true := by
  rw [List.all_flatMap]
  exact List.all_eq_true.mpr fun a _ => h a

/-- No argument is a null pointer: every bit of the mask has a name. -/
theorem argumentVector_isSome (ha : config.Accepted host) (fd : Nat) :
    (argumentVector config fd).all Option.isSome = true := by
  have hcapabilities := all_isSome_flatMap (List.range 64)
    (f := capabilityArguments config.capabilityMask) fun number => by
      unfold capabilityArguments
      split
      · rename_i hbit
        simp [capabilityName, ha.capabilities number hbit]
      · rfl
  have hmounts := all_isSome_flatMap config.mounts (f := mountArguments) fun m => by
    unfold mountArguments
    split <;> rfl
  have hpublishes := all_isSome_flatMap config.publishes (f := publishArguments) fun _ => rfl
  have henvironment : (config.environment.flatMap fun assignment =>
      [some "--env".toList, some assignment]).all Option.isSome = true :=
    all_isSome_flatMap _ fun _ => rfl
  have hdenies : (config.seccompDenies.flatMap fun name =>
      [some "--seccomp-deny".toList, some name]).all Option.isSome = true :=
    all_isSome_flatMap _ fun _ => rfl
  have hdetach : (detachArguments config fd).all Option.isSome = true := by
    unfold detachArguments
    split <;> rfl
  have hreadonly : (if config.readonlyRoot then [some "--read-only".toList] else
      ([] : List (Option Text))).all Option.isSome = true := by
    split <;> rfl
  have hidentity : (identityArguments config).all Option.isSome = true := rfl
  have hlimits : (limitArguments config).all Option.isSome = true := rfl
  have hcommand : (config.command.map some).all Option.isSome = true := by
    rw [List.all_map]
    exact List.all_eq_true.mpr fun _ _ => rfl
  simp only [argumentVector, List.all_append, List.all_cons, hidentity, henvironment, hlimits,
    hpublishes, hcapabilities, hreadonly, hmounts, hdenies, hdetach, hcommand, Option.isSome_some,
    Bool.and_self]

end Accepted

/-- The argument array of every configuration that the command line hands to `mc_launch_shim`: each
    store goes to a slot, the slot behind the command is a null pointer and the first one. -/
theorem fillArguments_fits {host : Host} {args : List Text} {r : RunRequest}
    (hr : runRequest host args = .ok r) {id : Text} {ipv4Host : UInt32} {c : RunConfig}
    (hc : RunConfig.LaunchedAs { r.config id with ipv4Host } r.image c) (path : Text) (fd : Nat) :
    (∀ s ∈ (fillArguments path c fd).stores, s.1 < argumentSlots c) ∧
      (fillArguments path c fd).position + c.command.length < argumentSlots c ∧
      ((fillArguments path c fd).array (argumentSlots c))[
        (fillArguments path c fd).position + c.command.length]? = some none ∧
      ∀ i < (fillArguments path c fd).position + c.command.length, ∃ argument : Text,
        ((fillArguments path c fd).array (argumentSlots c))[i]? = some (some argument) := by
  have himage : r.image.length < pathMax :=
    Nat.lt_of_le_of_lt (validName_length (runRequest_ok hr).2.1) (by decide)
  obtain ⟨ha, -⟩ := hc.spec (RunRequest.config_accepted hr id ipv4Host) himage
  obtain ⟨hholds, hposition⟩ := fillArguments_holds path c fd
  rw [List.length_cons] at hposition
  have hlength := argumentVector_length ha fd
  have hsome := argumentVector_isSome ha fd
  have hslots : (some path :: argumentVector c fd).length ≤ argumentSlots c := by
    rw [List.length_cons]
    omega
  have harray := hholds.array_eq hslots
  refine ⟨?_, by omega, ?_, ?_⟩
  · intro s hs
    rw [hholds] at hs
    obtain ⟨v, hv, rfl⟩ := List.mem_map.mp hs
    have hindex := List.snd_lt_of_mem_zipIdx hv
    rw [List.length_cons] at hindex
    dsimp only
    omega
  · rw [harray, hposition, List.getElem?_append_right (by simp), List.length_cons, Nat.sub_self,
      List.getElem?_replicate, if_pos (by omega)]
  · intro i hi
    rw [harray, List.getElem?_append_left (by rw [List.length_cons]; omega)]
    cases i with
    | zero => exact ⟨path, rfl⟩
    | succ i =>
      have hlt : i < (argumentVector c fd).length := by omega
      obtain ⟨argument, hargument⟩ := Option.isSome_iff_exists.mp
        (List.all_eq_true.mp hsome _ (List.getElem_mem hlt))
      exact ⟨argument, by rw [List.getElem?_cons_succ, List.getElem?_eq_getElem hlt, hargument]⟩

/-- The array for a container with one bind mount. -/
theorem fillArguments_fits_directory :
    runRequest linkedHost (["--image", "alpine", "--bind", "/d:/data:ro", "--", "sh"].map
      String.toList) = .ok (boundRequest "/d".toList true) ∧
    ∀ s ∈ (fillArguments "/usr/libexec/minicontainer-shim".toList
        ((boundRequest "/d".toList true).config "0".toList) 5).stores,
      s.1 < argumentSlots ((boundRequest "/d".toList true).config "0".toList) := by
  have hr : runRequest linkedHost (["--image", "alpine", "--bind", "/d:/data:ro", "--", "sh"].map
      String.toList) = .ok (boundRequest "/d".toList true) := rfl
  have hc : RunConfig.LaunchedAs
      { (boundRequest "/d".toList true).config "0".toList with ipv4Host := 0 }
      (boundRequest "/d".toList true).image ((boundRequest "/d".toList true).config "0".toList) :=
    .run
  exact ⟨hr, (fillArguments_fits hr hc "/usr/libexec/minicontainer-shim".toList 5).1⟩

end MiniContainer
