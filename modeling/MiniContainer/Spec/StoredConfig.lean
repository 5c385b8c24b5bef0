import MiniContainer.Spec.Accepted
import MiniContainer.Spec.Alone
import MiniContainer.Spec.Scans
import MiniContainer.Spec.Steps

/-!
# Saving and loading a configuration

`mc_state_save_config` followed by `mc_state_load_config` of the container's ID gives
the configuration back. `ConfigRoundTrip` has shown that the decoder reads what the
encoder writes; here both are run against the registry, with the scans that refuse a
configuration and the resolution of the reference.
-/

namespace MiniContainer

open CString (Text)
open JsonC (Value)

section Store

variable {t : Tid}

/-- What a successful `mc_state_save_config` leaves: the document of the configuration, and
    every other directory as it was. -/
theorem alone_saveConfig (build : Build) (config : RunConfig) (image : Text) (w : World) :
    Alone t (fun result w' => result = .ok () →
      (∃ stamp, w'.config config.id = some (configJson stamp config image)) ∧
        ∀ d, d ≠ config.id → w'.dir d = w.dir d) (saveConfig build config image) w := by
  refine Alone.lift_andThen ((alone_of_reads (reads_nameIsTaken _ _) trivial).mono ?_)
  rintro taken _ rfl
  split
  · exact fun h => by cases h
  refine Alone.lift_andThen ((alone_of_reads (reads_publishedPortIsTaken config) trivial).mono ?_)
  rintro taken _ rfl
  split
  · exact fun h => by cases h
  refine Alone.lift_andThen ((alone_of_reads (reads_hostPortsAreAvailable _) trivial).mono ?_)
  rintro available w rfl
  split
  · exact fun h => by cases h
  refine Alone.perform_andThen fun ch _ => ⟨_, _, rfl, trivial, ?_⟩
  refine Alone.check_andThen (Alone.perform (o := .mkdir config.id) fun ch' hch => ?_)
  have hmkdir : step ch' w t (.mkdir config.id) = some (true, w.mkdir config.id) := by
    simp [step, hch.fault]
  refine ⟨_, _, hmkdir, trivial, ?_⟩
  rw [if_pos rfl]
  -- the directory is there now, and nothing else has changed
  obtain ⟨d, hd, hother⟩ : ∃ d, (w.mkdir config.id).dir config.id = some d ∧
      ∀ e, e ≠ config.id → (w.mkdir config.id).dir e = w.dir e := by
    cases hw : w.dir config.id with
    | some d => exact ⟨d, by rw [World.mkdir, hw, hw], fun e _ => by rw [World.mkdir, hw]⟩
    | none =>
      have hmk : w.mkdir config.id = { w.setDir config.id {} with containers := true } := by
        rw [World.mkdir, hw]
      refine ⟨{}, ?_, fun e he => ?_⟩
      · rw [hmk]
        exact (World.dir_setDir w config.id {} config.id).trans (if_pos rfl)
      · rw [hmk]
        exact (World.dir_setDir w config.id {} e).trans (if_neg he)
  by_cases htemporary : (File.config, (w.mkdir config.id).pidOf t) ∈ d.temporaries
  · refine (alone_writeAtomic_refused _ (fun d' hd' => ?_) trivial).mono ?_
    · rw [hd] at hd'
      exact Option.some.inj hd' ▸ htemporary
    · rintro _ _ ⟨-, e, rfl⟩ h
      cases h
  · refine (alone_writeAtomic (.config (configJson ⟨build.version, build.gitCommit, ch.now⟩ config
      image)) hd htemporary trivial trivial).mono ?_
    rintro _ _ ⟨-, rfl⟩ -
    refine ⟨⟨⟨build.version, build.gitCommit, ch.now⟩, ?_⟩, fun e he => ?_⟩
    · rw [World.config, World.recordWrite, World.dir_setDir, if_pos rfl]
      rfl
    · rw [World.recordWrite, World.dir_setDir, if_neg he, hother e he]

/-- A full ID refers to its container, unless another one is called by it. -/
theorem alone_resolve_id {w : World} (id : ContainerId) (hdir : w.dir id.text ≠ none)
    (hnames : ∀ d y, d ≠ id.text → containerEntry d = true → w.config d = some y →
      hasName (some y) id.text = false) :
    Alone t (fun result w' => w' = w ∧ result = .ok id.text) (resolve id.text) w := by
  have hentry : containerEntry id.text = true := by
    rw [containerEntry, id.not_hidden, id.length_text]
    rfl
  have hne : id.text ≠ [] := fun h => by simpa [h] using id.length_text
  refine alone_resolve hne hdir (by simp [refersTo, hentry]) fun d _ hmatch => ?_
  rw [refersTo, Bool.and_eq_true, Bool.or_eq_true] at hmatch
  obtain ⟨hentryd, hpre | hname⟩ := hmatch
  · have hlength : d.length = 32 := by
      rw [containerEntry, Bool.and_eq_true, beq_iff_eq] at hentryd
      exact hentryd.2
    exact ((List.isPrefixOf_iff_prefix.mp hpre).eq_of_length
      (id.length_text.trans hlength.symm)).symm
  · by_contra hd
    cases hy : w.config d with
    | none => simp [hy, hasName] at hname
    | some y => exact absurd (hy ▸ hname) (by simp [hnames d y hd hentryd hy])

/-- Loading a stored configuration by its ID. -/
theorem alone_loadConfig {w : World} (id : ContainerId) {x : Value} {loaded : RunConfig × Text}
    (hc : w.config id.text = some x) (hload : loadDocument x = some loaded)
    (hnames : ∀ d y, d ≠ id.text → w.config d = some y → hasName (some y) id.text = false) :
    Alone t (fun result w' => w' = w ∧ result = .ok loaded) (loadConfig id.text) w := by
  have hdir : w.dir id.text ≠ none := fun h => by simp [World.config, h] at hc
  refine Alone.andThen ((alone_resolve_id id hdir fun d y hne _ => hnames d y hne).mono ?_)
  rintro _ _ ⟨rfl, rfl⟩
  refine Alone.perform_andThen fun ch _ => ⟨_, _, rfl, trivial, ?_⟩
  simp only [hc, Option.bind_some, hload]
  exact ⟨rfl, rfl⟩

/-- A configuration that the command line has built comes back as it was saved. The ID is
    fresh: no other container is called by it. -/
theorem saveConfig_loadConfig {host : Host} {args : List Text} {r : RunRequest}
    (hr : runRequest host args = .ok r) (id : ContainerId) (ipv4Host : UInt32) (build : Build)
    (w : World)
    (hfresh : ∀ d x, d ≠ id.text → w.config d = some x → hasName (some x) id.text = false) :
    Alone t (fun result w' => result = .ok () →
      Alone t (fun loaded w'' => w'' = w' ∧
        loaded = .ok ({ r.config id.text with ipv4Host }.persisted, r.image))
        (loadConfig id.text) w')
      (saveConfig build { r.config id.text with ipv4Host } r.image) w := by
  refine (alone_saveConfig build { r.config id.text with ipv4Host } r.image w).mono ?_
  intro result w' hsave hok
  obtain ⟨⟨stamp, hconfig⟩, hother⟩ := hsave hok
  have haccepted := RunRequest.config_accepted hr id.text ipv4Host
  have himage : r.image.length < pathMax :=
    Nat.lt_of_le_of_lt (validName_length (runRequest_ok hr).2.1) (by decide)
  have hload := loadDocument_configJson stamp { r.config id.text with ipv4Host } r.image
    (fun m hm => (haccepted.mounts m hm).storable) haccepted.command himage
  refine alone_loadConfig id hconfig hload fun d y hne hy => hfresh d y hne ?_
  rw [World.config, ← hother d hne]
  exact hy

/-- The arguments of a container with a name, an environment, two mounts and a published
    port. -/
def webArguments : List Text :=
  ["--name", "web", "--image", "alpine", "--env", "MODE=fast", "--memory", "64M", "--network",
    "bridge", "--publish", "127.0.0.1:8080:80/tcp", "--tmpfs", "/cache:1M", "--tmpfs", "/tmp:2M",
    "--", "httpd", "-f"].map String.toList

/-- The request that they make. -/
def webRequest : RunRequest where
  options := {
    name := some "web".toList
    image := some "alpine".toList
    environment := ["MODE=fast".toList]
    memoryMax := 0x4000000
    networkBridge := true
    publishes := [⟨0x7f000001, 8080, 80, ipprotoTcp⟩]
    mounts := [⟨.tmpfs, none, "/cache".toList, 0x100000, false⟩,
      ⟨.tmpfs, none, "/tmp".toList, 0x200000, false⟩] }
  image := "alpine".toList
  rootfs := "/images/alpine".toList
  command := ["httpd".toList, "-f".toList]

/-- In an empty registry this configuration is saved, and comes back. -/
theorem saveConfig_loadConfig_web :
    runRequest plainHost webArguments = .ok webRequest ∧
      ∃ w', (saveConfig plainBuild
          { webRequest.config (plainId 7).text with ipv4Host := 0x0a2c0002 }
          webRequest.image).eval (fun ch w o => step ch w 1 o) (fun _ => {}) {} =
          some (.ok (), w') ∧
        Alone 1 (fun loaded w'' => w'' = w' ∧ loaded =
          .ok ({ webRequest.config (plainId 7).text with ipv4Host := 0x0a2c0002 }.persisted,
            webRequest.image))
          (loadConfig (plainId 7).text) w' := by
  have hr : runRequest plainHost webArguments = .ok webRequest := rfl
  have hempty : ∀ d x, d ≠ (plainId 7).text → World.config {} d = some x →
      hasName (some x) (plainId 7).text = false := fun d x _ h => nomatch h
  obtain ⟨result, w', heval, hload⟩ := (saveConfig_loadConfig hr (plainId 7) 0x0a2c0002 plainBuild
    {} hempty).eval fun _ _ => Choice.calm_default
  have hok : ((saveConfig plainBuild
      { webRequest.config (plainId 7).text with ipv4Host := 0x0a2c0002 } webRequest.image).eval
      (fun ch w o => step ch w 1 o) (fun _ => {}) {}).any (·.1.isOk) = true := by
    decide +kernel
  rw [heval] at hok
  cases result with
  | ok => exact ⟨hr, w', heval, hload rfl⟩
  | error => exact nomatch hok

end Store

end MiniContainer
