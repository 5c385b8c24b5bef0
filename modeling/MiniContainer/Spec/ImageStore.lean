import MiniContainer.Spec.ImageImport

/-!
# The image store

Every store that imports and resolutions reach, side by side and with failures and kills
at any step: a published image has its marker and a complete root file system, and a
record names a published image. A record that an import has installed is what a
resolution finds, as long as no record is renamed over the temporary file of an import
that runs; and imports of one archive succeed together, as long as no two of them find
the image missing.
-/

namespace MiniContainer.Image

open Contract
open CString (Text)
open Function (update update_apply update_self)

/-! ## Resolutions -/

section Resolve

variable {lib : Libraries} {terms : Terms} {r : Tid} {pid : Nat} {name : Text}

/-- An import of the name had returned this path when resolution `r` began, and its record
    was not replaced. -/
structure Settled (r : Tid) (name : Text) (w : World) (t : Tid) (archive : ArchiveFile)
    (path : Text) : Prop where
  request : w.requests t = some (.imageImport name archive)
  finished : w.finished t = some (.ok path)
  before : w.before r t = true
  installed : w.installed name = some t

/-- What is settled behind a step of another process was settled in front of it. -/
theorem Settled.of_move {u t : Tid} {w w' : World} {archive : ArchiveFile} {path : Text}
    (hapart : terms.apart) (h : Inv lib terms w) (hu : u ≠ r) (hm : Moves terms u w w')
    (hs : Settled r name w' t archive path) : Settled r name w t archive path := by
  have hbefore : w.before r t = true := by
    rw [← hm.before r hu.symm]
    exact hs.before
  by_cases htu : t = u
  · subst htu
    obtain ⟨hrequest, hfinished, hinst⟩ := hm.ended (h.results.before r t hbefore)
    exact ⟨hrequest.symm.trans hs.request, hfinished.symm.trans hs.finished, hbefore,
      (hinst name hs.installed).1⟩
  · exact ⟨(hm.requests t htu).symm.trans hs.request, (hm.finished t htu).symm.trans hs.finished,
      hbefore, (hm.record hapart name t htu hs.installed).1⟩

/-- The record of the import that is settled. -/
theorem Settled.record {t : Tid} {w : World} {archive : ArchiveFile} {path : Text}
    (hapart : terms.apart) (h : Inv lib terms w) (hs : Settled r name w t archive path) :
    ∃ i, w.entry ⟨.names, name⟩ = some i ∧ w.placed i = true ∧
      w.contents i = Image.record (lib.digest archive.bytes).text := by
  obtain ⟨archive', i, hrequest, hi, hplaced, hcontents⟩ := h.installed hapart name t hs.installed
  obtain ⟨-, rfl⟩ := Cmd.imageImport.inj (Option.some.inj (hrequest.symm.trans hs.request))
  exact ⟨i, hi, hplaced, hcontents⟩

theorem record_injective {digest digest' : Text} (h : record digest = record digest') :
    digest = digest' :=
  List.append_cancel_left (List.append_cancel_right h)

/-- The image of the import that is settled. -/
theorem Settled.image {t : Tid} {w : World} {archive : ArchiveFile} {path : Text}
    (hapart : terms.apart) (h : Inv lib terms w) (hs : Settled r name w t archive path) :
    w.folders (.image (lib.digest archive.bytes).text) = true := by
  obtain ⟨i, hi, hplaced, hcontents⟩ := hs.record hapart h
  obtain ⟨digest, hrecord, hfolder⟩ := h.tidy.records name i hi hplaced
  exact record_injective (hcontents.symm.trans hrecord) ▸ hfolder

/-- The resolution runs and knows something about every import that is settled. -/
structure Resolving (lib : Libraries) (terms : Terms) (r : Tid) (pid : Nat) (name : Text)
    (K : ArchiveFile → World → Prop) (w : World) : Prop where
  running : w.Running r (.imageResolve name) pid
  known : terms.apart → terms.calm r → ∀ t archive path, Settled r name w t archive path →
    K archive w

theorem steady_resolving {K : ArchiveFile → World → Prop}
    (hK : ∀ u w w' archive, Moves terms u w w' → K archive w → K archive w') :
    Steady lib terms r (Resolving lib terms r pid name K) := fun u w w' hu hi hm h =>
  ⟨h.running.move hm hu.symm, fun hapart hcalm t archive path hs =>
    hK u w w' archive hm (h.known hapart hcalm t archive path (hs.of_move hapart hi hu hm))⟩

/-- The file that was opened is the record. -/
def Found (lib : Libraries) (file : Option Nat) (archive : ArchiveFile) (w : World) : Prop :=
  ∃ i, file = some i ∧ i < w.nextFile ∧ w.placed i = true ∧
    w.contents i = record (lib.digest archive.bytes).text

theorem Found.move {file : Option Nat} {u : Tid} {w w' : World} {archive : ArchiveFile}
    (hm : Moves terms u w w') (h : Found lib file archive w) : Found lib file archive w' := by
  obtain ⟨i, hfile, hlt, hplaced, hcontents⟩ := h
  exact ⟨i, hfile, hlt.trans_le hm.nextFile, hm.placed i hplaced,
    (hm.contents i hlt (.inr hplaced)).trans hcontents⟩

/-- `mc_image_resolve`. -/
theorem triple_imageResolve :
    (contract lib terms).Triple (machine lib) r (fun w => w.Running r (.imageResolve name) pid)
      (imageResolve name).run
      (Ends (fun path => Resolving lib terms r pid name fun archive _ =>
          path = rootfsPath (lib.digest archive.bytes).text)
        (Resolving lib terms r pid name fun _ _ => False)) := by
  rw [imageResolve]
  split
  · -- nothing was imported under a name that is not valid
    rename_i hinvalid
    refine Triple.exceptThrow fun w hi h => ⟨h, fun _ _ t archive path hs => ?_⟩
    have hvalid := (hi.results.imported t name archive path hs.request hs.finished).1
    rw [hvalid] at hinvalid
    cases hinvalid
  -- the record of the name is opened and read
  refine Triple.exceptLift
    (R := fun file => Resolving lib terms r pid name (Found lib file))
    (triple_idle steady_running (fun _ _ => rfl) fun ch w hi h ha =>
      ⟨h, fun hapart hcalm t archive path hs => ?_⟩) fun file => ?_
  · obtain ⟨i, hi', hplaced, hcontents⟩ := hs.record hapart hi
    obtain ⟨ch', hfault, heq⟩ := ha.calm hcalm
    refine ⟨i, ?_, hi.tidy.placed i hplaced, hplaced, hcontents⟩
    rw [← heq]
    simp only [effect, hfault]
    exact hi'
  cases file with
  | none =>
    refine Triple.exceptThrow fun w _ h =>
      ⟨h.running, fun hapart hcalm t archive path hs => ?_⟩
    obtain ⟨i, hfile, -⟩ := h.known hapart hcalm t archive path hs
    cases hfile
  | some file =>
    refine Triple.exceptLift
      (R := fun content => Resolving lib terms r pid name fun archive _ =>
        content = some (record (lib.digest archive.bytes).text))
      (triple_idle (steady_resolving fun _ _ _ _ => Found.move) (fun _ _ => rfl)
        fun ch w hi h ha => ⟨h.running, fun hapart hcalm t archive path hs => ?_⟩) fun content => ?_
    · obtain ⟨i, hfile, -, -, hcontents⟩ := h.known hapart hcalm t archive path hs
      obtain ⟨ch', hfault, heq⟩ := ha.calm hcalm
      rw [← heq]
      simp only [effect, hfault]
      rw [← hcontents, Option.some.inj hfile]
      rfl
    cases content with
    | none =>
      exact Triple.exceptThrow fun w _ h =>
        ⟨h.running, fun hapart hcalm t archive path hs =>
        absurd (h.known hapart hcalm t archive path hs) (by simp)⟩
    | some content =>
      dsimp only
      cases hparse : parseRecord content with
      | none =>
        refine Triple.exceptThrow fun w _ h =>
          ⟨h.running, fun hapart hcalm t archive path hs => ?_⟩
        obtain rfl := Option.some.inj (h.known hapart hcalm t archive path hs)
        cases hparse.symm.trans (parseRecord_record _)
      | some digest =>
        -- an image that was reported is complete
        refine Triple.exceptLift
          (R := fun found => Resolving lib terms r pid name fun archive _ =>
            digest = (lib.digest archive.bytes).text ∧ found = true)
          (triple_idle (steady_resolving fun _ _ _ _ _ h => h) (fun _ _ => rfl)
            fun ch w hi h ha => ⟨h.running, fun hapart hcalm t archive path hs => ?_⟩)
              fun found => ?_
        · obtain rfl := Option.some.inj (h.known hapart hcalm t archive path hs)
          obtain rfl := Option.some.inj (hparse.symm.trans (parseRecord_record _))
          obtain ⟨i, hmarker, -⟩ := (hi.tidy.image _ (hs.image hapart hi)).marker
          obtain ⟨ch', hfault, heq⟩ := ha.calm hcalm
          refine ⟨rfl, ?_⟩
          rw [← heq]
          simp only [effect, hfault, hmarker]
          rfl
        cases found with
        | true =>
          exact Triple.exceptPure fun w _ h =>
            ⟨h.running, fun hapart hcalm t archive path hs =>
            by rw [(h.known hapart hcalm t archive path hs).1]⟩
        | false =>
          exact Triple.exceptThrow fun w _ h => ⟨h.running,
            fun hapart hcalm t archive path hs =>
              absurd (h.known hapart hcalm t archive path hs).2 (by simp)⟩

end Resolve

/-! ## Reachable stores -/

section Reachable

variable {lib : Libraries} {terms : Terms}

/-- A process does what it was started for and returns. -/
theorem triple_prog (t : Tid) (c : Cmd) (pid : Nat) :
    (contract lib terms).Triple (machine lib) t (fun w => w.Running t c pid) (prog lib c)
      (fun _ _ => True) := by
  cases c with
  | imageImport name archive =>
    refine Triple.bind triple_imageImport fun result =>
      triple_perform ?_ fun ch w hi h _ => ?_
    · cases result with
      | error e => exact steady_failed
      | ok path =>
        exact fun u w w' hu hi hm h =>
          ⟨h.1.move hm hu.symm, h.2.1.move hi hm (hm.before t hu.symm), h.2.2⟩
    · have hrun : w.Running t (.imageImport name archive) pid := by
        cases result with
        | error e | ok path => exact h.1
      suffices hend : Inv lib terms (effect ch w t (.finish result)).2 ∧
          Moves terms t w (effect ch w t (.finish result)).2 from ⟨hend.1, hend.2, trivial⟩
      apply keeps_finish hi hrun
      · intro name' archive' hc
        cases hc
        cases result with
        | error e => exact fun hsmooth => h.2 ⟨hsmooth.1, hsmooth.2.1, hsmooth.2.2.1, hsmooth.2.2.2⟩
        | ok path => exact ⟨h.2.2.1, h.2.2.2, h.2.1⟩
      · exact fun _ _ _ _ _ _ hc => nomatch hc
  | imageResolve name =>
    refine Triple.bind triple_imageResolve fun result =>
      triple_perform ?_ fun ch w hi h _ => ?_
    · cases result with
      | error e | ok path => exact steady_resolving fun _ _ _ _ _ h => h
    · have hrun : w.Running t (.imageResolve name) pid := by
        cases result with
        | error e | ok path => exact h.running
      suffices hend : Inv lib terms (effect ch w t (.finish result)).2 ∧
          Moves terms t w (effect ch w t (.finish result)).2 from ⟨hend.1, hend.2, trivial⟩
      apply keeps_finish hi hrun
      · exact fun _ _ hc => nomatch hc
      · intro hapart hcalm u name' archive path hc hrequest hfinished hbefore hinst
        cases hc
        have hs : Settled t name w u archive path := ⟨hrequest, hfinished, hbefore, hinst⟩
        cases result with
        | error e => exact (h.known hapart hcalm u archive path hs).elim
        | ok path' =>
          rw [h.known hapart hcalm u archive path hs,
            (hi.results.imported u name archive path hrequest hfinished).2.1]

/-- The contract holds in runs whose answers it admits. -/
theorem sound {ok : Sys Op Res Unit World → Event Choice Cmd → Prop}
    (hok : ∀ S t ch o k, ok S (.act t ch) → S.pool t = some (.act o k) →
      Admits terms S.world t o (effect ch S.world t o).1) :
    (contract lib terms).Sound (machine lib) ok where
  admits S t ch o k r w he hpool hs := by
    obtain ⟨rfl, rfl⟩ := Prod.mk.inj (Option.some.inj hs)
    exact hok S t ch o k he hpool
  compat _ t _ _ _ _ _ _ _ _ _ _ hg t' _ _ ht' _ := ⟨t, ht'.symm, hg⟩
  spawn _ _ _ _ _ _ _ _ _ _ _ _ h := nomatch h
  enter S t c ch w _ hi h := by
    obtain ⟨hi', hm, hrun⟩ := keeps_enter hi h
    exact ⟨hi', triple_prog t c ch.pid w hi' hrun, fun t' _ _ ht' _ => ⟨t, ht'.symm, hm⟩⟩
  kill S t _ hi :=
    ⟨keeps_kill hi t, fun t' _ _ ht' _ => ⟨t, ht'.symm, moves_leave S.world t⟩⟩
  env _ _ _ _ _ h := nomatch h

theorem inv_initial : Inv lib terms {} where
  tidy := ⟨nofun, nofun, nofun, nofun, nofun, nofun, nofun⟩
  installed := fun _ => nofun
  results := ⟨fun _ h => absurd rfl h, nofun, nofun, nofun, nofun⟩

/-- The invariant of every store reached in such a run. -/
theorem inv_of_reach {ok : Sys Op Res Unit World → Event Choice Cmd → Prop}
    (hok : ∀ S t ch o k, ok S (.act t ch) → S.pool t = some (.act o k) →
      Admits terms S.world t o (effect ch S.world t o).1)
    {S : Sys Op Res Unit World} (h : (machine lib).Reach ok initialSystem S) :
    Inv lib terms S.world :=
  have hsafe : (contract lib terms).SafeSys (machine lib) initialSystem :=
    ⟨inv_initial, fun _ _ hp => nomatch hp⟩
  ((sound hok).reach hsafe h).1

end Reachable

/-! ## Runs -/

/-- No record is renamed over a temporary file that an import which runs has created. -/
def keepsApart (S : Sys Op Res Unit World) : Event Choice Cmd → Bool
  | .act t _ =>
    match S.pending t with
    | some (.rename _ target) =>
      match S.world.entry target with
      | some i =>
        target.folder != .names || S.world.placed i || !S.world.alive (S.world.creator i)
      | none => true
    | _ => true
  | _ => true

/-- No import finds an image missing while another import runs that has found it missing. -/
def buildsAlone (S : Sys Op Res Unit World) : Event Choice Cmd → Bool
  | .act t _ =>
    match S.pending t with
    | some (.accessMarker digest) =>
      match S.world.builder digest with
      | some u => S.world.folders (.image digest) || u == t || !S.world.alive u
      | none => true
    | _ => true
  | _ => true

/-- The temporary files of this process do not exist when it creates them. -/
def temporaryFree (t : Tid) (S : Sys Op Res Unit World) : Event Choice Cmd → Bool
  | .act u _ =>
    match S.pending u with
    | some (.create p) => u != t || (S.world.entry p).isNone
    | _ => true
  | _ => true

/-- No call of this process fails for a reason of its own. -/
def callsSucceed (t : Tid) : Event Choice Cmd → Bool
  | .act u ch => u != t || !ch.fault
  | _ => true

section Conditions

variable {S : Sys Op Res Unit World} {t : Tid} {ch : Choice}

theorem keepsApart_rename {source target : Path} {i : Nat}
    (h : keepsApart S (.act t ch) = true) (ho : S.pending t = some (.rename source target))
    (hfolder : target.folder = .names) (hi : S.world.entry target = some i)
    (hplaced : S.world.placed i = false) : S.world.alive (S.world.creator i) = false := by
  simpa [keepsApart, ho, hi, hfolder, hplaced] using h

theorem buildsAlone_accessMarker {digest : Text} {u : Tid}
    (h : buildsAlone S (.act t ch) = true) (ho : S.pending t = some (.accessMarker digest))
    (hfolder : S.world.folders (.image digest) = false) (hu : S.world.builder digest = some u) :
    u = t ∨ S.world.alive u = false := by
  simpa [buildsAlone, ho, hu, hfolder] using h

theorem temporaryFree_create {p : Path} (h : temporaryFree t S (.act t ch) = true)
    (ho : S.pending t = some (.create p)) : S.world.entry p = none := by
  simpa [temporaryFree, ho] using h

theorem callsSucceed_act (h : callsSucceed t (.act t ch) = true) : ch.fault = false := by
  simpa [callsSucceed] using h

end Conditions

/-- The end of a process. -/
def Finishing (p : Action Unit) : Prop :=
  ∃ q : Action (Except McError Text), p = q.bind fun result => perform (.finish result)

section Progress

variable {lib : Libraries} {ok : Sys Op Res Unit World → Event Choice Cmd → Prop}
  {S : Sys Op Res Unit World}

theorem finishing_prog (c : Cmd) : Finishing (prog lib c) := by
  cases c with
  | imageImport name archive | imageResolve name => exact ⟨_, rfl⟩

theorem Finishing.next {o : Op} {k : Res o → Action Unit} (h : Finishing (.act o k)) (r : Res o) :
    k r = .ret () ∨ Finishing (k r) := by
  obtain ⟨q, hq⟩ := h
  cases q with
  | ret result =>
    cases hq
    exact .inl rfl
  | act o' k' =>
    cases hq
    exact .inr ⟨k' r, rfl⟩

/-- A process that has not ended still has to return. -/
theorem finishing_of_reach (h : (machine lib).Reach ok initialSystem S) {t : Tid}
    {p : Action Unit} (hp : S.pool t = some p) : p = .ret () ∨ Finishing p := by
  induction h generalizing t p with
  | refl => exact nomatch hp
  | step _ _ hn ih =>
    cases (machine lib).next_inv hn with
    | act hpool hstep hspawn =>
      simp only [update_apply] at hp
      split at hp
      · cases hp
        rcases ih hpool with hret | hfinish
        · exact nomatch hret
        · exact hfinish.next _
      · exact ih hp
    | fork hpool hstep hspawn hfree => exact nomatch hspawn
    | enter hfree henter =>
      simp only [update_apply] at hp
      split at hp
      · cases hp
        exact .inr (finishing_prog _)
      · exact ih hp
    | kill hpool =>
      simp only [update_apply] at hp
      split at hp
      · cases hp
        exact .inl rfl
      · exact ih hp
    | env henv => exact nomatch henv

/-- Only process `t` acts, and nothing fails. -/
def ActsAlone (t : Tid) (_ : Sys Op Res Unit World) (e : Event Choice Cmd) : Prop :=
  e = .act t {}

/-- No process waits for another: from where it stands it can act until it has returned. -/
theorem exists_returned {t : Tid} {S₀ : Sys Op Res Unit World} (q : Action (Except McError Text))
    (h : (machine lib).Reach (ActsAlone t) S₀ S)
    (hp : S.pool t = some (q.bind fun result => perform (.finish result))) :
    ∃ S', (machine lib).Reach (ActsAlone t) S₀ S' ∧ S'.world.finished t ≠ none := by
  -- on the calls in front of the last one
  induction q generalizing S with
  | ret result =>
    have hn : (machine lib).next S (.act t {}) = some ⟨(effect {} S.world t (.finish result)).2,
        update S.pool t (some (.ret ()))⟩ := by
      simp only [Machine.next, hp, Prog.ret_bind]
      rfl
    refine ⟨_, h.step rfl hn, ?_⟩
    show update S.world.finished t (some result) t ≠ none
    rw [update_self]
    exact Option.some_ne_none result
  | act o k ih =>
    have hn : (machine lib).next S (.act t {}) = some ⟨(effect {} S.world t o).2,
        update S.pool t (some ((k (effect {} S.world t o).1).bind fun result =>
          perform (.finish result)))⟩ := by
      simp only [Machine.next, hp, Prog.act_bind]
      rfl
    exact ih _ (h.step rfl hn) (update_self ..)

end Progress

/-- Images and records, and what resolutions return. In every run, whatever fails or is killed,
    a published image is complete, a record that a rename has installed names such an image,
    and no process waits for another. As long as no record is renamed over a temporary file of
    an import that runs, a resolution that begins behind an import of the name returns the path
    of that import, unless its record was replaced. -/
theorem image_store_integrity (lib : Libraries) :
    (∀ S, (machine lib).Reach (fun _ _ => True) initialSystem S →
      (∀ digest, S.world.folders (.image digest) = true → S.world.Complete lib digest) ∧
      (∀ name i, S.world.entry ⟨.names, name⟩ = some i → S.world.placed i = true →
        ∃ digest, S.world.contents i = record digest ∧
          S.world.folders (.image digest) = true ∧ S.world.Complete lib digest) ∧
      (∀ t o k, S.pool t = some (.act o k) →
        ∃ S', (machine lib).Reach (ActsAlone t) S S' ∧ S'.world.finished t ≠ none)) ∧
    (∀ S r, (machine lib).Reach (fun S e => (keepsApart S e && callsSucceed r e) = true)
        initialSystem S →
      ∀ t name archive path result, S.world.requests t = some (.imageImport name archive) →
        S.world.finished t = some (.ok path) → S.world.installed name = some t →
        S.world.requests r = some (.imageResolve name) → S.world.before r t = true →
        S.world.finished r = some result →
        path = rootfsPath (lib.digest archive.bytes).text ∧ result = .ok path) := by
  constructor
  · intro S hS
    have hi : Inv lib ⟨False, False, fun _ => False⟩ S.world :=
      inv_of_reach (fun _ _ _ _ _ _ _ => ⟨False.elim, False.elim, False.elim, False.elim⟩) hS
    refine ⟨hi.tidy.image, fun name i hentry hplaced => ?_, fun t o k hp => ?_⟩
    · obtain ⟨digest, hcontents, hfolder⟩ := hi.tidy.records name i hentry hplaced
      exact ⟨digest, hcontents, hfolder, hi.tidy.image digest hfolder⟩
    · obtain ⟨q, hq⟩ := (finishing_of_reach hS hp).resolve_left nofun
      exact exists_returned q .refl (hp.trans (congrArg some hq))
  · intro S r hS t name archive path result himport hpath hinst hresolve hbefore hresult
    have hi : Inv lib ⟨True, False, fun u => u = r⟩ S.world := by
      refine inv_of_reach (fun S t ch o k hok hpool => ?_) hS
      rw [Bool.and_eq_true] at hok
      have hpending : S.pending t = some o := by rw [Sys.pending, hpool]; rfl
      refine ⟨fun hcalm => ⟨ch, ?_, rfl⟩, fun _ source target ho hfolder i hentry hplaced => ?_,
        False.elim, False.elim⟩
      · obtain rfl : t = r := hcalm
        exact callsSucceed_act hok.2
      · exact keepsApart_rename hok.1 (hpending.trans (congrArg some ho)) hfolder hentry hplaced
    exact ⟨(hi.results.imported t name archive path himport hpath).2.1,
      hi.results.resolved trivial r t name archive path result rfl hresolve himport hpath hbefore
        hinst hresult⟩

/-- An archive without entries: two blocks of zeros. -/
def plainArchive : ArchiveFile := ⟨"a.tar".toList, List.replicate 1024 0⟩

/-- What the libraries make of this archive. -/
def plainLibraries : Libraries where
  sha256 _ := List.get [0x5f, 0x70, 0xbf, 0x18, 0xa0, 0x86, 0x00, 0x70, 0x16, 0xe9, 0x48, 0xb0,
    0x4a, 0xed, 0x3b, 0x82, 0x10, 0x3a, 0x36, 0xbe, 0xa4, 0x17, 0x55, 0xb6, 0xcd, 0xdf, 0xaf, 0x10,
    0xac, 0xe3, 0xc6, 0xef]
  read _ := ([], true)
  errorString := ""

/-- The path that its import returns. -/
def plainRootfs : Text := rootfsPath (plainLibraries.digest plainArchive.bytes).text

/-- A process that acts so many times, without a failure. -/
def acts (t : Tid) (n : Nat) : List (Event Choice Cmd) := List.replicate n (.act t {})

/-- An import of `foo` and then a resolution. -/
theorem image_store_integrity_foo :
    ∃ S, (machine plainLibraries).Reach
        (fun S e => (keepsApart S e && callsSucceed 1 e) = true) initialSystem S ∧
      S.world.finished 1 = some (.ok plainRootfs) := by
  have hrun : ((machine plainLibraries).runWhile (fun S e => keepsApart S e && callsSucceed 1 e)
      (.enter 0 (.imageImport "foo".toList plainArchive) { pid := 123 } :: acts 0 32 ++
        .enter 1 (.imageResolve "foo".toList) { pid := 124 } :: acts 1 4) initialSystem).any
      (fun S => decide (S.world.requests 0 = some (.imageImport "foo".toList plainArchive)) &&
        decide (S.world.finished 0 = some (.ok plainRootfs)) &&
        decide (S.world.installed "foo".toList = some 0) &&
        decide (S.world.requests 1 = some (.imageResolve "foo".toList)) &&
        S.world.before 1 0 && (S.world.finished 1).isSome) = true := by
    decide +kernel
  obtain ⟨S, hS, htest⟩ := Machine.exists_reach_of_runWhile _ hrun
  simp only [Bool.and_eq_true, decide_eq_true_eq, Option.isSome_iff_exists] at htest
  obtain ⟨⟨⟨⟨⟨himport, hpath⟩, hinst⟩, hresolve⟩, hbefore⟩, result, hresult⟩ := htest
  obtain ⟨-, rfl⟩ := (image_store_integrity plainLibraries).2 S 1 hS 0 _ _ _ result himport hpath
    hinst hresolve hbefore hresult
  exact ⟨S, hS, hresult⟩

/-- The record of `foo.tmp.123` is installed in the place of the temporary file with which
    process 123 writes the record of `foo`. That process moves it away afterwards. -/
theorem resolve_misses_record :
    ∃ S, (machine plainLibraries).Reach (fun _ e =>
        (callsSucceed 0 e && callsSucceed 1 e && callsSucceed 2 e) = true) initialSystem S ∧
      S.world.requests 1 = some (.imageImport "foo.tmp.123".toList plainArchive) ∧
      S.world.finished 1 = some (.ok plainRootfs) ∧
      S.world.installed "foo.tmp.123".toList = some 1 ∧
      S.world.requests 2 = some (.imageResolve "foo.tmp.123".toList) ∧
      S.world.before 2 1 = true ∧
      S.world.finished 2 = some (.error (errorSet .notFound .system "image-resolve"
        "foo.tmp.123".toList "image name does not exist")) := by
  have hrun : ((machine plainLibraries).runWhile
      (fun _ e => callsSucceed 0 e && callsSucceed 1 e && callsSucceed 2 e)
      (.enter 0 (.imageImport "foo".toList plainArchive) { pid := 123 } :: acts 0 27 ++
        .enter 1 (.imageImport "foo.tmp.123".toList plainArchive) { pid := 200 } :: acts 1 15 ++
        acts 0 5 ++ .enter 2 (.imageResolve "foo.tmp.123".toList) { pid := 201 } :: acts 2 2)
      initialSystem).any (fun S => decide
        (S.world.requests 1 = some (.imageImport "foo.tmp.123".toList plainArchive) ∧
        S.world.finished 1 = some (.ok plainRootfs) ∧
        S.world.installed "foo.tmp.123".toList = some 1 ∧
        S.world.requests 2 = some (.imageResolve "foo.tmp.123".toList) ∧
        S.world.before 2 1 = true ∧
        S.world.finished 2 = some (.error (errorSet .notFound .system "image-resolve"
          "foo.tmp.123".toList "image name does not exist")))) = true := by
    decide +kernel
  obtain ⟨S, hS, htest⟩ := Machine.exists_reach_of_runWhile _ hrun
  exact ⟨S, hS, of_decide_eq_true htest⟩

/-! ## Imports of one archive -/

/-- The imports of interest run beside others that do not disturb them. -/
def importsUndisturbed (ts : List Tid) (S : Sys Op Res Unit World) (e : Event Choice Cmd) : Bool :=
  keepsApart S e && buildsAlone S e && ts.all fun t => temporaryFree t S e && callsSucceed t e

theorem inv_of_importsUndisturbed {lib : Libraries} {ts : List Tid} {S : Sys Op Res Unit World}
    (h : (machine lib).Reach (fun S e => importsUndisturbed ts S e = true) initialSystem S) :
    Inv lib ⟨True, True, fun t => t ∈ ts⟩ S.world := by
  refine inv_of_reach (fun S t ch o k hok hpool => ?_) h
  simp only [importsUndisturbed, Bool.and_eq_true, List.all_eq_true] at hok
  obtain ⟨⟨hapart, halone⟩, hcalls⟩ := hok
  have hpending : S.pending t = some o := by rw [Sys.pending, hpool]; rfl
  exact {
    calm := fun ht => ⟨ch, callsSucceed_act (hcalls t ht).2, rfl⟩
    apart := fun _ source target ho hfolder i hentry hplaced =>
      keepsApart_rename hapart (hpending.trans (congrArg some ho)) hfolder hentry hplaced
    missing := fun _ digest ho hfolder u hu =>
      buildsAlone_accessMarker halone (hpending.trans (congrArg some ho)) hfolder hu
    free := fun _ ht p ho =>
      temporaryFree_create (hcalls t ht).1 (hpending.trans (congrArg some ho)) }

/-- What such an import returns. -/
theorem Inv.import_result {lib : Libraries} {ts : List Tid} {w : World} {t : Tid} {name : Text}
    {archive : ArchiveFile} (h : Inv lib ⟨True, True, fun t => t ∈ ts⟩ w) (ht : t ∈ ts)
    (hrequest : w.requests t = some (.imageImport name archive)) (hname : validName name = true)
    (harchive : Acceptable lib archive.bytes) {result : Except McError Text}
    (hresult : w.finished t = some result) :
    result = .ok (rootfsPath (lib.digest archive.bytes).text) := by
  cases result with
  | error e =>
    exact absurd hresult
      (h.results.succeeds trivial t name archive e ht hrequest hname harchive)
  | ok path => rw [(h.results.imported t name archive path hrequest hresult).2.1]

section SameArchive

variable {lib : Libraries} {t₁ t₂ r : Tid} {n₁ n₂ : Text} {a₁ a₂ : ArchiveFile}
  {S : Sys Op Res Unit World}

/-- Who has installed the record of a name under which an import has returned, when the others
    that use the name had returned before. -/
theorem Inv.installer {w : World} {ts : List Tid} {t u : Tid} {name : Text} {archive : ArchiveFile}
    {path : Text} (h : Inv lib ⟨True, True, fun t => t ∈ ts⟩ w)
    (hrequest : w.requests t = some (.imageImport name archive))
    (hpath : w.finished t = some (.ok path))
    (hothers : ∀ v archive', w.requests v = some (.imageImport name archive') →
      v = t ∨ v = u ∨ w.before t v = true) :
    ∃ v archive', (v = t ∨ v = u) ∧ w.installed name = some v ∧
      w.requests v = some (.imageImport name archive') := by
  obtain ⟨v, hv, hbefore⟩ := (h.results.imported t name archive path hrequest hpath).2.2
  obtain ⟨archive', -, hv', -⟩ := h.installed trivial name v hv
  refine ⟨v, archive', ?_, hv, hv'⟩
  rcases hothers v archive' hv' with hvt | hvu | hreturned
  · exact .inl hvt
  · exact .inr hvu
  · exact nomatch hreturned.symm.trans (hbefore trivial)

/-- Two imports of the same bytes, side by side with any others. As long as no record is renamed
    over the temporary file of an import that runs and no import finds the image missing while
    another one puts it together, both return the same directory, and so does a resolution of
    either name that begins afterwards. -/
theorem imports_share_image (hbytes : a₁.bytes = a₂.bytes) (hn₁ : validName n₁ = true)
    (hn₂ : validName n₂ = true) (harchive : Acceptable lib a₁.bytes)
    (hS : (machine lib).Reach (fun S e => importsUndisturbed [t₁, t₂, r] S e = true)
      initialSystem S)
    (h₁ : S.world.requests t₁ = some (.imageImport n₁ a₁))
    (h₂ : S.world.requests t₂ = some (.imageImport n₂ a₂)) :
    (∀ t, t = t₁ ∨ t = t₂ →
      (∀ result, S.world.finished t = some result →
        result = .ok (rootfsPath (lib.digest a₁.bytes).text)) ∧
      (∀ o k, S.pool t = some (.act o k) →
        ∃ S', (machine lib).Reach (ActsAlone t) S S' ∧ S'.world.finished t ≠ none)) ∧
    ∀ name result, name = n₁ ∨ name = n₂ →
      (∀ u archive, S.world.requests u = some (.imageImport name archive) →
        u = t₁ ∨ u = t₂ ∨ (S.world.before t₁ u = true ∧ S.world.before t₂ u = true)) →
      S.world.requests r = some (.imageResolve name) → S.world.before r t₁ = true →
      S.world.before r t₂ = true → S.world.finished r = some result →
      result = .ok (rootfsPath (lib.digest a₁.bytes).text) := by
  have hi := inv_of_importsUndisturbed hS
  have hreturns : ∀ t, t = t₁ ∨ t = t₂ → ∀ result, S.world.finished t = some result →
      result = .ok (rootfsPath (lib.digest a₁.bytes).text) := by
    intro t ht result hresult
    rcases ht with rfl | rfl
    · exact hi.import_result (by simp) h₁ hn₁ harchive hresult
    · rw [hbytes] at harchive ⊢
      exact hi.import_result (by simp) h₂ hn₂ harchive hresult
  refine ⟨fun t ht => ⟨hreturns t ht, fun o k hp => ?_⟩, ?_⟩
  · obtain ⟨q, hq⟩ := (finishing_of_reach hS hp).resolve_left nofun
    exact exists_returned q .refl (hp.trans (congrArg some hq))
  · intro name result hname hothers hresolve hbefore₁ hbefore₂ hresult
    have hbefore : ∀ t, t = t₁ ∨ t = t₂ → S.world.before r t = true := by
      rintro t (rfl | rfl)
      · exact hbefore₁
      · exact hbefore₂
    have hpath : ∀ t, t = t₁ ∨ t = t₂ →
        S.world.finished t = some (.ok (rootfsPath (lib.digest a₁.bytes).text)) := by
      intro t ht
      obtain ⟨out, hout⟩ := Option.ne_none_iff_exists'.mp (hi.results.before r t (hbefore t ht))
      rw [hout, hreturns t ht out hout]
    -- the record is one of theirs
    obtain ⟨v, archive, hv, hinst, hrequest⟩ : ∃ v archive, (v = t₁ ∨ v = t₂) ∧
        S.world.installed name = some v ∧
        S.world.requests v = some (.imageImport name archive) := by
      rcases hname with rfl | rfl
      · exact hi.installer h₁ (hpath t₁ (.inl rfl)) fun v archive hv =>
          (hothers v archive hv).imp_right (.imp_right And.left)
      · obtain ⟨v, archive, hv, hinst⟩ := hi.installer (u := t₁) h₂ (hpath t₂ (.inr rfl))
          fun v archive hv => by
            rcases hothers v archive hv with h | h | h
            · exact .inr (.inl h)
            · exact .inl h
            · exact .inr (.inr h.2)
        exact ⟨v, archive, hv.symm, hinst⟩
    exact hi.results.resolved trivial r v name archive _ result (by simp) hresolve hrequest
      (hpath v hv) (hbefore v hv) hinst hresult

/-- Only these processes are started. -/
def startsOnly (ts : List Tid) : Event Choice Cmd → Bool
  | .enter t _ _ => ts.contains t
  | _ => true

theorem requests_effect (ch : Choice) (w : World) (t : Tid) (o : Op) :
    (effect ch w t o).2.requests = w.requests := by
  cases o <;> simp only [effect] <;> repeat' split
  all_goals rfl

theorem mem_of_requests {ts : List Tid}
    (h : (machine lib).Reach (fun _ e => startsOnly ts e = true) initialSystem S) {u : Tid}
    (hu : S.world.requests u ≠ none) : u ∈ ts := by
  induction h with
  | refl => exact absurd rfl hu
  | @step S₁ _ _ _ hok hn ih =>
    cases (machine lib).next_inv hn with
    | act hpool hstep hspawn =>
      rename_i t ch o k r' w
      have hw : (effect ch S₁.world t o).2 = w := congrArg Prod.snd (Option.some.inj hstep)
      refine ih ?_
      rw [← requests_effect ch S₁.world t o, hw]
      exact hu
    | fork hpool hstep hspawn hfree => exact nomatch hspawn
    | enter hfree henter =>
      rename_i t c ch w
      have henter' : enter ch S₁.world t c = some w := henter
      unfold enter at henter'
      split at henter'
      · cases henter'
        by_cases hut : u = t
        · rw [hut]
          exact List.contains_iff_mem.mp hok
        · refine ih fun hnone => hu ?_
          show update S₁.world.requests t (some c) u = none
          rw [Function.update_of_ne hut, hnone]
      · exact nomatch henter'
    | kill hpool => exact ih hu
    | env henv => exact nomatch henv

theorem acceptable_plainLibraries (archive : List UInt8) : Acceptable plainLibraries archive :=
  ⟨rfl, fun _ _ he => nomatch he⟩

/-- The second import looks for the image when the first one has published it. -/
theorem imports_share_image_foo_bar :
    ∃ S, (machine plainLibraries).Reach
        (fun S e => importsUndisturbed [0, 1, 2] S e = true) initialSystem S ∧
      S.world.finished 0 = some (.ok plainRootfs) ∧
      S.world.finished 1 = some (.ok plainRootfs) ∧
      S.world.finished 2 = some (.ok plainRootfs) := by
  have hrun : ((machine plainLibraries).runWhile
      (fun S e => importsUndisturbed [0, 1, 2] S e && startsOnly [0, 1, 2] e)
      (.enter 0 (.imageImport "foo".toList plainArchive) { pid := 123 } ::
        .enter 1 (.imageImport "bar".toList plainArchive) { pid := 124 } ::
        acts 0 25 ++ acts 1 14 ++ acts 0 7 ++ acts 1 1 ++
        .enter 2 (.imageResolve "bar".toList) { pid := 125 } :: acts 2 4) initialSystem).any
      (fun S => decide (S.world.requests 0 = some (.imageImport "foo".toList plainArchive)) &&
        decide (S.world.requests 1 = some (.imageImport "bar".toList plainArchive)) &&
        decide (S.world.requests 2 = some (.imageResolve "bar".toList)) &&
        S.world.before 2 0 && S.world.before 2 1 && (S.world.finished 0).isSome &&
        (S.world.finished 1).isSome && (S.world.finished 2).isSome) = true := by
    decide +kernel
  obtain ⟨S, hS, htest⟩ := Machine.exists_reach_of_runWhile _ hrun
  have hstarts := hS.mono _ fun _ _ h => (Bool.and_eq_true_iff.mp h).2
  have hS := hS.mono _ fun _ _ h => (Bool.and_eq_true_iff.mp h).1
  simp only [Bool.and_eq_true, decide_eq_true_eq, Option.isSome_iff_exists] at htest
  obtain ⟨⟨⟨⟨⟨⟨⟨h₀, h₁⟩, h₂⟩, hbefore₀⟩, hbefore₁⟩, x, hx⟩, y, hy⟩, z, hz⟩ := htest
  obtain ⟨hreturns, hresolves⟩ := imports_share_image (r := 2) rfl (by decide) (by decide)
    (acceptable_plainLibraries _) hS h₀ h₁
  refine ⟨S, hS, ?_, ?_, ?_⟩
  · rw [hx, (hreturns 0 (.inl rfl)).1 x hx]
    rfl
  · rw [hy, (hreturns 1 (.inr rfl)).1 y hy]
    rfl
  · refine hz.trans (congrArg some (hresolves "bar".toList z (.inr rfl) (fun u archive hu => ?_) h₂
      hbefore₀ hbefore₁ hz))
    -- no other process was started, and the third one does not import
    have hmem := mem_of_requests hstarts (u := u) (by rw [hu]; exact nofun)
    simp only [List.mem_cons, List.not_mem_nil, or_false] at hmem
    rcases hmem with rfl | rfl | rfl
    · exact .inl rfl
    · exact .inr (.inl rfl)
    · exact nomatch hu.symm.trans h₂

/-- Both imports find the image missing. The second one cannot publish it. -/
theorem second_import_fails :
    ∃ S, (machine plainLibraries).Reach (fun _ e =>
        (callsSucceed 0 e && callsSucceed 1 e) = true) initialSystem S ∧
      S.world.requests 0 = some (.imageImport "foo".toList plainArchive) ∧
      S.world.requests 1 = some (.imageImport "bar".toList plainArchive) ∧
      S.world.finished 0 = some (.ok plainRootfs) ∧
      S.world.finished 1 = some (.error (errorSet .runtime .system "image-import"
        (Folder.image (plainLibraries.digest plainArchive.bytes).text).text
        "cannot publish immutable image")) := by
  have hrun : ((machine plainLibraries).runWhile
      (fun _ e => callsSucceed 0 e && callsSucceed 1 e)
      (.enter 0 (.imageImport "foo".toList plainArchive) { pid := 123 } ::
        .enter 1 (.imageImport "bar".toList plainArchive) { pid := 124 } ::
        acts 0 9 ++ acts 1 9 ++ acts 0 23 ++ acts 1 17) initialSystem).any (fun S => decide
        (S.world.requests 0 = some (.imageImport "foo".toList plainArchive) ∧
        S.world.requests 1 = some (.imageImport "bar".toList plainArchive) ∧
        S.world.finished 0 = some (.ok plainRootfs) ∧
        S.world.finished 1 = some (.error (errorSet .runtime .system "image-import"
          (Folder.image (plainLibraries.digest plainArchive.bytes).text).text
          "cannot publish immutable image")))) = true := by
    decide +kernel
  obtain ⟨S, hS, htest⟩ := Machine.exists_reach_of_runWhile _ hrun
  exact ⟨S, hS, of_decide_eq_true htest⟩

end SameArchive

end MiniContainer.Image
