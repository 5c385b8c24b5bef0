import Mathlib.Data.List.Basic
import Mathlib.Data.List.TakeWhile
import MiniContainer.Native.Logs

/-!
# What a follower prints

The follower has the open file in front of it and, behind that, the files that the pump has
created since: together the bytes that it can still read. Every event keeps the balance
between these, what was printed, and what should be printed, or else it loses bytes for
good. `keeps` says which events do not lose any; a follower that ends has printed the
whole log exactly if all events of the run were of that kind.
-/

namespace MiniContainer.Logs

open Function (update update_apply update_of_ne update_self)

/-! ## Lines -/

theorem firstLine_append_drop (bs : Bytes) :
    firstLine bs ++ bs.drop (firstLine bs).length = bs := by
  induction bs with
  | nil => rfl
  | cons b bs ih =>
    rw [firstLine]
    split
    · rfl
    · exact congrArg (b :: ·) ih

/-- A line was read. -/
theorem getline_some {content line : Bytes} {s s' : Stream}
    (h : getline content s = (some line, s')) :
    s'.file = s.file ∧ content.drop s.position = line ++ content.drop s'.position ∧
      s.position < s'.position ∧ s'.position ≤ content.length := by
  unfold getline at h
  split at h
  · exact nomatch (Prod.mk.inj h).1
  · split at h
    · exact nomatch (Prod.mk.inj h).1
    · rename_i b bs hline
      obtain ⟨hsome, rfl⟩ := Prod.mk.inj h
      cases hsome
      have hsplit := firstLine_append_drop (content.drop s.position)
      rw [hline, List.drop_drop] at hsplit
      refine ⟨rfl, hsplit.symm, by simp, ?_⟩
      -- the line lies within the file
      have hlength := congrArg List.length hsplit
      simp only [List.length_append, List.length_drop, List.length_cons] at hlength ⊢
      omega

theorem getline_none {content : Bytes} {s s' : Stream} (h : getline content s = (none, s')) :
    s'.file = s.file ∧ s'.position = s.position := by
  unfold getline at h
  split at h
  · obtain ⟨-, rfl⟩ := Prod.mk.inj h
    exact ⟨rfl, rfl⟩
  · split at h
    · obtain ⟨-, rfl⟩ := Prod.mk.inj h
      exact ⟨rfl, rfl⟩
    · exact nomatch (Prod.mk.inj h).1

theorem fread_spec {content chunk : Bytes} {s s' : Stream} (h : fread content s = (chunk, s')) :
    s'.file = s.file ∧ content.drop s.position = chunk ++ content.drop s'.position ∧
      (s.position ≤ content.length → s'.position ≤ content.length) := by
  unfold fread at h
  split at h
  · obtain ⟨rfl, rfl⟩ := Prod.mk.inj h
    exact ⟨rfl, rfl, id⟩
  · obtain ⟨rfl, rfl⟩ := Prod.mk.inj h
    refine ⟨rfl, ?_, fun hle => ?_⟩
    · have hsplit := List.take_append_drop bufferSize (content.drop s.position)
      have hdrop : (content.drop s.position).drop bufferSize =
          (content.drop s.position).drop ((content.drop s.position).take bufferSize).length := by
        rw [List.length_take, List.drop_eq_drop_iff]
        omega
      rw [hdrop, List.drop_drop] at hsplit
      exact hsplit.symm
    · simp only [List.length_take, List.length_drop]
      omega

theorem fputs_of_not_mem {line : Bytes} (h : (0 : UInt8) ∉ line) : fputs line = line := by
  refine List.takeWhile_eq_self_iff.mpr fun b hb => ?_
  simp only [ne_eq, decide_not, Bool.not_eq_eq_eq_not, Bool.not_true, decide_eq_false_iff_not]
  rintro rfl
  exact h hb

/-- Behind a null byte nothing is printed. -/
theorem length_fputs_lt {line : Bytes} (h : (0 : UInt8) ∈ line) :
    (fputs line).length < line.length := by
  have hle : (fputs line).length ≤ line.length := (List.takeWhile_sublist _).length_le
  refine Nat.lt_of_le_of_ne hle fun heq => ?_
  have hself : fputs line = line := (List.takeWhile_prefix _).eq_of_length heq
  have hzero := List.takeWhile_eq_self_iff.mp hself 0 h
  exact absurd rfl (of_decide_eq_true hzero)

/-! ## What can still be read -/

namespace State

/-- The files that the pump has created behind this one. -/
def newer (S : State) (file : Nat) : Bytes :=
  (List.range' (file + 1) (S.output - file)).flatMap S.contents

/-- What lies in front of an open file. -/
def unreadFrom (S : State) (s : Stream) : Bytes :=
  (S.contents s.file).drop s.position ++ S.newer s.file

/-- What the follower can still read. -/
def unread (S : State) : Bytes := S.follower.stream.elim [] S.unreadFrom

/-- What a follower skips that turns to the log now. -/
def skipped (S : State) (s : Stream) : Bytes :=
  (S.contents s.file).drop s.position ++
    (List.range' (s.file + 1) (S.output - s.file - 1)).flatMap S.contents

theorem newer_output (S : State) : S.newer S.output = [] := by
  rw [newer, Nat.sub_self]
  rfl

/-- The last of the files is the one that the pump has open. -/
theorem newer_eq_append {S : State} {file : Nat} (h : file < S.output) :
    S.newer file =
      (List.range' (file + 1) (S.output - file - 1)).flatMap S.contents ++ S.contents S.output := by
  have hsucc : S.output - file = (S.output - file - 1) + 1 := by omega
  have hlast : file + 1 + (S.output - file - 1) = S.output := by omega
  rw [newer, hsucc, List.range'_1_concat, List.flatMap_append, Nat.add_sub_cancel, hlast]
  simp only [List.flatMap_singleton]

theorem unread_of_stream {S : State} {s : Stream} (h : S.follower.stream = some s) :
    S.unread = S.unreadFrom s := by
  rw [unread, h, Option.elim_some]

theorem unread_of_none {S : State} (h : S.follower.stream = none) : S.unread = [] := by
  rw [unread, h, Option.elim_none]

theorem unreadFrom_eq_skipped {S : State} {s : Stream} (h : s.file < S.output) :
    S.unreadFrom s = S.skipped s ++ S.contents S.output := by
  rw [unreadFrom, newer_eq_append h, skipped, List.append_assoc]

end State

/-! ## Events that lose nothing -/

/-- The line has no null byte. -/
def shownWhole : Option Bytes → Bool
  | none => true
  | some line => !line.contains 0

/-- The pump loses bytes that it writes when the follower has ended. -/
def pumpKeeps (fault : Bool) (S : State) : Bool :=
  match S.pump, S.follower with
  | .writing _ _, .ended => fault
  | _, _ => true

/-- The follower loses what stands behind a null byte, what it has not read when it ends, and
    what it has not read in front of the log when it turns to the log. -/
def followerKeeps (fault : Bool) (S : State) : Bool :=
  match S.follower with
  | .copying s =>
    match (fread (S.contents s.file) s).1 with
    | [] => (S.unreadFrom s).isEmpty
    | _ :: _ => true
  | .first s _ => shownWhole (getline (S.contents s.file) s).1
  | .following s => shownWhole (getline (S.contents s.file) (clearerr s)).1
  | .checking s => if fault ∨ S.shim ≠ .running then (S.unreadFrom s).isEmpty else true
  | .replacing s => fault || (S.names 0).isNone || (S.skipped s).isEmpty
  | _ => true

/-- The event loses no byte. -/
def keeps (S : State) : Event → Bool
  | .pump fault _ => pumpKeeps fault S
  | .follower fault => followerKeeps fault S
  | _ => true

/-- No event of the run loses a byte. -/
def lossless : List Event → State → Bool
  | [], _ => true
  | e :: es, S =>
    keeps S e &&
      match step S e with
      | none => true
      | some S' => lossless es S'

/-! ## The invariant -/

/-- A detached container runs and nobody follows its log. -/
structure State.Initial (S : State) : Prop where
  path : S.names 0 = some S.output
  newest : S.nextFile = S.output + 1
  size : S.size = (S.contents S.output).length ∨ S.size = 0
  shim : S.shim = .running
  pump : S.pump = .reading
  follower : S.follower = .absent
  tail : S.tail = none
  printed : S.printed = []
  before : S.before = []
  appended : S.appended = []

/-- The pump has something to write. -/
def Pump.loaded : Pump → Prop
  | .unlinking data | .shifting _ data | .moving data | .creating data | .writing _ data =>
    data ≠ []
  | .reading | .ended => True

structure State.Valid (S : State) : Prop where
  newest : S.nextFile = S.output + 1
  path : ∀ f, S.names 0 = some f → f = S.output
  loaded : S.pump.loaded
  stream : ∀ s, S.follower.stream = some s →
    s.file ≤ S.output ∧ s.position ≤ (S.contents s.file).length
  replacing : ∀ s, S.follower = .replacing s → s.file < S.output
  ring : ∀ s ring, S.follower = .first s ring → ring = []
  tail : S.tail = none
  untouched : S.follower.opened = false →
    S.printed = [] ∧ S.before = [] ∧ S.appended = []

theorem State.Initial.valid {S : State} (h : S.Initial) : S.Valid where
  newest := h.newest
  path f hf := Option.some.inj (hf.symm.trans h.path)
  loaded := by rw [h.pump]; trivial
  stream s hs := by rw [h.follower] at hs; exact nomatch hs
  replacing s hs := by rw [h.follower] at hs; exact nomatch hs
  ring s ring hs := by rw [h.follower] at hs; exact nomatch hs
  tail := h.tail
  untouched _ := ⟨h.printed, h.before, h.appended⟩

/-! ## The balance -/

/-- What an event does to the balance between what was printed or can still be read, and what
    should be printed. -/
structure Balanced (S S' : State) (ok : Bool) : Prop where
  kept : ok = true → ∃ d, S'.before ++ S'.appended = S.before ++ S.appended ++ d ∧
    S'.printed ++ S'.unread = S.printed ++ S.unread ++ d
  lost : ok = false →
    S'.printed.length + S'.unread.length + (S.before.length + S.appended.length) <
      S.printed.length + S.unread.length + (S'.before.length + S'.appended.length)

/-- An event that the follower does not notice. -/
theorem Balanced.of_eq {S S' : State} {ok : Bool} (hok : ok = true)
    (hbefore : S'.before = S.before) (happended : S'.appended = S.appended)
    (hprinted : S'.printed = S.printed) (hunread : S'.unread = S.unread) :
    Balanced S S' ok where
  kept _ := ⟨[], by rw [hbefore, happended, List.append_nil], by
    rw [hprinted, hunread, List.append_nil]⟩
  lost h := nomatch hok.symm.trans h

/-- An event by which the follower takes bytes from what it can read. -/
theorem Balanced.of_read {S S' : State} {ok : Bool} {read shown rest : Bytes}
    (hbefore : S'.before = S.before) (happended : S'.appended = S.appended)
    (hprinted : S'.printed = S.printed ++ shown) (hunread : S.unread = read ++ rest)
    (hunread' : S'.unread = rest) (hkept : ok = true → shown = read)
    (hlost : ok = false → shown.length < read.length) : Balanced S S' ok where
  kept hok := ⟨[], by rw [hbefore, happended, List.append_nil], by
    rw [hprinted, hunread, hunread', hkept hok, List.append_assoc, List.append_nil]⟩
  lost hok := by
    have hlt := hlost hok
    rw [hbefore, happended, hprinted, hunread, hunread', List.length_append, List.length_append]
    omega

/-! ## The pump -/

/-- What a call of the pump can do. -/
inductive PumpStep (fault : Bool) (S : State) : State → Prop where
  | idle {names : Nat → Option Nat} {pipe : Bytes} {pump : Pump}
      (hpath : ∀ f, names 0 = some f → S.names 0 = some f) (hloaded : S.pump.loaded → pump.loaded)
      (hfree : ∀ n rest, S.pump = .writing n rest → fault = true) :
      PumpStep fault S { S with names := names, pipe := pipe, pump := pump }
  | reuse {f : Nat} {data : Bytes} (hpump : S.pump = .creating data) (hpath : S.names 0 = some f) :
      PumpStep fault S { S with
        size := 0, output := f, pump := .writing data.length data }
  | create {data : Bytes} (hpump : S.pump = .creating data) :
      PumpStep fault S { S with
        names := update S.names 0 (some S.nextFile)
        contents := update S.contents S.nextFile []
        output := S.nextFile
        nextFile := S.nextFile + 1
        size := 0, pump := .writing data.length data }
  | append {chunk : Bytes} {n total size : Nat} {rest : Bytes} {pump : Pump}
      (hpump : S.pump = .writing total rest) (hchunk : chunk = rest.take (n + 1))
      (hloaded : pump.loaded) (hfault : fault = false) :
      PumpStep fault S { S with
        contents := update S.contents S.output (S.contents S.output ++ chunk)
        appended := if S.follower.opened then S.appended ++ chunk else S.appended
        size := size, pump := pump }

theorem renameLog_eq {fault : Bool} {S S' : State} {source target : Nat}
    (h : renameLog fault S source target = some S') (htarget : target ≠ 0) :
    ∃ names, S' = { S with names := names } ∧ ∀ f, names 0 = some f → S.names 0 = some f := by
  unfold renameLog at h
  split at h
  · cases h
    exact ⟨S.names, rfl, fun _ hf => hf⟩
  · split at h
    · exact nomatch h
    · cases h
      refine ⟨_, rfl, fun f hf => ?_⟩
      rw [update_of_ne htarget.symm, update_apply] at hf
      split at hf
      · exact nomatch hf
      · exact hf

/-- One call of the pump is one of these steps. -/
theorem logPump_inv {fault : Bool} {count : Nat} {S S' : State}
    (h : logPump fault count S = some S') : PumpStep fault S S' := by
  unfold logPump at h
  cases hp : S.pump with
  | reading =>
    rw [hp] at h
    dsimp only at h
    have hfree : ∀ n rest, S.pump = .writing n rest → fault = true := fun _ _ hw =>
      nomatch hp.symm.trans hw
    split at h
    · cases h
      exact .idle (fun _ hf => hf) (fun _ => trivial) hfree
    · split at h
      · split at h
        · cases h
          exact .idle (fun _ hf => hf) (fun _ => trivial) hfree
        · exact nomatch h
      · cases h
        refine .idle (fun _ hf => hf) (fun _ => ?_) hfree
        split <;> exact List.cons_ne_nil _ _
  | unlinking data =>
    rw [hp] at h
    cases h
    refine .idle (fun f hf => ?_) (fun hl => ?_) fun n rest hw => nomatch hp.symm.trans hw
    · split at hf
      · exact hf
      · rwa [update_of_ne (by decide)] at hf
    · rw [hp] at hl
      exact hl
  | shifting index data =>
    rw [hp] at h
    dsimp only at h
    have hfree : ∀ n rest, S.pump = .writing n rest → fault = true := fun _ _ hw =>
      nomatch hp.symm.trans hw
    split at h
    · cases h
      exact .idle (fun _ hf => hf) (fun _ => trivial) hfree
    · rename_i S₁ hrename
      obtain ⟨names, rfl, hnames⟩ := renameLog_eq hrename (Nat.succ_ne_zero index)
      cases h
      refine .idle hnames (fun hl => ?_) hfree
      rw [hp] at hl
      split <;> exact hl
  | moving data =>
    rw [hp] at h
    dsimp only at h
    have hfree : ∀ n rest, S.pump = .writing n rest → fault = true := fun _ _ hw =>
      nomatch hp.symm.trans hw
    split at h
    · cases h
      exact .idle (fun _ hf => hf) (fun _ => trivial) hfree
    · rename_i S₁ hrename
      obtain ⟨names, rfl, hnames⟩ := renameLog_eq hrename Nat.one_ne_zero
      cases h
      refine .idle hnames (fun hl => ?_) hfree
      rw [hp] at hl
      exact hl
  | creating data =>
    rw [hp] at h
    dsimp only at h
    split at h
    · cases h
      exact .idle (fun _ hf => hf) (fun _ => trivial) fun n rest hw => nomatch hp.symm.trans hw
    · split at h
      · rename_i hpath
        cases h
        exact .reuse hp hpath
      · cases h
        exact .create hp
  | writing total rest =>
    rw [hp] at h
    dsimp only at h
    split at h
    · rename_i hfault
      cases h
      exact .idle (fun _ hf => hf) (fun _ => trivial) fun _ _ _ => hfault
    · rename_i hfault
      have hfault := eq_false_of_ne_true hfault
      split at h
      · cases h
        exact .append hp rfl trivial hfault
      · cases h
        exact .append hp rfl (List.cons_ne_nil _ _) hfault
  | ended =>
    rw [hp] at h
    exact nomatch h

theorem PumpStep.valid {fault : Bool} {S S' : State} (h : PumpStep fault S S') (hv : S.Valid) :
    S'.Valid := by
  cases h with
  | idle hpath hloaded _ =>
    exact { hv with
      path := fun f hf => hv.path f (hpath f hf)
      loaded := hloaded hv.loaded }
  | reuse hpump hpath =>
    rename_i f data
    obtain rfl := hv.path f hpath
    have hloaded := hv.loaded
    rw [hpump] at hloaded
    exact { hv with loaded := hloaded }
  | create hpump =>
    have hloaded := hv.loaded
    rw [hpump] at hloaded
    have hnext := hv.newest
    exact { hv with
      newest := rfl
      path := fun f hf => by
        change update S.names 0 (some S.nextFile) 0 = some f at hf
        rw [update_self] at hf
        exact (Option.some.inj hf).symm
      loaded := hloaded
      stream := fun s hs => by
        obtain ⟨hle, hpos⟩ := hv.stream s hs
        have hne : s.file ≠ S.nextFile := by omega
        refine ⟨show s.file ≤ S.nextFile by omega, ?_⟩
        show s.position ≤ (update S.contents S.nextFile [] s.file).length
        rwa [update_of_ne hne]
      replacing := fun s hs => by
        have hlt := hv.replacing s hs
        show s.file < S.nextFile
        omega }
  | append hpump hchunk hloaded _ =>
    exact { hv with
      loaded := hloaded
      stream := fun s hs => by
        obtain ⟨hle, hpos⟩ := hv.stream s hs
        refine ⟨hle, ?_⟩
        show s.position ≤ (update S.contents S.output _ s.file).length
        rw [update_apply]
        split
        · rename_i hfile
          rw [hfile] at hpos
          rw [List.length_append]
          omega
        · exact hpos
      untouched := fun hopened => by
        obtain ⟨hprinted, hbefore, happended⟩ := hv.untouched hopened
        refine ⟨hprinted, hbefore, ?_⟩
        show (if S.follower.opened then _ else _) = _
        rw [if_neg (by rw [show S.follower.opened = false from hopened]; exact nofun)]
        exact happended }

/-- A new file is empty. -/
theorem unreadFrom_create {S S' : State} {s : Stream} (hs : s.file ≤ S.output)
    (houtput : S'.output = S.output + 1)
    (hcontents : S'.contents = update S.contents (S.output + 1) []) :
    S'.unreadFrom s = S.unreadFrom s := by
  have hold : ∀ f, f ≤ S.output → S'.contents f = S.contents f := by
    intro f hf
    rw [hcontents, update_of_ne (by omega)]
  have hcount : S'.output - s.file - 1 = S.output - s.file := by omega
  rw [State.unreadFrom, State.newer_eq_append (by omega), hold _ hs, hcount, State.unreadFrom,
    State.newer, houtput, hcontents, update_self, List.append_nil, ← hcontents]
  congr 1
  refine List.flatMap_congr fun f hf => hold f ?_
  have hrange := List.mem_range'_1.mp hf
  omega

/-- What is appended to the log is read last. -/
theorem unreadFrom_append {S S' : State} {s : Stream} {chunk : Bytes} (hs : s.file ≤ S.output)
    (hpos : s.position ≤ (S.contents s.file).length) (houtput : S'.output = S.output)
    (hcontents : S'.contents = update S.contents S.output (S.contents S.output ++ chunk)) :
    S'.unreadFrom s = S.unreadFrom s ++ chunk := by
  have hold : ∀ f, f ≠ S.output → S'.contents f = S.contents f := by
    intro f hf
    rw [hcontents, update_of_ne hf]
  have hnew : S'.contents S.output = S.contents S.output ++ chunk := by
    rw [hcontents, update_self]
  by_cases heq : s.file = S.output
  · have hnewer : S'.newer S.output = [] := by rw [← houtput, State.newer_output]
    rw [heq] at hpos
    rw [State.unreadFrom, State.unreadFrom, heq, hnewer, State.newer_output, hnew,
      List.drop_append_of_le_length hpos, List.append_nil, List.append_nil]
  · have hlt : s.file < S.output := by omega
    rw [State.unreadFrom_eq_skipped (houtput ▸ hlt), State.unreadFrom_eq_skipped hlt,
      List.append_assoc, houtput, hnew]
    congr 1
    rw [State.skipped, State.skipped, hold _ heq, houtput]
    congr 1
    refine List.flatMap_congr fun f hf => hold f ?_
    have hrange := List.mem_range'_1.mp hf
    omega

theorem pumpKeeps_of_free {fault : Bool} {S : State}
    (h : ∀ n rest, S.pump = .writing n rest → fault = true) : pumpKeeps fault S = true := by
  unfold pumpKeeps
  split
  · rename_i n rest hpump hfollower
    exact h n rest hpump
  · rfl

theorem PumpStep.balanced {fault : Bool} {S S' : State} (h : PumpStep fault S S') (hv : S.Valid) :
    Balanced S S' (pumpKeeps fault S) := by
  cases h with
  | idle _ _ hfree => exact .of_eq (pumpKeeps_of_free hfree) rfl rfl rfl rfl
  | reuse hpump hpath =>
    rename_i f data
    obtain rfl := hv.path f hpath
    exact .of_eq (pumpKeeps_of_free fun _ _ hw => nomatch hpump.symm.trans hw) rfl rfl rfl rfl
  | create hpump =>
    refine .of_eq (pumpKeeps_of_free fun _ _ hw => nomatch hpump.symm.trans hw) rfl rfl rfl ?_
    cases hs : S.follower.stream with
    | none => simp only [State.unread, hs, Option.elim_none]
    | some s =>
      simp only [State.unread, hs, Option.elim_some]
      exact unreadFrom_create (hv.stream s hs).1 hv.newest (by rw [hv.newest])
  | append hpump hchunk hloaded hfault =>
    rename_i chunk n total size rest pump
    have hne : chunk ≠ [] := by
      have hrest := hv.loaded
      rw [hpump] at hrest
      subst hchunk
      exact fun hnil => hrest (List.take_eq_nil_iff.mp hnil |>.resolve_left (Nat.succ_ne_zero n))
    cases hs : S.follower.stream with
    | some s =>
      -- the file is read to its end later
      have hkeeps : pumpKeeps fault S = true := by
        unfold pumpKeeps
        split
        · rename_i hended
          rw [hended] at hs
          exact nomatch hs
        · rfl
      have hopened : S.follower.opened = true := by simp only [Follower.opened, hs, Option.isSome,
        Bool.true_or]
      refine ⟨fun _ => ⟨chunk, ?_, ?_⟩, fun hlost => nomatch hkeeps.symm.trans hlost⟩
      · show S.before ++ (if S.follower.opened then _ else _) = _
        rw [if_pos hopened, List.append_assoc]
      · simp only [State.unread, hs, Option.elim_some, List.append_assoc]
        exact congrArg (S.printed ++ ·)
          (unreadFrom_append (hv.stream s hs).1 (hv.stream s hs).2 rfl rfl)
    | none =>
      by_cases hended : S.follower = .ended
      · -- nobody reads it
        have hlost : pumpKeeps fault S = false := by
          simp only [pumpKeeps, hpump, hended, hfault]
        refine ⟨fun hkept => (nomatch hkept.symm.trans hlost), fun _ => ?_⟩
        have happended : (if S.follower.opened then S.appended ++ chunk else S.appended) =
            S.appended ++ chunk := if_pos (by simp [Follower.opened, hended])
        have hpos := List.length_pos_of_ne_nil hne
        simp only [State.unread, hs, Option.elim_none, happended, List.length_append]
        omega
      · -- nobody follows the log yet
        have hopened : S.follower.opened = false := by
          simp [Follower.opened, hs, hended]
        have hkeeps : pumpKeeps fault S = true := by
          unfold pumpKeeps
          split
          · rename_i hended'
            exact absurd hended' hended
          · rfl
        refine .of_eq hkeeps rfl (if_neg ?_) rfl ?_
        · rw [hopened]
          exact nofun
        · simp only [State.unread, hs, Option.elim_none]

/-! ## The follower -/

/-- What a call of the follower can do, and whether it loses nothing. -/
inductive FollowerStep (S : State) : Bool → State → Prop where
  /-- The log is opened. -/
  | opens {f : Nat} {follower : Follower} (hnew : S.follower.opened = false)
      (hpath : S.names 0 = some f) (hstream : follower.stream = some { file := f })
      (hring : ∀ s ring, follower = .first s ring → ring = [])
      (hreplacing : ∀ s, follower ≠ .replacing s) :
      FollowerStep S true (S.openLog f follower)
  /-- The log cannot be opened. -/
  | waits {follower : Follower} (hold : S.follower.opened = false)
      (hnew : follower = .fallback ∨ follower = .refused) :
      FollowerStep S true { S with follower := follower }
  /-- Bytes are read and some of them are printed. -/
  | prints {ok : Bool} {s s' : Stream} {read shown : Bytes} {follower : Follower}
      (hold : S.follower.stream = some s) (hstream : follower.stream = some s')
      (hfile : s'.file = s.file)
      (hread : (S.contents s.file).drop s.position = read ++ (S.contents s.file).drop s'.position)
      (hpos : s.position ≤ (S.contents s.file).length →
        s'.position ≤ (S.contents s.file).length)
      (hring : ∀ s ring, follower = .first s ring → ring = [])
      (hreplacing : ∀ s, follower = .replacing s → S.names 0 ≠ none ∧ S.names 0 ≠ some s.file)
      (hkept : ok = true → shown = read) (hlost : ok = false → shown.length < read.length) :
      FollowerStep S ok { S with printed := S.printed ++ shown, follower := follower }
  /-- The follower turns to the log. -/
  | replaces {ok : Bool} {s : Stream} {f : Nat} (hold : S.follower = .replacing s)
      (hpath : S.names 0 = some f) (hok : ok = (S.skipped s).isEmpty) :
      FollowerStep S ok { S with follower := .following { file := f } }
  | ends {ok : Bool} {s : Stream} (hold : S.follower.stream = some s)
      (hok : ok = (S.unreadFrom s).isEmpty) : FollowerStep S ok { S with follower := .ended }

theorem FollowerStep.valid {S S' : State} {ok : Bool} (h : FollowerStep S ok S') (hv : S.Valid) :
    S'.Valid := by
  cases h with
  | opens hnew hpath hstream hring hreplacing =>
    rename_i f follower
    obtain rfl := hv.path f hpath
    obtain ⟨hprinted, hbefore, happended⟩ := hv.untouched hnew
    exact { hv with
      stream := fun s hs => by
        obtain rfl := Option.some.inj (hstream.symm.trans hs)
        exact ⟨Nat.le_refl _, Nat.zero_le _⟩
      replacing := fun s hs => absurd hs (hreplacing s)
      ring := hring
      untouched := fun hopened => by
        change follower.opened = false at hopened
        simp [Follower.opened, hstream] at hopened }
  | waits hold hnew =>
    rcases hnew with rfl | rfl
    all_goals
      exact { hv with
        stream := nofun
        replacing := nofun
        ring := nofun
        untouched := fun _ => hv.untouched hold }
  | prints hold hstream hfile hread hpos hring hreplacing hkept hlost =>
    rename_i s s' read shown follower
    obtain ⟨hle, hposs⟩ := hv.stream s hold
    exact { hv with
      stream := fun s₁ hs₁ => by
        obtain rfl := Option.some.inj (hstream.symm.trans hs₁)
        rw [hfile]
        exact ⟨hle, hpos hposs⟩
      replacing := fun s₁ hs₁ => by
        change follower = .replacing s₁ at hs₁
        subst hs₁
        obtain rfl := Option.some.inj hstream
        obtain ⟨hsome, hne⟩ := hreplacing _ rfl
        obtain ⟨f, hf⟩ := Option.ne_none_iff_exists'.mp hsome
        have hne' : s₁.file ≠ S.output := by
          rw [hf, hv.path f hf] at hne
          exact fun h => hne (congrArg some h.symm)
        show s₁.file < S.output
        omega
      ring := hring
      untouched := fun hopened => by
        change follower.opened = false at hopened
        simp [Follower.opened, hstream] at hopened }
  | replaces hold hpath hok =>
    rename_i s f
    obtain rfl := hv.path f hpath
    exact { hv with
      stream := fun s₁ hs₁ => by
        cases hs₁
        exact ⟨Nat.le_refl _, Nat.zero_le _⟩
      replacing := nofun
      ring := nofun
      untouched := nofun }
  | ends hold hok =>
    exact { hv with
      stream := nofun
      replacing := nofun
      ring := nofun
      untouched := nofun }

theorem Follower.stream_of_not_opened {f : Follower} (h : f.opened = false) : f.stream = none := by
  cases hs : f.stream with
  | none => rfl
  | some s => simp [Follower.opened, hs] at h

theorem FollowerStep.balanced {S S' : State} {ok : Bool} (h : FollowerStep S ok S')
    (hv : S.Valid) : Balanced S S' ok := by
  cases h with
  | opens hnew hpath hstream hring hreplacing =>
    rename_i f follower
    obtain rfl := hv.path f hpath
    obtain ⟨hprinted, hbefore, happended⟩ := hv.untouched hnew
    refine ⟨fun _ => ⟨S.contents S.output, ?_, ?_⟩, nofun⟩
    · show S.contents S.output ++ S.appended = _
      rw [happended, hbefore, List.append_nil]
      rfl
    · -- the log is the newest file
      rw [State.unread_of_stream hstream,
        State.unread_of_none (Follower.stream_of_not_opened hnew)]
      show S.printed ++ ((S.contents S.output).drop 0 ++ S.newer S.output) = _
      rw [State.newer_output, List.append_nil, List.append_nil]
      rfl
  | waits hold hnew =>
    refine .of_eq rfl rfl rfl rfl ?_
    rw [State.unread_of_none (Follower.stream_of_not_opened hold)]
    rcases hnew with rfl | rfl
    · exact State.unread_of_none rfl
    · exact State.unread_of_none rfl
  | prints hold hstream hfile hread hpos hring hreplacing hkept hlost =>
    rename_i s s' read shown follower
    refine .of_read rfl rfl rfl ?_ (State.unread_of_stream hstream) hkept hlost
    show _ = read ++ S.unreadFrom s'
    rw [State.unread_of_stream hold, State.unreadFrom, hread, State.unreadFrom, hfile,
      List.append_assoc]
  | replaces hold hpath hok =>
    rename_i s f
    obtain rfl := hv.path f hpath
    have hunread : S.unread = S.skipped s ++ S.contents S.output := by
      rw [State.unread_of_stream (s := s) (by rw [hold]; rfl),
        State.unreadFrom_eq_skipped (hv.replacing s hold)]
    refine .of_read rfl rfl (List.append_nil _).symm hunread ?_ (fun h => ?_) fun h => ?_
    · rw [State.unread_of_stream rfl]
      show (S.contents S.output).drop 0 ++ S.newer S.output = _
      rw [State.newer_output, List.append_nil]
      rfl
    · rw [hok, List.isEmpty_iff] at h
      exact h.symm
    · rw [hok, List.isEmpty_eq_false_iff] at h
      exact List.length_pos_of_ne_nil h
  | ends hold hok =>
    rename_i s
    have hunread : S.unread = S.unreadFrom s ++ [] := by
      rw [State.unread_of_stream hold, List.append_nil]
    refine .of_read rfl rfl (List.append_nil _).symm hunread (State.unread_of_none rfl)
      (fun h => ?_) fun h => ?_
    · rw [hok, List.isEmpty_iff] at h
      exact h.symm
    · rw [hok, List.isEmpty_eq_false_iff] at h
      exact List.length_pos_of_ne_nil h

/-- A call by which nothing is read. -/
theorem FollowerStep.goes {S : State} {s s' : Stream} {follower : Follower}
    (hold : S.follower.stream = some s) (hstream : follower.stream = some s')
    (hfile : s'.file = s.file) (hpos : s'.position = s.position)
    (hring : ∀ s ring, follower = .first s ring → ring = [])
    (hreplacing : ∀ s, follower = .replacing s → S.names 0 ≠ none ∧ S.names 0 ≠ some s.file) :
    FollowerStep S true { S with follower := follower } := by
  have hstep : FollowerStep S true
      { S with printed := S.printed ++ [], follower := follower } :=
    .prints hold hstream hfile (by rw [hpos]; rfl) (fun h => by rwa [hpos]) hring hreplacing
      (fun _ => rfl) nofun
  rwa [List.append_nil] at hstep

theorem shownWhole_eq {line : Bytes} :
    (shownWhole (some line) = true → fputs line = line) ∧
      (shownWhole (some line) = false → (fputs line).length < line.length) := by
  constructor
  · intro h
    exact fputs_of_not_mem (by simpa [shownWhole] using h)
  · intro h
    exact length_fputs_lt (by simpa [shownWhole] using h)

/-- One call of the follower is one of these steps. -/
theorem showLog_inv {fault : Bool} {S S' : State} (hv : S.Valid)
    (h : showLog fault S = some S') : FollowerStep S (followerKeeps fault S) S' := by
  unfold showLog at h
  unfold followerKeeps
  cases hf : S.follower with
  | absent | ended | refused =>
    rw [hf] at h
    exact nomatch h
  | fallback =>
    rw [hf] at h
    dsimp only at h ⊢
    have hnew : S.follower.opened = false := by rw [hf]; rfl
    split at h
    · cases h
      exact .waits hnew (.inr rfl)
    · rename_i f hpath
      cases h
      exact .opens hnew hpath rfl nofun nofun
  | copying s =>
    rw [hf] at h
    dsimp only at h ⊢
    have hold : S.follower.stream = some s := by rw [hf]; rfl
    split at h
    · rename_i s' hread
      cases h
      rw [hread]
      exact .ends hold rfl
    · rename_i b bs s' hread
      obtain ⟨hfile, hsplit, hpos⟩ := fread_spec hread
      cases h
      rw [hread]
      exact .prints hold rfl hfile hsplit hpos nofun nofun (fun _ => rfl) nofun
  | first s ring =>
    rw [hf] at h
    dsimp only at h ⊢
    have hold : S.follower.stream = some s := by rw [hf]; rfl
    obtain rfl := hv.ring s ring hf
    split at h
    · rename_i s' hline
      obtain ⟨hfile, hpos⟩ := getline_none hline
      cases h
      rw [hline, List.flatMap_nil, List.append_nil]
      exact .goes hold rfl hfile hpos nofun nofun
    · rename_i line s' hline
      obtain ⟨hfile, hsplit, -, hpos⟩ := getline_some hline
      split at h
      · cases h
        rw [hline]
        have hstream : (Follower.first s' []).stream = some s' := rfl
        refine .prints hold hstream hfile hsplit (fun _ => hpos) ?_ nofun shownWhole_eq.1
          shownWhole_eq.2
        rintro _ _ ⟨⟩
        rfl
      · rename_i htail
        exact nomatch htail.symm.trans hv.tail
  | following s =>
    rw [hf] at h
    dsimp only at h ⊢
    have hold : S.follower.stream = some s := by rw [hf]; rfl
    split at h
    · rename_i s' hline
      obtain ⟨hfile, hpos⟩ := getline_none hline
      cases h
      rw [hline]
      exact .goes hold rfl hfile hpos nofun nofun
    · rename_i line s' hline
      obtain ⟨hfile, hsplit, -, hpos⟩ := getline_some hline
      cases h
      rw [hline]
      exact .prints hold rfl hfile hsplit (fun _ => hpos) nofun nofun shownWhole_eq.1
        shownWhole_eq.2
  | checking s =>
    rw [hf] at h
    dsimp only at h ⊢
    have hold : S.follower.stream = some s := by rw [hf]; rfl
    split at h
    · rename_i hend
      cases h
      rw [if_pos hend]
      exact .ends hold rfl
    · rename_i hend
      cases h
      rw [if_neg hend]
      exact .goes hold rfl rfl rfl nofun nofun
  | comparing s =>
    rw [hf] at h
    dsimp only at h ⊢
    have hold : S.follower.stream = some s := by rw [hf]; rfl
    split at h
    · cases h
      exact .goes hold rfl rfl rfl nofun nofun
    · rename_i hdiffers
      cases h
      simp only [not_or] at hdiffers
      refine .goes hold rfl rfl rfl nofun ?_
      rintro _ ⟨⟩
      exact hdiffers.2
  | replacing s =>
    rw [hf] at h
    dsimp only at h ⊢
    have hold : S.follower.stream = some s := by rw [hf]; rfl
    split at h
    · rename_i hnone
      cases h
      rw [hnone, Option.isNone_none, Bool.or_true, Bool.true_or]
      exact .goes hold rfl rfl rfl nofun nofun
    · rename_i f hpath
      cases h
      cases fault with
      | true =>
        rw [if_pos rfl]
        exact .goes hold rfl rfl rfl nofun nofun
      | false =>
        rw [hpath]
        exact .replaces hf hpath rfl

/-! ## Runs -/

theorem attach_inv {S S' : State} (hv : S.Valid) (h : attach none S = some S') :
    FollowerStep S true S' := by
  have htail : { S with tail := none } = S := by rw [← hv.tail]
  unfold attach at h
  rw [htail] at h
  split at h
  · rename_i hf
    have hnew : S.follower.opened = false := by rw [hf]; rfl
    split at h
    · rw [← hv.tail] at h
      cases h
      exact .waits hnew (.inl rfl)
    · rename_i f hpath
      cases h
      have hstream : (Follower.first { file := f } []).stream = some { file := f } := rfl
      refine .opens hnew hpath hstream ?_ nofun
      rintro _ _ ⟨⟩
      rfl
  · exact nomatch h

/-- One event. -/
theorem step_balanced {S S' : State} {e : Event} (hv : S.Valid) (he : ∀ n, e ≠ .attach (some n))
    (h : step S e = some S') : S'.Valid ∧ Balanced S S' (keeps S e) := by
  cases e with
  | workload data =>
    simp only [step] at h
    split at h
    · exact nomatch h
    · cases h
      exact ⟨{ hv with }, .of_eq rfl rfl rfl rfl rfl⟩
  | record | close =>
    simp only [step] at h
    split at h
    · cases h
      exact ⟨{ hv with }, .of_eq rfl rfl rfl rfl rfl⟩
    · exact nomatch h
  | pump fault count =>
    have hstep := logPump_inv h
    exact ⟨hstep.valid hv, hstep.balanced hv⟩
  | attach tail =>
    cases tail with
    | none =>
      have hstep := attach_inv hv h
      exact ⟨hstep.valid hv, hstep.balanced hv⟩
    | some n => exact absurd rfl (he n)
  | follower fault =>
    have hstep := showLog_inv hv h
    exact ⟨hstep.valid hv, hstep.balanced hv⟩

/-- A whole run: the balance is kept as long as no event loses a byte, and once lost it does not
    come back. -/
theorem run_balanced {es : List Event} {S S' : State} (hv : S.Valid)
    (hes : ∀ n, .attach (some n) ∉ es) (h : run es S = some S') :
    S'.Valid ∧
    (lossless es S = true → S.printed ++ S.unread = S.before ++ S.appended →
      S'.printed ++ S'.unread = S'.before ++ S'.appended) ∧
    S'.printed.length + S'.unread.length + (S.before.length + S.appended.length) +
        (if lossless es S then 0 else 1) ≤
      S.printed.length + S.unread.length + (S'.before.length + S'.appended.length) := by
  induction es generalizing S with
  | nil =>
    cases h
    exact ⟨hv, fun _ heq => heq, by simp [lossless]⟩
  | cons e es ih =>
    simp only [run] at h
    split at h
    · exact nomatch h
    · rename_i S₁ hstep
      have he : ∀ n, e ≠ .attach (some n) := fun n hn => hes n (hn ▸ List.mem_cons_self)
      obtain ⟨hv₁, hkept, hlost⟩ := step_balanced hv he hstep
      obtain ⟨hv', heq, hle⟩ := ih hv₁ (fun n hn => hes n (List.mem_cons_of_mem _ hn)) h
      have hlossless : lossless (e :: es) S = (keeps S e && lossless es S₁) := by
        rw [lossless, hstep]
      rw [hlossless]
      cases hk : keeps S e with
      | true =>
        obtain ⟨d, hd, hd'⟩ := hkept hk
        refine ⟨hv', fun hall hbalance => heq hall ?_, ?_⟩
        · rw [hd', hd, hbalance]
        · -- as many bytes more on either side
          have hlength := congrArg List.length hd
          have hlength' := congrArg List.length hd'
          simp only [List.length_append] at hlength hlength'
          rw [Bool.true_and]
          omega
      | false =>
        have hlt := hlost hk
        refine ⟨hv', nofun, ?_⟩
        rw [Bool.false_and, if_neg nofun]
        omega

/-- A follower that has ended has printed the log as it was when it was opened, and then every
    byte that the pump has appended since, exactly if no event has lost a byte. -/
theorem follower_prints_all_iff {S₀ S : State} {es : List Event} (h₀ : S₀.Initial)
    (hes : ∀ n, .attach (some n) ∉ es) (hrun : run es S₀ = some S) (hended : S.follower = .ended) :
    S.printed = S.before ++ S.appended ↔ lossless es S₀ = true := by
  obtain ⟨hv, heq, hle⟩ := run_balanced h₀.valid hes hrun
  have hunread₀ : S₀.unread = [] := State.unread_of_none (by rw [h₀.follower]; rfl)
  have hunread : S.unread = [] := State.unread_of_none (by rw [hended]; rfl)
  rw [hunread₀, h₀.printed, h₀.before, h₀.appended, hunread] at heq
  rw [hunread₀, h₀.printed, h₀.before, h₀.appended, hunread] at hle
  constructor
  · intro hall
    by_contra hnot
    rw [if_neg hnot] at hle
    have hlength := congrArg List.length hall
    rw [List.length_append] at hlength
    simp only [List.length_nil] at hle
    omega
  · intro hall
    rw [← heq hall rfl, List.append_nil]

/-! ## The end of the follower -/

/-- Left alone, the follower ends. -/
def Ends (S : State) : Prop :=
  ∃ n S', run (List.replicate n (.follower false)) S = some S' ∧ S'.follower = .ended

section Ends

variable {S S' : State} {s : Stream}

end Ends

/-- A container has just been started. -/
def startedLog : State where
  names := update (fun _ => none) 0 (some 0)
  contents _ := []
  nextFile := 1
  pipe := []
  shim := .running
  pump := .reading
  output := 0
  size := 0
  follower := .absent
  tail := none
  printed := []
  before := []
  appended := []

theorem initial_startedLog : startedLog.Initial :=
  ⟨rfl, rfl, .inl rfl, rfl, rfl, rfl, rfl, rfl, rfl, rfl⟩

/-- The follower meets the end of the log, the container writes a line, and the follower reads it
    before it looks at the status again. -/
def followedRun : List Event :=
  [.attach none, .follower false, .follower false, .workload [104, 105, 10], .pump false 9,
    .pump false 1, .pump false 0, .follower false, .follower false, .follower false,
    .follower false, .record, .close, .pump false 0, .follower false]

theorem follower_prints_all_line :
    ∃ S, run followedRun startedLog = some S ∧ S.follower = .ended ∧ S.pump = .ended ∧
      S.appended = [104, 105, 10] ∧ S.printed = S.before ++ S.appended := by
  have hrun : ((run followedRun startedLog).any fun S =>
      S.follower = .ended ∧ S.pump = .ended ∧ S.appended = [104, 105, 10]) = true := by
    decide
  obtain ⟨S, hS, htest⟩ := (Option.any_eq_true _ _).mp hrun
  obtain ⟨hended, hpump, happended⟩ := of_decide_eq_true htest
  exact ⟨S, hS, hended, hpump, happended,
    (follower_prints_all_iff initial_startedLog (by simp [followedRun]) hS hended).mpr (by decide)⟩

/-- The follower meets the end of the log before the pump has written the last line, and finds
    that the container has ended. -/
theorem follower_misses_line :
    ∃ es S, startedLog.Initial ∧ run es startedLog = some S ∧ S.follower = .ended ∧
      S.pump = .ended ∧ S.before ++ S.appended = [104, 105, 10] ∧ S.printed = [] := by
  have hrun : ((run [.attach none, .follower false, .follower false, .workload [104, 105, 10],
      .record, .follower false, .pump false 9, .pump false 9, .close, .pump false 0]
      startedLog).any fun S => S.follower = .ended ∧ S.pump = .ended ∧
        S.before ++ S.appended = [104, 105, 10] ∧ S.printed = []) = true := by
    decide
  obtain ⟨S, hS, htest⟩ := (Option.any_eq_true _ _).mp hrun
  exact ⟨_, S, initial_startedLog, hS, of_decide_eq_true htest⟩

end MiniContainer.Logs
