import MiniContainer.Native.Logs

/-!
# What rotation keeps

The log files, from the oldest to the newest, hold the end of all that the pump has read. A
rotation moves a gap from the oldest file to the newest, one rename at a time, so the
concatenation stays as it is but for the file that was removed (`kept_renameLog`).

A rotation begins only when the log and the data behind it are longer than 1 MiB, so that much
is left behind it (`Rotates.unlink`).
-/

namespace MiniContainer.Logs

open Function (update update_of_ne update_self)

/-! ## The log files -/

namespace State

/-- What a log file holds. A missing one holds nothing. -/
def log (S : State) (k : Nat) : Bytes := (S.names k).elim [] S.contents

/-- The log files from the oldest to the newest. -/
def kept (S : State) : Bytes := S.log 3 ++ S.log 2 ++ S.log 1 ++ S.log 0

/-- Up to three older files and the log, of at most 1 MiB each. -/
structure LogFiles (S : State) : Prop where
  older : ∀ k, logMaxFiles < k → S.names k = none
  inj : ∀ {i j f}, S.names i = some f → S.names j = some f → i = j
  used : ∀ {k f}, S.names k = some f → f < S.nextFile
  size : ∀ {k f}, S.names k = some f → (S.contents f).length ≤ logMaxSize

end State

/-- The data that was read and is not in the log yet. -/
def Pump.rest : Pump → Bytes
  | .unlinking data | .shifting _ data | .moving data | .creating data => data
  | .writing _ rest => rest
  | .reading | .ended => []

/-! ## Runs -/

/-- No call of the pump fails. -/
def Event.smooth : Event → Bool
  | .pump fault _ => !fault
  | _ => true

/-- The bytes that the pump takes out of the pipe. -/
def consumed (S : State) (e : Event) (S' : State) : Bytes :=
  match e with
  | .pump _ _ => S.pipe.take (S.pipe.length - S'.pipe.length)
  | _ => []

/-- Successive pumps of a container, with the bytes that they have read. A pump is started when
    there is none, or when the one before ends with nothing in its buffer. -/
inductive PumpRuns (S₀ : State) : Bytes → State → Prop where
  | refl : PumpRuns S₀ [] S₀
  | step {read : Bytes} {S S' : State} (h : PumpRuns S₀ read S) (e : Event)
      (he : e.smooth = true) (hstep : step S e = some S') :
      PumpRuns S₀ (read ++ consumed S e S') S'
  | start {read : Bytes} {S : State} (h : PumpRuns S₀ read S)
      (hidle : S.pump = .ended ∨ S.pump = .reading) : PumpRuns S₀ read (startLogPump S)

/-! ## The invariant -/

/-- What is known of the pump at each stage. -/
def StageKeeps (S : State) : Pump → Prop
  | .reading => S.names 0 = some S.output ∧ S.size = (S.contents S.output).length
  | .unlinking data =>
    logMaxSize < (S.log 0).length + data.length ∧ data.length ≤ bufferSize
  | .shifting index data =>
    (index = 2 ∨ index = 1) ∧ S.names (index + 1) = none ∧ data.length ≤ bufferSize
  | .moving data => S.names 1 = none ∧ data.length ≤ bufferSize
  | .creating data => S.names 0 = none ∧ data.length ≤ bufferSize
  | .writing total rest =>
    S.names 0 = some S.output ∧ (S.contents S.output).length + rest.length = S.size + total ∧
      S.size + total ≤ logMaxSize
  | .ended => True

/-- The log files and the buffer hold the end of the stream: all of it, or the last 1 MiB at
    least. -/
structure KeepsEnd (stream held : Bytes) : Prop where
  suffix : held <:+ stream
  recent : held = stream ∨ logMaxSize ≤ held.length

structure Rotates (stream : Bytes) (S : State) : Prop where
  files : S.LogFiles
  held : KeepsEnd stream (S.kept ++ S.pump.rest)
  stage : StageKeeps S S.pump

/-- More is read. -/
theorem KeepsEnd.append {stream held : Bytes} (h : KeepsEnd stream held) (data : Bytes) :
    KeepsEnd (stream ++ data) (held ++ data) where
  suffix := by
    obtain ⟨lost, rfl⟩ := h.suffix
    exact ⟨lost, by rw [List.append_assoc]⟩
  recent := by
    rcases h.recent with rfl | hlong
    · exact .inl rfl
    · right
      rw [List.length_append]
      omega

/-! ## Renames -/

/-- Who is bound after a rename. -/
theorem update_rename_eq_some {names : Nat → Option Nat} {k f j g : Nat} (hf : names k = some f)
    (h : update (update names k none) (k + 1) (some f) j = some g) :
    (j = k + 1 ∧ names k = some g) ∨ (j ≠ k ∧ j ≠ k + 1 ∧ names j = some g) := by
  by_cases hnew : j = k + 1
  · rw [hnew, update_self] at h
    exact .inl ⟨hnew, hf.trans h⟩
  · rw [update_of_ne hnew] at h
    by_cases hold : j = k
    · rw [hold, update_self] at h
      exact nomatch h
    · rw [update_of_ne hold] at h
      exact .inr ⟨hold, hnew, h⟩

theorem State.LogFiles.rename {S : State} {k f : Nat} (h : S.LogFiles) (hk : k ≤ 2)
    (hf : S.names k = some f) :
    State.LogFiles { S with names := update (update S.names k none) (k + 1) (some f) } where
  older j hj := by
    have hlt : 3 < j := hj
    show update (update S.names k none) (k + 1) (some f) j = none
    rw [update_of_ne (by omega), update_of_ne (by omega)]
    exact h.older j hj
  inj {i j g} hi hj := by
    rcases update_rename_eq_some hf hi with ⟨rfl, hi'⟩ | ⟨hik, -, hi'⟩
    · rcases update_rename_eq_some hf hj with ⟨rfl, -⟩ | ⟨hjk, -, hj'⟩
      · rfl
      · exact absurd (h.inj hj' hi') hjk
    · rcases update_rename_eq_some hf hj with ⟨rfl, hj'⟩ | ⟨-, -, hj'⟩
      · exact absurd (h.inj hi' hj') hik
      · exact h.inj hi' hj'
  used {j g} hj := by
    rcases update_rename_eq_some hf hj with ⟨-, hj⟩ | ⟨-, -, hj⟩
    · exact h.used hj
    · exact h.used hj
  size {j g} hj := by
    rcases update_rename_eq_some hf hj with ⟨-, hj⟩ | ⟨-, -, hj⟩
    · exact h.size hj
    · exact h.size hj

/-- A rename into a gap keeps the concatenation, and the gap moves on. -/
theorem kept_renameLog {S S' : State} {k : Nat} (hk : k ≤ 2) (hfiles : S.LogFiles)
    (hgap : S.names (k + 1) = none) (h : renameLog false S k (k + 1) = some S') :
    S'.kept = S.kept ∧ S'.names k = none ∧ S'.LogFiles := by
  unfold renameLog at h
  split at h
  · rename_i hnone
    cases h
    exact ⟨rfl, hnone, hfiles⟩
  · rename_i f hf
    rw [if_neg Bool.false_ne_true] at h
    cases h
    refine ⟨?_, by simp, hfiles.rename hk hf⟩
    -- one of the two slots is empty before, the other one afterwards
    rcases (by omega : k = 0 ∨ k = 1 ∨ k = 2) with rfl | rfl | rfl
    · simp [State.kept, State.log, update, hf, hgap]
    · simp [State.kept, State.log, update, hf, hgap]
    · simp [State.kept, State.log, update, hf, hgap]

/-! ## The calls of the pump -/

/-- The oldest file goes. The log and the data behind it are 1 MiB already. -/
theorem Rotates.unlink {stream data : Bytes} {S : State} (h : Rotates stream S)
    (hp : S.pump = .unlinking data) :
    Rotates stream { S with
      names := update S.names logMaxFiles none, pump := .shifting (logMaxFiles - 1) data } := by
  have hstage := h.stage
  have hheld := h.held
  rw [hp] at hstage hheld
  obtain ⟨hlong, hbuffer⟩ := hstage
  let S' := { S with
      names := update S.names logMaxFiles none, pump := Pump.shifting (logMaxFiles - 1) data }
  have hkept : S'.kept = S.log 2 ++ S.log 1 ++ S.log 0 := by
    simp [S', State.kept, State.log, logMaxFiles, update]
  have hsplit : S.kept ++ data = S.log 3 ++ (S'.kept ++ data) := by
    rw [hkept]
    simp [State.kept]
  have hbound : ∀ {k f}, S'.names k = some f → S.names k = some f := by
    intro k f hf
    by_cases hk : k = logMaxFiles
    · rw [hk] at hf
      simp [S'] at hf
    · rwa [show S'.names k = S.names k from update_of_ne hk _ _] at hf
  refine ⟨⟨fun k hk => ?_, fun hi hj => h.files.inj (hbound hi) (hbound hj),
    fun hf => h.files.used (hbound hf), fun hf => h.files.size (hbound hf)⟩, ⟨?_, .inr ?_⟩,
    .inl rfl, ?_, hbuffer⟩
  · exact (update_of_ne (Nat.ne_of_gt hk) _ _).trans (h.files.older k hk)
  · exact (List.suffix_append (S.log 3) _).trans (hsplit ▸ hheld.suffix)
  · show logMaxSize ≤ (S'.kept ++ data).length
    rw [hkept]
    simp only [List.length_append]
    omega
  · show update S.names logMaxFiles none logMaxFiles = none
    rw [update_self]

/-- A file is renamed into the gap behind it. -/
theorem Rotates.shift {stream data : Bytes} {S S' : State} {k : Nat} {pump : Pump}
    (h : Rotates stream S) (hk : k ≤ 2) (hgap : S.names (k + 1) = none)
    (hrest : S.pump.rest = data) (hrest' : pump.rest = data)
    (hrename : renameLog false S k (k + 1) = some S')
    (hstage : S'.names k = none → StageKeeps { S' with pump := pump } pump) :
    Rotates stream { S' with pump := pump } := by
  obtain ⟨hkept, hnone, hfiles⟩ := kept_renameLog hk h.files hgap hrename
  refine ⟨⟨hfiles.older, hfiles.inj, hfiles.used, hfiles.size⟩, ?_, hstage hnone⟩
  show KeepsEnd stream (S'.kept ++ pump.rest)
  rw [hkept, hrest', ← hrest]
  exact h.held

/-- Data is read. -/
theorem Rotates.read {stream data : Bytes} {S : State} (h : Rotates stream S)
    (hp : S.pump = .reading) (hbuffer : data.length ≤ bufferSize) :
    Rotates (stream ++ data) { S with
      pipe := S.pipe.drop data.length
      pump := if 0 < S.size ∧ logMaxSize < S.size + data.length then .unlinking data
        else .writing data.length data } := by
  have hstage := h.stage
  have hheld := h.held
  rw [hp] at hstage hheld
  obtain ⟨hopen, hsize⟩ := hstage
  have hheld' : KeepsEnd (stream ++ data) (S.kept ++ data) := by
    have := hheld.append data
    rwa [Pump.rest, List.append_nil] at this
  have hlog : (S.log 0).length = S.size := by
    rw [State.log, hopen, Option.elim_some, hsize]
  split
  · rename_i hfull
    refine ⟨⟨h.files.older, h.files.inj, h.files.used, h.files.size⟩, hheld', ?_, hbuffer⟩
    show logMaxSize < (S.log 0).length + data.length
    omega
  · rename_i hroom
    have hmax : bufferSize ≤ logMaxSize := by decide
    refine ⟨⟨h.files.older, h.files.inj, h.files.used, h.files.size⟩, hheld', hopen, ?_, ?_⟩
    · show (S.contents S.output).length + data.length = S.size + data.length
      rw [hsize]
    · show S.size + data.length ≤ logMaxSize
      omega

/-- The files when a new log is created. -/
theorem State.LogFiles.create {S : State} (h : S.LogFiles) :
    State.LogFiles { S with
      names := update S.names 0 (some S.nextFile)
      contents := update S.contents S.nextFile []
      nextFile := S.nextFile + 1 } := by
  have hbound : ∀ {k f}, update S.names 0 (some S.nextFile) k = some f →
      (k = 0 ∧ f = S.nextFile) ∨ S.names k = some f := by
    intro k f hf
    by_cases hk : k = 0
    · rw [hk, update_self] at hf
      exact .inl ⟨hk, (Option.some.inj hf).symm⟩
    · rw [update_of_ne hk] at hf
      exact .inr hf
  refine ⟨fun k hk => ?_, fun {i j f} hi hj => ?_, fun hf => ?_, fun {k f} hf => ?_⟩
  · exact (update_of_ne (Nat.ne_of_gt (Nat.zero_lt_of_lt hk)) _ _).trans (h.older k hk)
  · rcases hbound hi with ⟨rfl, rfl⟩ | hi'
    · rcases hbound hj with ⟨rfl, -⟩ | hj'
      · rfl
      · exact absurd (h.used hj') (Nat.lt_irrefl _)
    · rcases hbound hj with ⟨rfl, rfl⟩ | hj'
      · exact absurd (h.used hi') (Nat.lt_irrefl _)
      · exact h.inj hi' hj'
  · rcases hbound hf with ⟨-, rfl⟩ | hf'
    · exact Nat.lt_succ_self _
    · exact Nat.lt_succ_of_lt (h.used hf')
  · show (update S.contents S.nextFile [] f).length ≤ logMaxSize
    rcases hbound hf with ⟨-, rfl⟩ | hf'
    · rw [update_self]
      exact Nat.zero_le _
    · rw [update_of_ne (Nat.ne_of_lt (h.used hf'))]
      exact h.size hf'

/-- A new log adds nothing to what is kept. -/
theorem kept_create {S : State} (h : S.LogFiles) (hfree : S.names 0 = none) :
    State.kept { S with
      names := update S.names 0 (some S.nextFile)
      contents := update S.contents S.nextFile []
      nextFile := S.nextFile + 1 } = S.kept := by
  have hold : ∀ k, k ≠ 0 →
      (update S.names 0 (some S.nextFile) k).elim [] (update S.contents S.nextFile []) =
        S.log k := by
    intro k hk
    rw [update_of_ne hk, State.log]
    cases hf : S.names k with
    | none => rfl
    | some f => exact update_of_ne (Nat.ne_of_lt (h.used hf)) _ _
  have hnew : (update S.names 0 (some S.nextFile) 0).elim [] (update S.contents S.nextFile []) =
      S.log 0 := by
    simp [State.log, hfree]
  unfold State.kept
  rw [← hold 3 (by decide), ← hold 2 (by decide), ← hold 1 (by decide), ← hnew]
  rfl

theorem Rotates.create {stream data : Bytes} {S : State} (h : Rotates stream S)
    (hp : S.pump = .creating data) :
    Rotates stream { S with
      size := 0
      pump := .writing data.length data
      names := update S.names 0 (some S.nextFile)
      contents := update S.contents S.nextFile []
      output := S.nextFile
      nextFile := S.nextFile + 1 } := by
  have hstage := h.stage
  have hheld := h.held
  rw [hp] at hstage hheld
  obtain ⟨hfree, hbuffer⟩ := hstage
  obtain ⟨holder, hinj, hused, hsize⟩ := h.files.create
  have hkept := kept_create h.files hfree
  refine ⟨⟨holder, hinj, hused, hsize⟩, ?_, ?_, ?_, ?_⟩
  · rw [← hkept] at hheld
    exact hheld
  · exact update_self 0 _ S.names
  · show (update S.contents S.nextFile [] S.nextFile).length + data.length = 0 + data.length
    rw [update_self]
    rfl
  · have hmax : bufferSize ≤ logMaxSize := by decide
    show 0 + data.length ≤ logMaxSize
    omega

/-- What is appended to the log is kept behind the rest. -/
theorem kept_append {S : State} (h : S.LogFiles) (hopen : S.names 0 = some S.output)
    (chunk : Bytes) :
    State.kept { S with
      contents := update S.contents S.output (S.contents S.output ++ chunk) } =
      S.kept ++ chunk := by
  have hold : ∀ k, k ≠ 0 →
      (S.names k).elim [] (update S.contents S.output (S.contents S.output ++ chunk)) =
        S.log k := by
    intro k hk
    rw [State.log]
    cases hf : S.names k with
    | none => rfl
    | some f =>
      -- no older file is the log
      have hne : f ≠ S.output := fun heq => hk (h.inj (heq ▸ hf) hopen)
      exact update_of_ne hne _ _
  have hnew : (S.names 0).elim [] (update S.contents S.output (S.contents S.output ++ chunk)) =
      S.log 0 ++ chunk := by
    simp [State.log, hopen]
  calc (S.names 3).elim [] _ ++ (S.names 2).elim [] _ ++ (S.names 1).elim [] _ ++
        (S.names 0).elim [] (update S.contents S.output (S.contents S.output ++ chunk))
      = S.log 3 ++ S.log 2 ++ S.log 1 ++ (S.log 0 ++ chunk) := by
        rw [hold 3 (by decide), hold 2 (by decide), hold 1 (by decide), hnew]
    _ = S.kept ++ chunk := by rw [State.kept, List.append_assoc _ (S.log 0)]

theorem State.LogFiles.append {S : State} (h : S.LogFiles) {chunk : Bytes}
    (hroom : (S.contents S.output).length + chunk.length ≤ logMaxSize) :
    State.LogFiles { S with
      contents := update S.contents S.output (S.contents S.output ++ chunk) } where
  older := h.older
  inj := h.inj
  used := h.used
  size {k f} hf := by
    show (update S.contents S.output (S.contents S.output ++ chunk) f).length ≤ logMaxSize
    by_cases heq : f = S.output
    · rw [heq, update_self, List.length_append]
      exact hroom
    · rw [update_of_ne heq]
      exact h.size hf

/-- A `write` of a part of the buffer. -/
theorem Rotates.write {stream rest chunk left : Bytes} {S : State} {total size : Nat}
    {pump : Pump} {appended : Bytes} (h : Rotates stream S) (hp : S.pump = .writing total rest)
    (hsplit : rest = chunk ++ left)
    (hpump : (left = [] ∧ pump = .reading ∧ size = S.size + total) ∨
      (pump = .writing total left ∧ size = S.size)) :
    Rotates stream { S with
      contents := update S.contents S.output (S.contents S.output ++ chunk)
      appended := appended, size := size, pump := pump } := by
  have hstage := h.stage
  have hheld := h.held
  rw [hp] at hstage hheld
  obtain ⟨hopen, hlength, hmax⟩ := hstage
  have hchunk : rest.length = chunk.length + left.length := by rw [hsplit, List.length_append]
  obtain ⟨holder, hinj, hused, hsize⟩ := @State.LogFiles.append _ h.files chunk (by omega)
  have hkept := kept_append h.files hopen chunk
  have hheld' : KeepsEnd stream (S.kept ++ chunk ++ left) := by
    rw [List.append_assoc, ← hsplit]
    exact hheld
  have hnew : (update S.contents S.output (S.contents S.output ++ chunk) S.output).length =
      (S.contents S.output).length + chunk.length := by
    rw [update_self, List.length_append]
  refine ⟨⟨holder, hinj, hused, hsize⟩, ?_, ?_⟩
  · rw [← hkept] at hheld'
    rcases hpump with ⟨rfl, rfl, -⟩ | ⟨rfl, -⟩
    · exact hheld'
    · exact hheld'
  · rcases hpump with ⟨rfl, rfl, rfl⟩ | ⟨rfl, rfl⟩
    · refine ⟨hopen, ?_⟩
      show S.size + total =
        (update S.contents S.output (S.contents S.output ++ chunk) S.output).length
      rw [hnew]
      simp only [List.length_nil] at hchunk
      omega
    · refine ⟨hopen, ?_, hmax⟩
      show (update S.contents S.output (S.contents S.output ++ chunk) S.output).length +
        left.length = S.size + total
      rw [hnew]
      omega

theorem renameLog_false (S : State) (source target : Nat) :
    ∃ names, renameLog false S source target = some { S with names := names } := by
  unfold renameLog
  split
  · exact ⟨S.names, rfl⟩
  · exact ⟨_, rfl⟩

/-- Nothing was read where the pipe is as before. -/
theorem take_sub_self (pipe : Bytes) : pipe.take (pipe.length - pipe.length) = [] := by
  rw [Nat.sub_self, List.take_zero]

/-- One call of the pump, without a failure. -/
theorem Rotates.logPump {stream : Bytes} {S S' : State} {count : Nat} (h : Rotates stream S)
    (hstep : logPump false count S = some S') :
    Rotates (stream ++ S.pipe.take (S.pipe.length - S'.pipe.length)) S' := by
  have hstage := h.stage
  unfold Logs.logPump at hstep
  cases hp : S.pump with
  | reading =>
    rw [hp] at hstep
    dsimp only at hstep
    rw [if_neg Bool.false_ne_true] at hstep
    split at hstep
    · split at hstep
      · cases hstep
        have hheld := h.held
        rw [hp] at hheld
        rw [take_sub_self, List.append_nil]
        exact ⟨⟨h.files.older, h.files.inj, h.files.used, h.files.size⟩, hheld, trivial⟩
      · exact nomatch hstep
    · rename_i b bs hdata
      cases hstep
      have hlength := congrArg List.length hdata
      rw [List.length_take] at hlength
      -- the bytes that have left the pipe are those in the buffer
      have hread : S.pipe.take (S.pipe.length - (S.pipe.drop (b :: bs).length).length) =
          b :: bs := by
        rw [← hdata, List.length_drop, List.take_eq_take_iff, List.length_take]
        omega
      rw [hread]
      exact h.read hp (by omega)
  | unlinking data =>
    rw [hp] at hstep
    cases hstep
    rw [take_sub_self, List.append_nil]
    exact h.unlink hp
  | shifting index data =>
    rw [hp] at hstep hstage
    obtain ⟨hindex, hgap, hbuffer⟩ := hstage
    have hrest : S.pump.rest = data := by rw [hp]; rfl
    obtain ⟨names, hrename⟩ := renameLog_false S index (index + 1)
    dsimp only at hstep
    rw [hrename] at hstep
    cases hstep
    rw [take_sub_self, List.append_nil]
    rcases hindex with rfl | rfl
    · exact h.shift (by omega) hgap hrest rfl hrename fun hnone => ⟨.inr rfl, hnone, hbuffer⟩
    · exact h.shift (by omega) hgap hrest rfl hrename fun hnone => ⟨hnone, hbuffer⟩
  | moving data =>
    rw [hp] at hstep hstage
    obtain ⟨hgap, hbuffer⟩ := hstage
    have hrest : S.pump.rest = data := by rw [hp]; rfl
    obtain ⟨names, hrename⟩ := renameLog_false S 0 1
    dsimp only at hstep
    rw [hrename] at hstep
    cases hstep
    rw [take_sub_self, List.append_nil]
    exact h.shift (by omega) hgap hrest rfl hrename fun hnone => ⟨hnone, hbuffer⟩
  | creating data =>
    rw [hp] at hstep hstage
    obtain ⟨hfree, hbuffer⟩ := hstage
    dsimp only at hstep
    rw [if_neg Bool.false_ne_true, hfree] at hstep
    cases hstep
    rw [take_sub_self, List.append_nil]
    exact h.create hp
  | writing total rest =>
    rw [hp] at hstep
    dsimp only at hstep
    rw [if_neg Bool.false_ne_true] at hstep
    have hsplit : rest = rest.take (count + 1) ++ rest.drop (count + 1) :=
      (List.take_append_drop _ _).symm
    split at hstep
    · rename_i hleft
      cases hstep
      rw [hleft] at hsplit
      rw [take_sub_self, List.append_nil]
      exact h.write hp hsplit (.inl ⟨rfl, rfl, rfl⟩)
    · rename_i b bs hleft
      cases hstep
      rw [hleft] at hsplit
      rw [take_sub_self, List.append_nil]
      exact h.write hp hsplit (.inr ⟨rfl, rfl⟩)
  | ended =>
    rw [hp] at hstep
    exact nomatch hstep

/-! ## Whole runs -/

/-- The follower and the writers leave the log files and the pump alone. -/
structure SameLog (S S' : State) : Prop where
  names : S'.names = S.names
  contents : S'.contents = S.contents
  nextFile : S'.nextFile = S.nextFile
  pump : S'.pump = S.pump
  output : S'.output = S.output
  size : S'.size = S.size

theorem Rotates.same {stream : Bytes} {S S' : State} (h : Rotates stream S) (hsame : SameLog S S') :
    Rotates stream S' := by
  obtain ⟨names, contents, nextFile, pipe, shim, pump, output, size, _, _, _, _, _⟩ := S
  obtain ⟨names', contents', nextFile', pipe', shim', pump', output', size', _, _, _, _, _⟩ := S'
  obtain ⟨hnames, hcontents, hnext, hpump, houtput, hsize⟩ := hsame
  dsimp only at hnames hcontents hnext hpump houtput hsize
  subst hnames hcontents hnext hpump houtput hsize
  exact ⟨⟨h.files.older, h.files.inj, h.files.used, h.files.size⟩, h.held, h.stage⟩

/-- A step of another party. -/
theorem sameLog_with (S : State) (pipe : Bytes) (shim : Shim) (follower : Follower)
    (tail : Option Nat) (printed before : Bytes) :
    SameLog S { S with
      pipe := pipe, shim := shim, follower := follower, tail := tail, printed := printed,
      before := before } :=
  ⟨rfl, rfl, rfl, rfl, rfl, rfl⟩

theorem sameLog_attach {S S' : State} {tail : Option Nat} (h : attach tail S = some S') :
    SameLog S S' := by
  unfold attach at h
  split at h
  · split at h
    · exact Option.some.inj h ▸ sameLog_with S _ _ _ _ _ _
    · exact Option.some.inj h ▸ sameLog_with S _ _ _ _ _ _
  · exact nomatch h

theorem sameLog_showLog {S S' : State} {fault : Bool} (h : showLog fault S = some S') :
    SameLog S S' := by
  unfold showLog at h
  cases hf : S.follower with
  | first s ring =>
    rw [hf] at h
    dsimp only at h
    split at h
    · exact Option.some.inj h ▸ sameLog_with S _ _ _ _ _ _
    · split at h
      · exact Option.some.inj h ▸ sameLog_with S _ _ _ _ _ _
      · exact Option.some.inj h ▸ sameLog_with S _ _ _ _ _ _
  | fallback | copying s | following s | checking s | comparing s | replacing s =>
    rw [hf] at h
    dsimp only at h
    split at h
    · exact Option.some.inj h ▸ sameLog_with S _ _ _ _ _ _
    · exact Option.some.inj h ▸ sameLog_with S _ _ _ _ _ _
  | absent | ended | refused => rw [hf] at h; exact nomatch h

theorem sameLog_step {S S' : State} {e : Event} (h : step S e = some S')
    (he : ∀ fault count, e ≠ .pump fault count) : SameLog S S' := by
  cases e with
  | pump fault count => exact absurd rfl (he fault count)
  | workload data =>
    dsimp only [Logs.step] at h
    split at h
    · exact nomatch h
    · exact Option.some.inj h ▸ sameLog_with S _ _ _ _ _ _
  | record | close =>
    dsimp only [Logs.step] at h
    split at h
    · exact Option.some.inj h ▸ sameLog_with S _ _ _ _ _ _
    · exact nomatch h
  | attach tail => exact sameLog_attach h
  | follower fault => exact sameLog_showLog h

theorem Rotates.step {stream : Bytes} {S S' : State} {e : Event} (h : Rotates stream S)
    (he : e.smooth = true) (hstep : step S e = some S') :
    Rotates (stream ++ consumed S e S') S' := by
  by_cases hpump : ∃ fault count, e = .pump fault count
  · obtain ⟨fault, count, rfl⟩ := hpump
    obtain rfl : fault = false := by simpa [Event.smooth] using he
    exact h.logPump hstep
  · have hother : ∀ fault count, e ≠ .pump fault count :=
      fun fault count heq => hpump ⟨fault, count, heq⟩
    have hnone : consumed S e S' = [] := by
      unfold consumed
      split
      · exact absurd rfl (hother _ _)
      · rfl
    rw [hnone, List.append_nil]
    exact h.same (sameLog_step hstep hother)

/-- A new pump finds the log as the one before has left it. -/
theorem Rotates.start {stream : Bytes} {S : State} (h : Rotates stream S)
    (hidle : S.pump = .ended ∨ S.pump = .reading) : Rotates stream (startLogPump S) := by
  have hheld : KeepsEnd stream (S.kept ++ []) := by
    have hheld := h.held
    rcases hidle with hp | hp
    · rwa [hp] at hheld
    · rwa [hp] at hheld
  unfold startLogPump
  dsimp only
  split
  · rename_i f hf
    exact ⟨⟨h.files.older, h.files.inj, h.files.used, h.files.size⟩, hheld, hf, rfl⟩
  · rename_i hfree
    obtain ⟨holder, hinj, hused, hsize⟩ := h.files.create
    refine ⟨⟨holder, hinj, hused, hsize⟩, ?_, update_self 0 _ S.names, ?_⟩
    · rw [← kept_create h.files hfree] at hheld
      exact hheld
    · show 0 = (update S.contents S.nextFile [] S.nextFile).length
      rw [update_self]
      rfl

theorem rotates_of_runs {S₀ S : State} {read : Bytes} (hfiles : S₀.LogFiles)
    (hidle : S₀.pump = .ended) (hrun : PumpRuns S₀ read S) : Rotates (S₀.kept ++ read) S := by
  induction hrun with
  | refl =>
    refine ⟨hfiles, ?_, by rw [hidle]; trivial⟩
    rw [hidle]
    exact ⟨List.suffix_refl _, .inl rfl⟩
  | step _ e he hstep ih =>
    rw [← List.append_assoc]
    exact ih.step he hstep
  | start _ hidle ih => exact ih.start hidle

/-- Rotation loses the oldest data only. Whenever a pump is about to read, the log files hold the
    end of the old files and all that was read since, the last 1 MiB at least; no file is longer
    than that, and there are at most three older ones. -/
theorem rotation_keeps_recent {S₀ S : State} {read : Bytes} (hfiles : S₀.LogFiles)
    (hidle : S₀.pump = .ended) (hrun : PumpRuns S₀ read S) (hread : S.pump = .reading) :
    S.kept <:+ S₀.kept ++ read ∧
      (S₀.kept ++ read).drop ((S₀.kept ++ read).length - logMaxSize) <:+ S.kept ∧
      (∀ k f, S.names k = some f → (S.contents f).length ≤ logMaxSize) ∧
      ∀ k, logMaxFiles < k → S.names k = none := by
  obtain ⟨hkept, ⟨hsuffix, hrecent⟩, -⟩ := rotates_of_runs hfiles hidle hrun
  rw [hread, Pump.rest, List.append_nil] at hsuffix hrecent
  refine ⟨hsuffix, ?_, fun k f hf => hkept.size hf, hkept.older⟩
  -- the shorter one of two ends of the stream is an end of the longer one
  refine List.suffix_of_suffix_length_le (List.drop_suffix _ _) hsuffix ?_
  rw [List.length_drop]
  rcases hrecent with heq | hlong
  · rw [heq]
    omega
  · omega

/-- A container whose log is full, with three older files of one byte. -/
def fullLogs (full : Bytes) : State where
  names k := if k ≤ 3 then some k else none
  contents
    | 0 => full
    | k => [UInt8.ofNat k]
  nextFile := 4
  pipe := []
  shim := .closed
  pump := .ended
  output := 0
  size := 0
  follower := .absent
  tail := none
  printed := []
  before := []
  appended := []

theorem logFiles_fullLogs {full : Bytes} (hfull : full.length = logMaxSize) :
    (fullLogs full).LogFiles := by
  have hname : ∀ {k f}, (fullLogs full).names k = some f → k ≤ 3 ∧ k = f := by
    intro k f h
    by_cases hk : k ≤ 3
    · exact ⟨hk, Option.some.inj ((if_pos hk).symm.trans h)⟩
    · cases (if_neg hk).symm.trans h
  refine ⟨fun k hk => if_neg (Nat.not_le.mpr hk), fun hi hj => ?_, fun hk => ?_, fun hk => ?_⟩
  · rw [(hname hi).2, (hname hj).2]
  · obtain ⟨hle, rfl⟩ := hname hk
    exact Nat.lt_succ_of_le hle
  · obtain ⟨-, rfl⟩ := hname hk
    rename_i k
    cases k with
    | zero => exact Nat.le_of_eq hfull
    | succ k => exact (by decide : 1 ≤ logMaxSize)

/-- A line is read when the log is full: seven calls rotate the files and write it. -/
theorem exists_rotated {full : Bytes} (hfull : full.length = logMaxSize) :
    ∃ S, PumpRuns (fullLogs full) [104, 105, 10] S ∧ S.pump = .reading ∧
      S.kept = [2] ++ [1] ++ full ++ [104, 105, 10] := by
  have hstart : PumpRuns (fullLogs full) [] (startLogPump (fullLogs full)) :=
    .start .refl (.inl rfl)
  have hwritten := hstart.step (.workload [104, 105, 10]) rfl rfl
  have hover : 0 < full.length ∧ logMaxSize < full.length + 3 := by
    have : 0 < logMaxSize := by decide
    omega
  -- the length of the log decides that the read rotates
  have hstep : step { startLogPump (fullLogs full) with pipe := [104, 105, 10] } (.pump false 9) =
      some { startLogPump (fullLogs full) with
        pipe := [], pump := .unlinking [104, 105, 10] } :=
    congrArg (fun p : Pump => some ({ startLogPump (fullLogs full) with
      pipe := [], pump := p } : State)) (if_pos hover)
  have hread := hwritten.step (.pump false 9) rfl hstep
  have hunlinked := hread.step (.pump false 0) rfl rfl
  have hsecond := hunlinked.step (.pump false 0) rfl rfl
  have hfirst := hsecond.step (.pump false 0) rfl rfl
  have hmoved := hfirst.step (.pump false 0) rfl rfl
  have hcreated := hmoved.step (.pump false 0) rfl rfl
  exact ⟨_, hcreated.step (.pump false 9) rfl rfl, rfl, rfl⟩

/-- A line behind a log of 1 MiB: the oldest file is lost, and nothing else. -/
theorem rotation_keeps_line :
    ∃ S, PumpRuns (fullLogs (List.replicate logMaxSize 120)) [104, 105, 10] S ∧
      S.pump = .reading ∧
      S.kept = [2] ++ [1] ++ List.replicate logMaxSize 120 ++ [104, 105, 10] ∧
      S.kept <:+ (fullLogs (List.replicate logMaxSize 120)).kept ++ [104, 105, 10] := by
  have hfull : (List.replicate logMaxSize (120 : UInt8)).length = logMaxSize :=
    List.length_replicate
  obtain ⟨S, hrun, hread, hkept⟩ := exists_rotated hfull
  obtain ⟨hsuffix, -⟩ := rotation_keeps_recent (logFiles_fullLogs hfull) rfl hrun hread
  exact ⟨S, hrun, hread, hkept, hsuffix⟩

end MiniContainer.Logs
