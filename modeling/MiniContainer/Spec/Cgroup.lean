import MiniContainer.Native.Cgroup
import MiniContainer.Spec.Accepted

/-!
# Limits that can be programmed

`--memory` takes any number of bytes, and `verify_value` compares texts. The kernel counts
pages, so it shows the number that was written only if that is a number of whole pages
below the largest one it counts to.
-/

namespace MiniContainer.Cgroup

open CString (Text decimal fgets snprintf strtou)

/-- A number of whole pages that the kernel does not show as `max`. -/
def Programmable (maxPages bytes : Nat) : Prop := bytes % 4096 = 0 ∧ bytes / 4096 < maxPages

/-! ## One limit -/

theorem verifyValue_line {line expected : Text} (hne : line ≠ [])
    (hline : ∀ c ∈ line, c ≠ '\r' ∧ c ≠ '\n') (hlength : line.length < 256) :
    verifyValue (line ++ ['\n']) expected = .ok () ↔ line = expected := by
  have hnewline : '\n' ∉ line := fun h => (hline _ h).2 rfl
  obtain ⟨tail, hgets, htail⟩ := CString.fgets_line hne hnewline
    (by simp : ∀ c ∈ (['\n'] : Text).head?, c = '\n') hlength
  have htake : (line ++ tail).takeWhile (fun c => c != '\r' && c != '\n') = line := by
    rw [List.takeWhile_append_of_pos fun c hc => by simpa using hline c hc]
    rcases htail with rfl | rfl <;> simp
  rw [verifyValue, hgets]
  dsimp only
  rw [htake]
  split <;> simp_all

theorem snprintf_decimal (n : UInt64) : snprintf 128 (decimal n.toNat) = decimal n.toNat := by
  have hlength : (decimal n.toNat).length ≤ 20 :=
    CString.decimal_length_le (by decide) (by have := n.toNat_lt; omega)
  exact CString.snprintf_of_fits (by omega)

/-- What a page counter shows is what was written exactly for whole pages in range. -/
theorem verifyValue_pageCounter_iff (maxPages : Nat) (n : UInt64) :
    verifyValue (pageCounter maxPages n.toNat) (decimal n.toNat) = .ok () ↔
      Programmable maxPages n.toNat := by
  have hn := n.toNat_lt
  unfold pageCounter Programmable
  split
  · rename_i hmax
    -- `max` is no number
    have hline : ∀ c ∈ "max".toList, c ≠ '\r' ∧ c ≠ '\n' := by simp
    rw [show "max\n".toList = "max".toList ++ ['\n'] by rfl,
      verifyValue_line (by simp) hline (by decide)]
    constructor
    · intro h
      have hdigit := CString.isDigit_of_mem_decimal (n := n.toNat) (c := 'm') (h ▸ by simp)
      exact absurd hdigit (by decide)
    · rintro ⟨-, hlt⟩
      omega
  · rename_i hmax
    have hline : ∀ c ∈ decimal (n.toNat / 4096 * 4096), c ≠ '\r' ∧ c ≠ '\n' := by
      intro c hc
      have hdigit := CString.isDigit_of_mem_decimal hc
      constructor
      · rintro rfl
        exact absurd hdigit (by decide)
      · rintro rfl
        exact absurd hdigit (by decide)
    have hlength : (decimal (n.toNat / 4096 * 4096)).length ≤ 20 :=
      CString.decimal_length_le (by decide) (by omega)
    rw [verifyValue_line (CString.decimal_ne_nil _) hline (by omega)]
    constructor
    · intro h
      have heq := CString.decimal_injective h
      omega
    · rintro ⟨hmod, -⟩
      congr 1
      omega

/-- A memory limit is programmed and verified exactly if it is programmable. -/
theorem programLimit_iff {maxPages : Nat} {others : Kernel} {name : String}
    (hname : name = "memory.max" ∨ name = "memory.swap.max") (n : UInt64) :
    programLimit (pageKernel maxPages others) name (snprintf 128 (decimal n.toNat)) = .ok () ↔
      Programmable maxPages n.toNat := by
  have hread : strtou 64 (decimal n.toNat) = some ⟨n.toNat, false, []⟩ := by
    have h := CString.strtou_decimal (w := 64) n.toNat_lt CString.noDigit_nil
    rwa [List.append_nil] at h
  rw [snprintf_decimal, programLimit, writeValue, pageKernel, if_pos hname, hread]
  exact verifyValue_pageCounter_iff maxPages n

theorem bind_unit_eq_ok {ε : Type} {x y : Except ε Unit} :
    (do x; y) = .ok () ↔ x = .ok () ∧ y = .ok () := by
  cases x with
  | error e | ok u => simp [bind, Except.bind]

theorem programMemory_iff (maxPages : Nat) (others : Kernel) (memoryMax swapMax : UInt64) :
    programMemory (pageKernel maxPages others) memoryMax swapMax = .ok () ↔
      Programmable maxPages memoryMax.toNat ∧ Programmable maxPages swapMax.toNat := by
  rw [programMemory, bind_unit_eq_ok, programLimit_iff (.inl rfl), programLimit_iff (.inr rfl)]

/-- A container with other limits does not start. -/
theorem programLimits_memory {maxPages : Nat} {others : Kernel} {config : RunConfig}
    {payload : Text} (h : programLimits (pageKernel maxPages others) config payload = .ok ()) :
    Programmable maxPages config.memoryMax.toNat ∧ Programmable maxPages config.swapMax.toNat := by
  rw [← programMemory_iff maxPages others]
  unfold programLimits at h
  cases hmemory : programMemory (pageKernel maxPages others) config.memoryMax config.swapMax with
  | ok u => rfl
  | error e =>
    rw [hmemory] at h
    cases h

/-! ## Accepted values -/

/-- The number of bytes that `--memory-swap` accepts a text for. -/
def SwapBytes (value : Text) (swapMax : UInt64) : Prop :=
  (value = "0".toList ∧ swapMax = 0) ∨ (value ≠ "0".toList ∧ parseBytes value = some swapMax)

theorem apply_memory {host : Host} {o o' : RunOptions} {value : Text}
    (h : o.apply host .memory value = .ok o') :
    parseBytes value = some o'.memoryMax ∧ o'.swapMax = o.swapMax := by
  simp only [RunOptions.apply, orUsage] at h
  split at h
  · rename_i bytes hparse
    obtain rfl := Except.ok.inj h
    exact ⟨hparse, rfl⟩
  · cases h

theorem apply_memorySwap {host : Host} {o o' : RunOptions} {value : Text}
    (h : o.apply host .memorySwap value = .ok o') :
    SwapBytes value o'.swapMax ∧ o'.memoryMax = o.memoryMax := by
  simp only [RunOptions.apply] at h
  split at h
  · rename_i hzero
    obtain rfl := Except.ok.inj h
    exact ⟨.inl ⟨hzero, rfl⟩, rfl⟩
  · rename_i hzero
    simp only [orUsage] at h
    split at h
    · rename_i bytes hparse
      obtain rfl := Except.ok.inj h
      exact ⟨.inr ⟨hzero, hparse⟩, rfl⟩
    · cases h

/-- For all values of `--memory` and `--memory-swap` that the command line accepts, on every
    kernel that counts pages, the limits can be programmed if and only if both are numbers of
    whole pages below the largest one. -/
theorem accepted_programmed_iff (host : Host) (o o₁ o₂ : RunOptions) (memory swap : Text)
    (hmemory : o.apply host .memory memory = .ok o₁)
    (hswap : o₁.apply host .memorySwap swap = .ok o₂) (maxPages : Nat) (others : Kernel) :
    parseBytes memory = some o₂.memoryMax ∧ SwapBytes swap o₂.swapMax ∧
      (programMemory (pageKernel maxPages others) o₂.memoryMax o₂.swapMax = .ok () ↔
        Programmable maxPages o₂.memoryMax.toNat ∧ Programmable maxPages o₂.swapMax.toNat) := by
  obtain ⟨hbytes, -⟩ := apply_memory hmemory
  obtain ⟨hbytes', hsame⟩ := apply_memorySwap hswap
  exact ⟨hsame ▸ hbytes, hbytes', programMemory_iff maxPages others _ _⟩

/-- The largest number of pages that a 64-bit kernel counts to. -/
def pageCounterMax : Nat := (2 ^ 63 - 1) / 4096

/-- `--memory 1m --memory-swap 0` is programmed. -/
theorem accepted_programmed_mebibyte :
    ∃ o₁ o₂, ({} : RunOptions).apply plainHost .memory "1m".toList = .ok o₁ ∧
      o₁.apply plainHost .memorySwap "0".toList = .ok o₂ ∧
      programMemory (pageKernel pageCounterMax fun _ _ => none) o₂.memoryMax o₂.swapMax =
        .ok () := by
  have hmemory : ({} : RunOptions).apply plainHost .memory "1m".toList =
      .ok { memoryMax := 1048576 } := by
    decide +kernel
  have hswap : ({ memoryMax := 1048576 } : RunOptions).apply plainHost .memorySwap "0".toList =
      .ok { memoryMax := 1048576, swapMax := 0 } := by
    decide +kernel
  refine ⟨_, _, hmemory, hswap, ?_⟩
  have hiff := (accepted_programmed_iff plainHost _ _ _ _ _ hmemory hswap pageCounterMax
    fun _ _ => none).2.2
  exact hiff.mpr ⟨⟨by decide, by decide⟩, ⟨by decide, by decide⟩⟩

/-- `--memory 1` is accepted, but the kernel shows 0 for it. -/
theorem accepted_not_programmed :
    ∃ o₁, ({} : RunOptions).apply plainHost .memory "1".toList = .ok o₁ ∧
      programMemory (pageKernel pageCounterMax fun _ _ => none) o₁.memoryMax o₁.swapMax =
        .error .eio := by
  have hmemory : ({} : RunOptions).apply plainHost .memory "1".toList =
      .ok { memoryMax := 1 } := by
    decide +kernel
  exact ⟨_, hmemory, by decide +kernel⟩

end MiniContainer.Cgroup
