import MiniContainer.Native.Netlink

/-!
# What netlink messages say

A message is built by calls that append attributes, open nested ones and patch their lengths
afterwards. The calls that succeed build a tree of attributes, and a parser finds this tree in
the bytes of the message. A call that has no room fails and changes nothing, unless its
payload is so long that `RTA_ALIGN` loses the upper half of its length.
-/

namespace MiniContainer.Netlink

open Rtattr (Item align nlaFNested rta Decodes Frame Draft)
open Rtattr.Item (encodeAll)

/-! ## Arithmetic of the macros -/

/-- The mask `~3U`. -/
theorem and_mask (n : Nat) : n &&& 0xfffffffc = n % 2 ^ 32 / 4 * 4 := by
  have hmask : 0xfffffffc = (2 ^ 30 - 1) <<< 2 := by decide
  have hshift : n % 2 ^ 32 / 4 * 4 = (n % 2 ^ 32) >>> 2 <<< 2 := by
    rw [Nat.shiftRight_eq_div_pow, Nat.shiftLeft_eq]
  rw [hmask, hshift]
  apply Nat.eq_of_testBit_eq
  intro i
  simp only [Nat.testBit_and, Nat.testBit_shiftLeft, Nat.testBit_two_pow_sub_one,
    Nat.testBit_shiftRight, Nat.testBit_mod_two_pow]
  by_cases h : 2 ≤ i
  · simp [h]
    grind
  · simp [h]

/-- `NLMSG_ALIGN` of a length that a message can have. -/
theorem toNat_nlmsgAlign {length : UInt32} (h : length.toNat < 2 ^ 31) :
    (nlmsgAlign length).toNat = align length.toNat := by
  have hadd : (length + 4 - 1).toNat = length.toNat + 3 := by
    rw [UInt32.toNat_sub, UInt32.toNat_add]
    simp
    omega
  rw [nlmsgAlign, UInt32.toNat_and, hadd]
  have hmask : (0xfffffffc : UInt32).toNat = 0xfffffffc := rfl
  rw [hmask, and_mask, align]
  omega

/-- `RTA_ALIGN` loses the upper half of the length. -/
theorem toNat_rtaAlign (length : UInt64) :
    (rtaAlign length).toNat = (length.toNat + 3) % 2 ^ 32 / 4 * 4 := by
  have hadd : (length + 4 - 1).toNat = (length.toNat + 3) % 2 ^ 64 := by
    rw [UInt64.toNat_sub, UInt64.toNat_add]
    simp
    omega
  rw [rtaAlign, UInt64.toNat_and, hadd]
  have hmask : (0xfffffffc : UInt64).toNat = 0xfffffffc := rfl
  rw [hmask, and_mask]
  omega

theorem toNat_rtaLength (n : Nat) : (rtaLength (UInt64.ofNat n)).toNat = (4 + n) % 2 ^ 64 := by
  rw [rtaLength, UInt64.toNat_add, UInt64.toNat_ofNat']
  simp

/-! ## Drafts -/

/-- What a successful call adds to the tree. -/
def after : Call → Draft → Draft
  | .add type data, d => d.push (.leaf type data)
  | .begin type, d => d.openNested type
  | .header bytes, d => d.addHeader (List.ofFn bytes)
  | .finish, d => d.closeNested

/-- Calls are nested properly: only an open attribute is finished, and a header stands directly
    behind the start of an attribute. -/
def Allows (d : Draft) : Call → Prop
  | .add _ _ => True
  | .begin _ => True
  | .header _ => d.Fresh
  | .finish => d.frames ≠ []

/-- The room that a call takes. -/
def size : Call → Nat
  | .add _ data => align (4 + data.length)
  | .begin _ => 4
  | .header _ => 16
  | .finish => 0

/-- The message has room for the call. -/
def Fits (r : Request) (d : Draft) (c : Call) : Prop :=
  r.base + d.bytes.length + size c ≤ r.capacity

/-- The length that a call writes into an attribute, before it is cut to 16 bits. -/
def attributeLength (d : Draft) : Call → Nat
  | .add _ data => 4 + data.length
  | .begin _ => 4
  | .header _ => 0
  | .finish =>
    match d.frames with
    | [] => 0
    | f :: _ => f.bytes.length

/-- There is no room for the attribute, but there would be if the upper half of its length were
    lost. -/
def Overruns (r : Request) (d : Draft) : Call → Prop
  | .add type data => ¬ Fits r d (.add type data) ∧
      r.base + d.bytes.length + (4 + data.length + 3) % 2 ^ 32 / 4 * 4 ≤ r.capacity
  | _ => False

/-- What a call adds to the message. -/
theorem length_bytes_after {d : Draft} (haligned : d.Aligned) {c : Call} (hallows : Allows d c) :
    (after c d).bytes.length = d.bytes.length + size c := by
  cases c with
  | add type data =>
    rw [after, Draft.bytes_push, List.length_append, Rtattr.length_rta, size, Item.payload]
  | begin type =>
    rw [after, Draft.bytes_openNested]
    simp [size]
  | header bytes =>
    rw [after, Draft.bytes_addHeader hallows]
    simp [size]
  | finish => rw [after, Draft.length_bytes_closeNested haligned, size, Nat.add_zero]

theorem aligned_after {d : Draft} (h : d.Aligned) (c : Call) : (after c d).Aligned := by
  cases c with
  | add type data => exact h.push _
  | begin type => exact h.openNested type
  | header bytes => exact h.addHeader (by simp)
  | finish => exact h.closeNested

/-! ## The message of a draft -/

/-- A write in the middle of a buffer. -/
theorem poke_append (a b bytes : List UInt8) :
    poke (a ++ b) a.length bytes = a ++ bytes ++ b.drop bytes.length := by
  rw [poke, List.take_left, List.drop_length_add_append]

/-- Two writes one behind the other. -/
theorem poke_poke {buffer : List UInt8} {offset : Nat} (h : offset ≤ buffer.length)
    (a b : List UInt8) :
    poke (poke buffer offset a) (offset + a.length) b = poke buffer offset (a ++ b) := by
  have hlength : offset + a.length = (buffer.take offset ++ a).length := by
    rw [List.length_append, List.length_take_of_le h]
  conv =>
    lhs
    arg 1
    rw [poke]
  rw [hlength, poke_append, poke, List.drop_drop]
  simp only [List.length_append, List.length_take_of_le h, List.append_assoc, Nat.add_assoc]

/-- The message holds the bytes of the draft, and zeros behind them. -/
structure Rep (r : Request) (fixed : List UInt8) (s : State) (d : Draft) : Prop where
  aligned : d.Aligned
  room : r.base + d.bytes.length ≤ r.capacity
  length : s.message.length.toNat = r.base + d.bytes.length
  buffer : s.message.buffer = fixed ++ d.bytes ++
    List.replicate (r.capacity - (r.base + d.bytes.length)) 0
  stack : s.stack = d.offsets.map (r.base + ·)

theorem Request.base_mod (r : Request) : r.base % 4 = 0 := by cases r <;> rfl

theorem Request.base_le (r : Request) : r.base ≤ r.capacity := by cases r <;> decide

theorem Request.capacity_le (r : Request) : r.capacity ≤ 2080 := by cases r <;> decide

/-- An empty request. -/
theorem rep_start {r : Request} {fixed : List UInt8} : Rep r fixed (start r fixed) Draft.empty where
  aligned := by
    intro f hf
    cases hf
  room := r.base_le
  length := by cases r <;> rfl
  buffer := by
    show fixed ++ _ = fixed ++ [] ++ _
    rw [List.append_nil]
    rfl
  stack := rfl

/-- Bytes are written behind those of the draft, and zeros follow them. -/
theorem Rep.append {r : Request} {fixed : List UInt8} {s : State} {d : Draft}
    (h : Rep r fixed s d) (hfixed : fixed.length = r.base) {offset : Nat}
    (hoffset : offset = r.base + d.bytes.length) {bytes : List UInt8} {n : Nat}
    (hn : r.base + d.bytes.length + bytes.length + n ≤ r.capacity) {padded : List UInt8}
    (hpadded : padded = d.bytes ++ (bytes ++ List.replicate n 0)) :
    poke s.message.buffer offset bytes = fixed ++ padded ++
      List.replicate (r.capacity - (r.base + padded.length)) 0 := by
  have hlength : offset = (fixed ++ d.bytes).length := by
    rw [List.length_append, hfixed, hoffset]
  -- the zeros that are left are those of the padding and those behind it
  have hzeros : r.capacity - (r.base + d.bytes.length) - bytes.length =
      n + (r.capacity - (r.base + padded.length)) := by
    simp only [hpadded, List.length_append, List.length_replicate]
    omega
  rw [h.buffer, hlength, poke_append, List.drop_replicate, hzeros, List.replicate_add, hpadded]
  simp only [List.append_assoc]

/-- The next attribute goes behind the others. -/
theorem Rep.toNat_nlmsgAlign {r : Request} {fixed : List UInt8} {s : State} {d : Draft}
    (h : Rep r fixed s d) :
    (nlmsgAlign s.message.length).toUInt64.toNat = r.base + d.bytes.length := by
  have hroom := h.room
  have hcapacity := r.capacity_le
  have hbase := r.base_mod
  have hbytes := h.aligned.length_bytes
  rw [UInt32.toNat_toUInt64, Netlink.toNat_nlmsgAlign (by rw [h.length]; omega), h.length]
  exact Rtattr.align_of_mod (by omega)

/-- The check in front of each write. -/
theorem Rep.check {r : Request} {fixed : List UInt8} {s : State} {d : Draft}
    (h : Rep r fixed s d) {offset n : UInt64}
    (hoffset : offset.toNat = r.base + d.bytes.length) (hn : n.toNat < 2 ^ 32) :
    UInt64.ofNat r.capacity < offset + n ↔ r.capacity < r.base + d.bytes.length + n.toNat := by
  have hroom := h.room
  have hcapacity := r.capacity_le
  rw [UInt64.lt_iff_toNat_lt, UInt64.toNat_add, hoffset, UInt64.toNat_ofNat',
    Nat.mod_eq_of_lt (by omega), Nat.mod_eq_of_lt (by omega)]

/-- The check of `add_attribute` in numbers. -/
theorem Rep.check_add {r : Request} {fixed : List UInt8} {s : State} {d : Draft}
    (h : Rep r fixed s d) (data : List UInt8) :
    UInt64.ofNat r.capacity < (nlmsgAlign s.message.length).toUInt64 +
        rtaAlign (rtaLength (UInt64.ofNat data.length)) ↔
      r.capacity < r.base + d.bytes.length + (4 + data.length + 3) % 2 ^ 32 / 4 * 4 := by
  have hn : (rtaAlign (rtaLength (UInt64.ofNat data.length))).toNat =
      (4 + data.length + 3) % 2 ^ 32 / 4 * 4 := by
    rw [toNat_rtaAlign, toNat_rtaLength]
    omega
  rw [h.check h.toNat_nlmsgAlign (by omega), hn]

/-! ## One call -/

/-- An attribute that fits is added, -/
theorem Rep.add_fits {r : Request} {fixed : List UInt8} {s : State} {d : Draft}
    (h : Rep r fixed s d) (hfixed : fixed.length = r.base) {type : UInt16} {data : List UInt8}
    (hfits : Fits r d (.add type data)) :
    ∃ s', call r.capacity (.add type data) s = some (true, s') ∧
      Rep r fixed s' (after (.add type data) d) := by
  have hcapacity := r.capacity_le
  have hle := Rtattr.le_align (4 + data.length)
  simp only [Fits, size] at hfits
  -- what fits is far below the length at which the mask matters
  have hexact : (4 + data.length + 3) % 2 ^ 32 / 4 * 4 = align (4 + data.length) := by
    simp only [align] at hfits ⊢
    omega
  have hoffset := h.toNat_nlmsgAlign
  have hfirst : ¬ UInt64.ofNat r.capacity < (nlmsgAlign s.message.length).toUInt64 +
      rtaAlign (rtaLength (UInt64.ofNat data.length)) := by
    rw [h.check_add, hexact]
    omega
  have hsecond : ¬ r.capacity < (nlmsgAlign s.message.length).toUInt64.toNat + 4 + data.length := by
    omega
  simp only [call, addAttribute, if_neg hfirst, if_neg hsecond, Option.map_some]
  refine ⟨_, rfl, ?_⟩
  have hbytes := length_bytes_after h.aligned (c := .add type data) trivial
  rw [size] at hbytes
  refine ⟨aligned_after h.aligned _, by omega, ?_, ?_, ?_⟩
  · show ((nlmsgAlign s.message.length).toUInt64 +
      rtaAlign (rtaLength (UInt64.ofNat data.length))).toUInt32.toNat = _
    rw [UInt64.toNat_toUInt32, UInt64.toNat_add, hoffset, toNat_rtaAlign, toNat_rtaLength, hbytes]
    omega
  · have hlength : (rtaLength (UInt64.ofNat data.length)).toUInt16.toNat = 4 + data.length := by
      rw [UInt64.toNat_toUInt16, toNat_rtaLength]
      omega
    have hbuffer : (nlmsgAlign s.message.length).toUInt64.toNat ≤ s.message.buffer.length := by
      rw [h.buffer, List.length_append, List.length_append, hfixed, hoffset]
      omega
    have hpoke := poke_poke hbuffer (le16 (rtaLength (UInt64.ofNat data.length)).toUInt16 ++
      le16 type) data
    refine hpoke.trans (h.append hfixed hoffset (n := align data.length - data.length) ?_ ?_)
    · simp only [List.length_append, le16, Rtattr.length_le16]
      simp only [align] at hfits ⊢
      omega
    · rw [after, Draft.bytes_push, Item.wireType, Item.payload, rta, le16, le16, hlength]
  · show s.stack = _
    rw [h.stack, after, Draft.offsets_push]

/-- so is the head of a nested one, -/
theorem Rep.begin_fits {r : Request} {fixed : List UInt8} {s : State} {d : Draft}
    (h : Rep r fixed s d) (hfixed : fixed.length = r.base) {type : UInt16}
    (hfits : Fits r d (.begin type)) :
    ∃ s', call r.capacity (.begin type) s = some (true, s') ∧
      Rep r fixed s' (after (.begin type) d) := by
  have hcapacity := r.capacity_le
  simp only [Fits, size] at hfits
  have hoffset := h.toNat_nlmsgAlign
  have hfour : (rtaAlign (rtaLength 0)).toNat = 4 := rfl
  have hcheck : ¬ UInt64.ofNat r.capacity < (nlmsgAlign s.message.length).toUInt64 +
      rtaAlign (rtaLength 0) := by
    rw [h.check hoffset (by omega), hfour]
    omega
  simp only [call, beginNested, if_neg hcheck]
  refine ⟨_, rfl, ?_⟩
  have hbytes := length_bytes_after h.aligned (c := .begin type) trivial
  rw [size] at hbytes
  refine ⟨aligned_after h.aligned _, by omega, ?_, ?_, ?_⟩
  · show ((nlmsgAlign s.message.length).toUInt64 + rtaAlign (rtaLength 0)).toUInt32.toNat = _
    rw [UInt64.toNat_toUInt32, UInt64.toNat_add, hoffset, hfour, hbytes]
    omega
  · refine h.append hfixed hoffset (n := 0) ?_ ?_
    · simp only [List.length_append, le16, Rtattr.length_le16]
      omega
    · rw [after, Draft.bytes_openNested, List.replicate_zero, List.append_nil]
      rfl
  · show _ :: s.stack = _
    rw [h.stack, after, Draft.offsets_openNested, List.map_cons, hoffset]

/-- and a header in it. -/
theorem Rep.header_fits {r : Request} {fixed : List UInt8} {s : State} {d : Draft}
    (h : Rep r fixed s d) (hfixed : fixed.length = r.base) {bytes : Fin 16 → UInt8}
    (hfresh : d.Fresh) (hfits : Fits r d (.header bytes)) :
    ∃ s', call r.capacity (.header bytes) s = some (true, s') ∧
      Rep r fixed s' (after (.header bytes) d) := by
  have hcapacity := r.capacity_le
  simp only [Fits, size] at hfits
  have hsixteen : (nlmsgAlign (UInt32.ofNat (List.ofFn bytes).length)).toNat = 16 := by
    rw [List.length_ofFn]
    rfl
  have hcheck : ¬ UInt64.ofNat r.capacity < s.message.length.toUInt64 +
      (nlmsgAlign (UInt32.ofNat (List.ofFn bytes).length)).toUInt64 := by
    rw [h.check (by rw [UInt32.toNat_toUInt64, h.length])
      (by rw [UInt32.toNat_toUInt64]; omega), UInt32.toNat_toUInt64, hsixteen]
    omega
  simp only [call, addHeader, if_neg hcheck]
  refine ⟨_, rfl, ?_⟩
  have hbytes := length_bytes_after h.aligned (c := .header bytes) hfresh
  rw [size] at hbytes
  refine ⟨aligned_after h.aligned _, by omega, ?_, ?_, ?_⟩
  · show (s.message.length + nlmsgAlign _).toNat = _
    rw [UInt32.toNat_add, h.length, hsixteen, hbytes]
    omega
  · refine h.append hfixed h.length (n := 0) ?_ ?_
    · rw [List.length_ofFn]
      omega
    · rw [after, Draft.bytes_addHeader hfresh, List.replicate_zero, List.append_nil]
  · show s.stack = _
    rw [h.stack, after, Draft.offsets_addHeader]

/-- The length of the innermost attribute is patched where the attribute starts. -/
theorem Rep.finish {r : Request} {fixed : List UInt8} {s : State} {d : Draft}
    (h : Rep r fixed s d) (hfixed : fixed.length = r.base) (hopen : d.frames ≠ []) :
    ∃ s', call r.capacity .finish s = some (true, s') ∧ Rep r fixed s' (after .finish d) := by
  have hcapacity := r.capacity_le
  have hroom := h.room
  have hlength := h.length
  have hbytes := length_bytes_after h.aligned (c := .finish) hopen
  rcases d with ⟨_ | ⟨f, fs⟩, top⟩
  · exact absurd rfl hopen
  have hsplit : Draft.bytes ⟨f :: fs, top⟩ = Draft.bytes ⟨fs, top⟩ ++ f.bytes := rfl
  have hstack : s.stack = (r.base + (Draft.bytes ⟨fs, top⟩).length) ::
      (Draft.offsets ⟨fs, top⟩).map (r.base + ·) := h.stack
  simp only [call, hstack, endNested]
  refine ⟨_, rfl, aligned_after h.aligned _, by rw [hbytes]; exact hroom, ?_, ?_, ?_⟩
  · rw [hbytes]
    exact hlength
  · rw [hsplit, List.length_append] at hroom hlength
    have hfield : (UInt16.ofNat (s.message.length.toNat -
        (r.base + (Draft.bytes ⟨fs, top⟩).length))).toNat = f.bytes.length := by
      rw [UInt16.toNat_ofNat', hlength]
      omega
    have hoffset : r.base + (Draft.bytes ⟨fs, top⟩).length =
        (fixed ++ Draft.bytes ⟨fs, top⟩).length := by
      rw [List.length_append, hfixed]
    have hdrop : ∀ rest, (f.bytes ++ rest).drop 2 =
        Rtattr.le16 (f.type ||| nlaFNested).toNat ++ (f.header ++ encodeAll f.items) ++ rest :=
      fun _ => rfl
    rw [hbytes, size, Nat.add_zero, after,
      Draft.bytes_closeNested (h.aligned f List.mem_cons_self), le16, hfield, h.buffer, hsplit,
      hoffset, ← List.append_assoc, List.append_assoc (fixed ++ _), poke_append,
      Rtattr.length_le16, hdrop]
    simp only [List.append_assoc]
  · rw [after, Draft.offsets_closeNested]

/-- Any call that fits succeeds. -/
theorem Rep.call_fits {r : Request} {fixed : List UInt8} {s : State} {d : Draft}
    (h : Rep r fixed s d) (hfixed : fixed.length = r.base) {c : Call} (hallows : Allows d c)
    (hfits : Fits r d c) :
    ∃ s', call r.capacity c s = some (true, s') ∧ Rep r fixed s' (after c d) := by
  cases c with
  | add type data => exact h.add_fits hfixed hfits
  | begin type => exact h.begin_fits hfixed hfits
  | header bytes => exact h.header_fits hfixed hallows hfits
  | finish => exact h.finish hfixed hallows

/-- A call without room fails and changes nothing. -/
theorem Rep.call_full {r : Request} {fixed : List UInt8} {s : State} {d : Draft}
    (h : Rep r fixed s d) {c : Call} (hfull : ¬ Fits r d c) (hoverruns : ¬ Overruns r d c) :
    call r.capacity c s = some (false, s) := by
  cases c with
  | add type data =>
    have hcheck : r.capacity < r.base + d.bytes.length + (4 + data.length + 3) % 2 ^ 32 / 4 * 4 :=
      Nat.lt_of_not_le fun hle => hoverruns ⟨hfull, hle⟩
    simp only [call, addAttribute, if_pos (h.check_add data |>.mpr hcheck), Option.map_some]
  | begin type =>
    simp only [Fits, size] at hfull
    have hfour : (rtaAlign (rtaLength 0)).toNat = 4 := rfl
    have hcheck : UInt64.ofNat r.capacity < (nlmsgAlign s.message.length).toUInt64 +
        rtaAlign (rtaLength 0) := by
      rw [h.check h.toNat_nlmsgAlign (by omega), hfour]
      omega
    simp only [call, beginNested, if_pos hcheck]
  | header bytes =>
    simp only [Fits, size] at hfull
    have hsixteen : (nlmsgAlign (UInt32.ofNat (List.ofFn bytes).length)).toUInt64.toNat = 16 := by
      rw [List.length_ofFn]
      rfl
    have hcheck : UInt64.ofNat r.capacity < s.message.length.toUInt64 +
        (nlmsgAlign (UInt32.ofNat (List.ofFn bytes).length)).toUInt64 := by
      rw [h.check (by rw [UInt32.toNat_toUInt64, h.length]) (by omega), hsixteen]
      omega
    simp only [call, addHeader, if_pos hcheck]
  | finish => exact absurd h.room hfull

/-- The check has been passed with the lower half of the length. -/
theorem Rep.call_overruns {r : Request} {fixed : List UInt8} {s : State} {d : Draft}
    (h : Rep r fixed s d) {c : Call} (hoverruns : Overruns r d c) :
    call r.capacity c s = none := by
  cases c with
  | add type data =>
    obtain ⟨hfull, hle⟩ := hoverruns
    simp only [Fits, size] at hfull
    have hcheck : ¬ UInt64.ofNat r.capacity < (nlmsgAlign s.message.length).toUInt64 +
        rtaAlign (rtaLength (UInt64.ofNat data.length)) := by
      rw [h.check_add]
      omega
    have hcapacity := r.capacity_le
    have hend : r.capacity < (nlmsgAlign s.message.length).toUInt64.toNat + 4 + data.length := by
      rw [h.toNat_nlmsgAlign]
      simp only [align] at hfull
      omega
    simp only [call, addAttribute, if_neg hcheck, if_pos hend, Option.map_none]
  | begin type | header bytes | finish => exact hoverruns.elim

/-! ## Sequences of calls -/

/-- The states that properly nested calls reach, with the trees that the successful ones have
    built. -/
inductive Built (r : Request) (fixed : List UInt8) : State → Draft → Prop
  | start : Built r fixed (start r fixed) Draft.empty
  | step {s s' : State} {d : Draft} {c : Call} {ok : Bool} : Built r fixed s d → Allows d c →
      call r.capacity c s = some (ok, s') → Built r fixed s' (if ok then after c d else d)

/-- The bytes of every reachable state spell its tree. -/
theorem Built.rep {r : Request} {fixed : List UInt8} (hfixed : fixed.length = r.base) {s : State}
    {d : Draft} (h : Built r fixed s d) : Rep r fixed s d := by
  induction h with
  | start => exact rep_start
  | @step s s' d c ok _ hallows hcall ih =>
    by_cases hfits : Fits r d c
    · obtain ⟨_, htrue, hrep⟩ := ih.call_fits hfixed hallows hfits
      rw [htrue] at hcall
      cases hcall
      exact hrep
    · by_cases hoverruns : Overruns r d c
      · rw [ih.call_overruns hoverruns] at hcall
        cases hcall
      · rw [ih.call_full hfits hoverruns] at hcall
        cases hcall
        exact ih

/-- The attributes of a message. -/
def State.attributes (r : Request) (s : State) : List UInt8 :=
  (s.message.buffer.take s.message.length.toNat).drop r.base

/-- The attributes of the request are those of the tree. -/
theorem Rep.attributes {r : Request} {fixed : List UInt8} {s : State} {d : Draft}
    (h : Rep r fixed s d) (hfixed : fixed.length = r.base) : s.attributes r = d.bytes := by
  have hlength : s.message.length.toNat = (fixed ++ d.bytes).length := by
    rw [h.length, List.length_append, hfixed]
  rw [State.attributes, h.buffer, hlength, List.take_left, ← hfixed, List.drop_left]

/-- The parser finds the tree in a finished message. -/
theorem Rep.decodes {r : Request} {fixed : List UInt8} {s : State} {d : Draft}
    (h : Rep r fixed s d) (hfixed : fixed.length = r.base) (hdone : s.stack = []) :
    Decodes (s.attributes r) d.top := by
  have hroom := h.room
  have hcapacity := r.capacity_le
  have hstack := h.stack
  rcases d with ⟨_ | ⟨f, fs⟩, top⟩
  · rw [h.attributes hfixed]
    have hbytes : Draft.bytes ⟨[], top⟩ = encodeAll top := rfl
    rw [hbytes] at hroom ⊢
    exact Rtattr.decodes_encodeAll (by omega)
  · rw [hdone] at hstack
    cases hstack

/-- A call does what it should: it succeeds if there is room, and then the message is within its
    capacity and the attribute has its true length; otherwise it fails and changes nothing. -/
def Correct (r : Request) (s : State) (d : Draft) (c : Call) : Prop :=
  ∃ ok s', call r.capacity c s = some (ok, s') ∧ (ok = true ↔ Fits r d c) ∧
    (ok = true → s'.message.length.toNat ≤ r.capacity ∧ attributeLength d c < 2 ^ 16) ∧
    (ok = false → s' = s)

/-- The length field does not overflow. -/
theorem attributeLength_lt {r : Request} {d : Draft} {c : Call} (hfits : Fits r d c) :
    attributeLength d c < 2 ^ 16 := by
  have hcapacity := r.capacity_le
  cases c with
  | add type data =>
    have hle := Rtattr.le_align (4 + data.length)
    simp only [Fits, size] at hfits
    rw [attributeLength]
    omega
  | begin type =>
    show 4 < 2 ^ 16
    decide
  | header bytes =>
    show 0 < 2 ^ 16
    decide
  | finish =>
    rcases d with ⟨_ | ⟨f, fs⟩, top⟩
    · show 0 < 2 ^ 16
      decide
    · have hsplit : Draft.bytes ⟨f :: fs, top⟩ = Draft.bytes ⟨fs, top⟩ ++ f.bytes := rfl
      rw [Fits, hsplit, List.length_append] at hfits
      show f.bytes.length < 2 ^ 16
      omega

/-- A call is correct unless it overruns. -/
theorem Rep.correct_iff {r : Request} {fixed : List UInt8} {s : State} {d : Draft}
    (h : Rep r fixed s d) (hfixed : fixed.length = r.base) {c : Call} (hallows : Allows d c) :
    Correct r s d c ↔ ¬ Overruns r d c := by
  constructor
  · rintro ⟨ok, s', hcall, -⟩ hoverruns
    rw [h.call_overruns hoverruns] at hcall
    cases hcall
  · intro hoverruns
    by_cases hfits : Fits r d c
    · obtain ⟨s', hcall, hrep⟩ := h.call_fits hfixed hallows hfits
      have hlength : s'.message.length.toNat ≤ r.capacity := by
        rw [hrep.length]
        exact hrep.room
      exact ⟨true, s', hcall, by simp [hfits], fun _ => ⟨hlength, attributeLength_lt hfits⟩,
        by simp⟩
    · exact ⟨false, s, h.call_full hfits hoverruns, by simp [hfits], by simp, fun _ => rfl⟩

/-! ## Requests for links -/

/-- Calls of which each is allowed behind the others. -/
def Proper : List Call → Draft → Prop
  | [], _ => True
  | c :: cs, d => Allows d c ∧ Proper cs (after c d)

/-- Properly nested calls that fit all succeed. -/
theorem Rep.calls_fit {r : Request} {fixed : List UInt8} (hfixed : fixed.length = r.base)
    {cs : List Call} {s : State} {d : Draft} (h : Rep r fixed s d) (hproper : Proper cs d)
    (hfits : r.base + d.bytes.length + (cs.map size).sum ≤ r.capacity) :
    ∃ s', calls r.capacity cs s = some (true, s') ∧
      Rep r fixed s' (cs.foldl (fun d c => after c d) d) := by
  induction cs generalizing s d with
  | nil => exact ⟨s, rfl, h⟩
  | cons c cs ih =>
    rw [List.map_cons, List.sum_cons] at hfits
    obtain ⟨s', hcall, hrep⟩ := h.call_fits hfixed hproper.1 (by rw [Fits]; omega)
    have hbytes := length_bytes_after h.aligned hproper.1
    obtain ⟨s'', hcalls, hrep'⟩ := ih hrep hproper.2 (by omega)
    refine ⟨s'', ?_, hrep'⟩
    rw [calls, hcall]
    exact hcalls

/-- Properly nested calls that succeed build what they stand for. -/
theorem Built.calls {r : Request} {fixed : List UInt8} {cs : List Call} {s s' : State} {d : Draft}
    (h : Built r fixed s d) (hproper : Proper cs d)
    (hcalls : calls r.capacity cs s = some (true, s')) :
    Built r fixed s' (cs.foldl (fun d c => after c d) d) := by
  induction cs generalizing s d with
  | nil =>
    cases hcalls
    exact h
  | cons c cs ih =>
    rw [Netlink.calls] at hcalls
    cases hcall : call r.capacity c s with
    | none => simp [hcall] at hcalls
    | some result =>
      obtain ⟨ok, s₁⟩ := result
      cases ok with
      | false => simp [hcall] at hcalls
      | true => exact ih (h.step hproper.1 hcall) hproper.2 (by simpa [hcall] using hcalls)

/-- A request whose calls build a tree is sent with this tree. -/
theorem request_decodes {r : Request} {fixed : List UInt8} (hfixed : fixed.length = r.base)
    {cs : List Call} {items : List Item} (hproper : Proper cs Draft.empty)
    (hsize : (cs.map size).sum ≤ 256)
    (hbuilds : cs.foldl (fun d c => after c d) Draft.empty = ⟨[], items⟩) :
    ∃ s, calls r.capacity cs (start r fixed) = some (true, s) ∧ s.stack = [] ∧
      Decodes (s.attributes r) items := by
  have hfits : r.base + Draft.empty.bytes.length + (cs.map size).sum ≤ r.capacity := by
    have hempty : Draft.empty.bytes.length = 0 := rfl
    have hroom : r.base + 256 ≤ r.capacity := by cases r <;> decide
    omega
  obtain ⟨s, hcalls, hrep⟩ := rep_start.calls_fit hfixed hproper hfits
  rw [hbuilds] at hrep
  exact ⟨s, hcalls, hrep.stack, hrep.decodes hfixed hrep.stack⟩

/-- The attributes that describe a pair of interfaces. -/
def vethTree (host peer : List UInt8) : List Item :=
  [.leaf iflaIfname (cString host),
    .nested iflaLinkinfo [] [.leaf iflaInfoKind (cString (ascii "veth")),
      .nested iflaInfoData [] [.nested vethInfoPeer (List.replicate 16 0)
        [.leaf iflaIfname (cString peer)]]]]

/-- The attribute of an interface name takes 20 bytes at most. -/
theorem size_name {name : List UInt8} (h : name.length ≤ 15) (type : UInt16) :
    size (.add type (cString name)) ≤ 20 := by
  simp only [size, cString, List.length_append, List.length_singleton, align]
  omega

/-- The request for a pair of interfaces. -/
theorem createVeth_decodes {link host peer : List UInt8} (hlink : link.length = 32)
    (hhost : host.length ≤ 15) (hpeer : peer.length ≤ 15) :
    ∃ s, calls Request.link.capacity (createVeth host peer) (start .link link) = some (true, s) ∧
      s.stack = [] ∧ Decodes (s.attributes .link) (vethTree host peer) := by
  refine request_decodes hlink ?_ ?_ ?_
  · refine ⟨trivial, trivial, trivial, trivial, trivial, ⟨_, _, rfl, rfl, rfl⟩, trivial, ?_, ?_, ?_,
      trivial⟩
    all_goals exact List.cons_ne_nil _ _
  · have hhost := size_name hhost iflaIfname
    have hpeer := size_name hpeer iflaIfname
    have hkind : size (.add iflaInfoKind (cString (ascii "veth"))) = 12 := by decide
    simp only [createVeth, List.map_cons, List.map_nil, List.sum_cons, List.sum_nil, hkind]
    simp only [size] at hhost hpeer ⊢
    omega
  · rfl

/-- The name of the bridge, and the kind in a nested attribute. -/
def bridgeTree : List Item :=
  [.leaf iflaIfname (cString (ascii "mcbr0")),
    .nested iflaLinkinfo [] [.leaf iflaInfoKind (cString (ascii "bridge"))]]

theorem proper_createBridge : Proper createBridge Draft.empty :=
  ⟨trivial, trivial, trivial, List.cons_ne_nil _ _, trivial⟩

/-- The request for the bridge. -/
theorem createBridge_decodes {link : List UInt8} (hlink : link.length = 32) :
    ∃ s, calls Request.link.capacity createBridge (start .link link) = some (true, s) ∧
      s.stack = [] ∧ Decodes (s.attributes .link) bridgeTree :=
  request_decodes hlink proper_createBridge (by decide) rfl

/-- The attributes of `configure_link`: those of its arguments that are given. -/
def linkItems (master netnsPid : Int) (newName : Option (List UInt8)) : List Item :=
  (if 0 < master then [.leaf iflaMaster (int32 master)] else []) ++
    (if 0 < netnsPid then [.leaf iflaNetNsPid (int32 netnsPid)] else []) ++
    (newName.map fun name => .leaf iflaIfname (cString name)).toList

/-- The request to configure a link. -/
theorem configureLink_decodes {link : List UInt8} (hlink : link.length = 32)
    (master netnsPid : Int) {newName : Option (List UInt8)}
    (hname : ∀ name ∈ newName, name.length ≤ 15) :
    ∃ s, calls Request.link.capacity (configureLink master netnsPid newName) (start .link link) =
        some (true, s) ∧ s.stack = [] ∧
      Decodes (s.attributes .link) (linkItems master netnsPid newName) := by
  have hint : ∀ type i, size (.add type (int32 i)) = 8 := by
    intro type i
    simp [size, int32, align]
  have hsize : ∀ name ∈ newName, size (.add iflaIfname (cString name)) ≤ 20 :=
    fun name hmem => size_name (hname name hmem) iflaIfname
  refine request_decodes hlink ?_ ?_ ?_
  · simp only [configureLink]
    split <;> split <;> cases newName <;> simp [Proper, Allows]
  · simp only [configureLink]
    cases newName with
    | none => split <;> split <;> simp [hint]
    | some name =>
      have hbound := hsize name rfl
      split <;> split <;> simp [hint] <;> omega
  · simp only [configureLink, linkItems]
    split <;> split <;> cases newName <;> rfl

/-- A link is put on the bridge. -/
theorem configureLink_decodes_master : ∃ s, calls Request.link.capacity (configureLink 3 0 none)
    (start .link (List.replicate 32 0)) = some (true, s) ∧ s.stack = [] ∧
      Decodes (s.attributes .link) [.leaf iflaMaster (int32 3)] :=
  configureLink_decodes rfl 3 0 fun _ h => (by cases h)

/-- In every message under construction, `nlmsg_len` is within the capacity, and a parser finds
    the tree in it when it is finished. A call does what it should unless it overruns the
    message. The request for a pair of interfaces names both and their kind. -/
theorem message_correct_iff {r : Request} {fixed : List UInt8} (hfixed : fixed.length = r.base)
    {s : State} {d : Draft} (hbuilt : Built r fixed s d) :
    s.message.length.toNat ≤ r.capacity ∧
    (s.stack = [] → Decodes (s.attributes r) d.top) ∧
    (∀ c, Allows d c → (Correct r s d c ↔ ¬ Overruns r d c)) ∧
    ∀ link host peer : List UInt8, link.length = Request.link.base → host.length ≤ 15 →
      peer.length ≤ 15 →
      ∃ s, calls Request.link.capacity (createVeth host peer) (start .link link) = some (true, s) ∧
        s.stack = [] ∧ Decodes (s.attributes .link) (vethTree host peer) := by
  have hrep := hbuilt.rep hfixed
  refine ⟨?_, hrep.decodes hfixed, fun c hallows => hrep.correct_iff hfixed hallows,
    fun link host peer hlink => createVeth_decodes hlink⟩
  rw [hrep.length]
  exact hrep.room

/-- The request for the bridge, with a nested attribute. -/
theorem message_correct_bridge :
    ∃ s, calls Request.link.capacity createBridge (start .link (List.replicate 32 0)) =
        some (true, s) ∧ s.message.length.toNat ≤ Request.link.capacity ∧
      Decodes (s.attributes .link) bridgeTree := by
  have hlength : (List.replicate 32 (0 : UInt8)).length = Request.link.base := by decide
  obtain ⟨s, hcalls, hstack, -⟩ := createBridge_decodes hlength
  obtain ⟨hroom, hdecodes, -⟩ :=
    message_correct_iff hlength (Built.start.calls proper_createBridge hcalls)
  exact ⟨s, hcalls, hroom, hdecodes hstack⟩

/-- With a payload of `2 ^ 32 - 4` bytes, `RTA_ALIGN` of the length is zero: the check is passed,
    and the payload is copied behind the end of the request. -/
theorem add_overruns :
    ¬ Correct .link (start .link (List.replicate 32 0)) Draft.empty
      (.add iflaIfname (List.replicate (2 ^ 32 - 4) 0)) := by
  have hrep : Rep .link (List.replicate 32 0) (start .link (List.replicate 32 0)) Draft.empty :=
    rep_start
  have hallows : Allows Draft.empty (.add iflaIfname (List.replicate (2 ^ 32 - 4) 0)) := trivial
  have hbytes : Draft.empty.bytes.length = 0 := rfl
  rw [hrep.correct_iff (by decide) hallows, not_not]
  simp only [Overruns, Fits, size, List.length_replicate, hbytes]
  decide

end MiniContainer.Netlink
