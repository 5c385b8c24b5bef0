import Mathlib.Data.List.Basic
import Mathlib.Algebra.Order.Ring.Int

/-!
# Routing attributes

The format of netlink attributes (`struct rtattr`): a length and a type of 16 bits each in
the byte order of the machine, little-endian here, then the payload, padded to a multiple
of four bytes. The payload of a nested attribute consists of attributes again, behind a
header of the protocol if it has one.

* `parse` is the loop over `RTA_OK` and `RTA_NEXT`
* `Decodes` says that this loop, applied level by level, finds a tree of attributes
* `decodes_encodeAll` recovers every tree that fits the 16 bits of the outermost length
* `Draft` is a tree under construction, with the bytes that a writer has produced for it so far
-/

namespace Rtattr

/-- `struct rtattr` has two members of 16 bits. -/
def le16 (n : Nat) : List UInt8 := [UInt8.ofNat (n % 256), UInt8.ofNat (n / 256 % 256)]

@[simp] theorem length_le16 (n : Nat) : (le16 n).length = 2 := rfl

/-- `RTA_ALIGN` and `NLMSG_ALIGN` of small numbers. -/
def align (n : Nat) : Nat := (n + 3) / 4 * 4

theorem le_align (n : Nat) : n ≤ align n := by
  simp only [align]
  omega

theorem align_of_mod {n : Nat} (h : n % 4 = 0) : align n = n := by
  simp only [align]
  omega

theorem align_mod (n : Nat) : align n % 4 = 0 := by
  simp only [align]
  omega

/-! ## One attribute -/

/-- The bytes of an attribute. -/
def rta (type : UInt16) (payload : List UInt8) : List UInt8 :=
  le16 (4 + payload.length) ++ le16 type.toNat ++ payload ++
    List.replicate (align payload.length - payload.length) 0

theorem length_rta (type : UInt16) (payload : List UInt8) :
    (rta type payload).length = align (4 + payload.length) := by
  have hle := le_align payload.length
  simp only [rta, List.length_append, length_le16, List.length_replicate]
  simp only [align] at hle ⊢
  omega

/-- The number in two bytes. -/
def word (bytes : List UInt8) : Nat :=
  match bytes with
  | low :: high :: _ => low.toNat + 256 * high.toNat
  | _ => 0

theorem word_le16 {n : Nat} (h : n < 2 ^ 16) (rest : List UInt8) : word (le16 n ++ rest) = n := by
  simp only [le16, List.cons_append, word, UInt8.toNat_ofNat']
  omega

/-- The loop of a parser over the attributes in a buffer, `RTA_OK` and `RTA_NEXT`, for at most
    so many of them: their types and payloads. -/
def parseLoop : Nat → List UInt8 → List (UInt16 × List UInt8)
  | 0, _ => []
  | n + 1, bytes =>
    let length := word bytes
    if 4 ≤ bytes.length ∧ 4 ≤ length ∧ length ≤ bytes.length then
      (UInt16.ofNat (word (bytes.drop 2)), (bytes.take length).drop 4) ::
        parseLoop n (bytes.drop (align length))
    else []

/-- Every attribute takes four bytes at least. -/
def parse (bytes : List UInt8) : List (UInt16 × List UInt8) :=
  parseLoop (bytes.length / 4) bytes

theorem parseLoop_rta {n : Nat} {type : UInt16} {payload : List UInt8}
    (h : 4 + payload.length < 2 ^ 16) (rest : List UInt8) :
    parseLoop (n + 1) (rta type payload ++ rest) =
      (type, payload) :: parseLoop n rest := by
  have hsplit : rta type payload ++ rest = le16 (4 + payload.length) ++
      (le16 type.toNat ++ (payload ++
        (List.replicate (align payload.length - payload.length) 0 ++ rest))) := by
    simp [rta]
  have hlength : word (rta type payload ++ rest) = 4 + payload.length := by
    rw [hsplit]
    exact word_le16 h _
  have htype : word ((rta type payload ++ rest).drop 2) = type.toNat := by
    rw [hsplit]
    exact word_le16 type.toNat_lt _
  have hpayload : ((rta type payload ++ rest).take (4 + payload.length)).drop 4 = payload := by
    rw [hsplit, ← List.append_assoc, List.take_append]
    simp
  have hrest : (rta type payload ++ rest).drop (align (4 + payload.length)) = rest := by
    rw [← length_rta type payload, List.drop_left]
  have hle := le_align (4 + payload.length)
  have hbytes : (rta type payload ++ rest).length = align (4 + payload.length) + rest.length := by
    rw [List.length_append, length_rta]
  rw [parseLoop, hlength, if_pos (by omega), htype, UInt16.ofNat_toNat, hpayload, hrest]

/-! ## Trees -/

/-- `NLA_F_NESTED`. -/
def nlaFNested : UInt16 := 0x8000

/-- What attributes stand for. -/
inductive Item where
  | leaf (type : UInt16) (payload : List UInt8)
  /-- A nested attribute, with the header in front of its attributes. -/
  | nested (type : UInt16) (header : List UInt8) (items : List Item)

namespace Item

/-- The type as it is transmitted. -/
def wireType : Item → UInt16
  | leaf type _ => type
  | nested type _ _ => type ||| nlaFNested

mutual

/-- The payload of the attribute. -/
def payload : Item → List UInt8
  | leaf _ payload => payload
  | nested _ header items => header ++ encodeAll items

/-- The bytes of attributes one behind the other. -/
def encodeAll : List Item → List UInt8
  | [] => []
  | item :: items => rta item.wireType item.payload ++ encodeAll items

end

theorem encodeAll_append (a b : List Item) : encodeAll (a ++ b) = encodeAll a ++ encodeAll b := by
  induction a with
  | nil => rfl
  | cons i is ih => rw [List.cons_append, encodeAll, encodeAll, ih, List.append_assoc]

theorem encodeAll_singleton (i : Item) : encodeAll [i] = rta i.wireType i.payload := by
  rw [encodeAll, encodeAll, List.append_nil]

theorem length_encodeAll_mod (items : List Item) : (encodeAll items).length % 4 = 0 := by
  induction items with
  | nil => rfl
  | cons i is ih =>
    have halign := align_mod (4 + i.payload.length)
    rw [encodeAll, List.length_append, length_rta]
    omega

mutual

/-- The parsed attribute is the item. -/
def Is : Item → UInt16 × List UInt8 → Prop
  | leaf type payload, found => found = (type, payload)
  | nested type header items, found => found.1 = type ||| nlaFNested ∧
      ∃ rest, found.2 = header ++ rest ∧ AreAll items (parse rest)

/-- The parsed attributes are the items, in order. -/
def AreAll : List Item → List (UInt16 × List UInt8) → Prop
  | [], found => found = []
  | item :: items, found => ∃ first others, found = first :: others ∧ item.Is first ∧
      AreAll items others

end

end Item

/-- A parser that goes through the bytes level by level finds exactly these attributes. -/
def Decodes (bytes : List UInt8) (items : List Item) : Prop := Item.AreAll items (parse bytes)

open Item

/-- With enough steps the loop finds all attributes of a level. -/
theorem parseLoop_encodeAll {items : List Item} (h : (encodeAll items).length < 2 ^ 16) {n : Nat}
    (hn : (encodeAll items).length ≤ 4 * n) :
    parseLoop n (encodeAll items) = items.map fun i => (i.wireType, i.payload) := by
  induction items generalizing n with
  | nil =>
    cases n with
    | zero | succ n => rfl
  | cons i is ih =>
    have hlength := length_rta i.wireType i.payload
    have hle := le_align (4 + i.payload.length)
    rw [encodeAll, List.length_append, hlength] at h hn
    cases n with
    | zero => omega
    | succ n =>
      rw [encodeAll, parseLoop_rta (by omega), ih (by omega) (by omega), List.map_cons]

mutual

/-- An item reads as itself, -/
theorem is_payload (i : Item) (h : i.payload.length < 2 ^ 16) :
    i.Is (i.wireType, i.payload) := by
  cases i with
  | leaf type payload => rw [Is, wireType, Item.payload]
  | nested type header items =>
    rw [Is]
    have hitems : (encodeAll items).length < 2 ^ 16 := by
      rw [Item.payload, List.length_append] at h
      omega
    refine ⟨rfl, encodeAll items, by rw [Item.payload], ?_⟩
    rw [parse, parseLoop_encodeAll hitems (by have := length_encodeAll_mod items; omega)]
    exact areAll_map items hitems

/-- and so do items in a row. -/
theorem areAll_map (items : List Item) (h : (encodeAll items).length < 2 ^ 16) :
    AreAll items (items.map fun i => (i.wireType, i.payload)) := by
  cases items with
  | nil => rw [AreAll]; rfl
  | cons i is =>
    rw [AreAll]
    have hlength := length_rta i.wireType i.payload
    have hle := le_align (4 + i.payload.length)
    rw [encodeAll, List.length_append, hlength] at h
    exact ⟨_, _, rfl, is_payload i (by omega), areAll_map is (by omega)⟩

end

/-- What was encoded is decoded. -/
theorem decodes_encodeAll {items : List Item} (h : (encodeAll items).length < 2 ^ 16) :
    Decodes (encodeAll items) items := by
  rw [Decodes, parse, parseLoop_encodeAll h (by have := length_encodeAll_mod items; omega)]
  exact areAll_map items h

/-! ## Trees under construction -/

/-- A nested attribute that is still open. -/
structure Frame where
  type : UInt16
  header : List UInt8
  items : List Item

/-- The length of an open attribute is that of its own header until it is closed. -/
def Frame.bytes (f : Frame) : List UInt8 :=
  le16 4 ++ le16 (f.type ||| nlaFNested).toNat ++ (f.header ++ encodeAll f.items)

/-- The open attributes, the innermost first, behind the finished ones of the outermost level. -/
structure Draft where
  frames : List Frame
  top : List Item

namespace Draft

/-- The bytes written for open attributes behind finished ones. -/
def bytesOf (top : List Item) : List Frame → List UInt8
  | [] => encodeAll top
  | f :: fs => bytesOf top fs ++ f.bytes

/-- Where the open attributes start. -/
def offsetsOf (top : List Item) : List Frame → List Nat
  | [] => []
  | _ :: fs => (bytesOf top fs).length :: offsetsOf top fs

def bytes (d : Draft) : List UInt8 := bytesOf d.top d.frames

@[inherit_doc offsetsOf]
def offsets (d : Draft) : List Nat := offsetsOf d.top d.frames

def empty : Draft := ⟨[], []⟩

/-- An attribute is finished on the innermost level. -/
def push (i : Item) (d : Draft) : Draft :=
  match d.frames with
  | [] => { d with top := d.top ++ [i] }
  | f :: fs => { d with frames := { f with items := f.items ++ [i] } :: fs }

/-- An attribute is opened, -/
def openNested (type : UInt16) (d : Draft) : Draft :=
  { d with frames := ⟨type, [], []⟩ :: d.frames }

/-- gets a header, -/
def addHeader (header : List UInt8) (d : Draft) : Draft :=
  match d.frames with
  | [] => d
  | f :: fs => { d with frames := { f with header := f.header ++ header } :: fs }

/-- and is closed. -/
def closeNested (d : Draft) : Draft :=
  match d.frames with
  | [] => d
  | f :: fs => push (.nested f.type f.header f.items) { d with frames := fs }

theorem bytes_push (i : Item) (d : Draft) :
    (d.push i).bytes = d.bytes ++ rta i.wireType i.payload := by
  rcases d with ⟨_ | ⟨f, fs⟩, top⟩
  · show encodeAll (top ++ [i]) = encodeAll top ++ _
    rw [encodeAll_append, encodeAll_singleton]
  · simp only [push, bytes, bytesOf, Frame.bytes, encodeAll_append, encodeAll_singleton,
      List.append_assoc]

theorem offsets_push (i : Item) (d : Draft) : (d.push i).offsets = d.offsets := by
  rcases d with ⟨_ | ⟨f, fs⟩, top⟩ <;> rfl

theorem bytes_openNested (type : UInt16) (d : Draft) :
    (d.openNested type).bytes = d.bytes ++ (le16 4 ++ le16 (type ||| nlaFNested).toNat) := by
  simp only [openNested, bytes, bytesOf, Frame.bytes, encodeAll, List.append_nil]

theorem offsets_openNested (type : UInt16) (d : Draft) :
    (d.openNested type).offsets = d.bytes.length :: d.offsets := rfl

/-- Nothing has been written behind the header of the innermost open attribute. -/
def Fresh (d : Draft) : Prop := ∃ f fs, d.frames = f :: fs ∧ f.header = [] ∧ f.items = []

theorem bytes_addHeader {d : Draft} (h : d.Fresh) (header : List UInt8) :
    (d.addHeader header).bytes = d.bytes ++ header := by
  rcases d with ⟨frames, top⟩
  obtain ⟨f, fs, hframes, hheader, hitems⟩ := h
  dsimp only at hframes
  subst hframes
  simp only [addHeader, bytes, bytesOf, Frame.bytes, hheader, hitems, encodeAll, List.append_nil,
    List.nil_append, List.append_assoc]

theorem offsets_addHeader {d : Draft} (header : List UInt8) :
    (d.addHeader header).offsets = d.offsets := by
  rcases d with ⟨_ | ⟨f, fs⟩, top⟩ <;> rfl

/-- The headers of the open attributes keep the alignment. -/
def Aligned (d : Draft) : Prop := ∀ f ∈ d.frames, f.header.length % 4 = 0

theorem Aligned.length_bytes {d : Draft} (h : d.Aligned) : d.bytes.length % 4 = 0 := by
  rcases d with ⟨frames, top⟩
  induction frames with
  | nil => exact length_encodeAll_mod top
  | cons f fs ih =>
    have hfs := ih fun g hg => h g (List.mem_cons_of_mem _ hg)
    have hf : f.header.length % 4 = 0 := h f List.mem_cons_self
    have hitems := length_encodeAll_mod f.items
    simp only [bytes, bytesOf, Frame.bytes, List.length_append, length_le16] at hfs ⊢
    omega

theorem Aligned.push {d : Draft} (h : d.Aligned) (i : Item) : (d.push i).Aligned := by
  rcases d with ⟨_ | ⟨f, fs⟩, top⟩
  · exact h
  · exact List.forall_mem_cons.mpr (List.forall_mem_cons.mp h)

theorem Aligned.openNested {d : Draft} (h : d.Aligned) (type : UInt16) :
    (d.openNested type).Aligned := List.forall_mem_cons.mpr ⟨rfl, h⟩

theorem Aligned.addHeader {d : Draft} (h : d.Aligned) {header : List UInt8}
    (hheader : header.length % 4 = 0) : (d.addHeader header).Aligned := by
  rcases d with ⟨_ | ⟨f, fs⟩, top⟩
  · exact h
  · obtain ⟨hf, hfs⟩ := List.forall_mem_cons.mp h
    refine List.forall_mem_cons.mpr ⟨?_, hfs⟩
    rw [List.length_append]
    omega

theorem Aligned.closeNested {d : Draft} (h : d.Aligned) : d.closeNested.Aligned := by
  rcases d with ⟨_ | ⟨f, fs⟩, top⟩
  · exact h
  · have hfs : Aligned ⟨fs, top⟩ := (List.forall_mem_cons.mp h).2
    exact hfs.push _

/-- Closing an attribute changes the length in it, and nothing else. -/
theorem bytes_closeNested {f : Frame} {fs : List Frame} {top : List Item}
    (h : f.header.length % 4 = 0) :
    (closeNested ⟨f :: fs, top⟩).bytes = bytes ⟨fs, top⟩ ++
      (le16 f.bytes.length ++ le16 (f.type ||| nlaFNested).toNat ++
        (f.header ++ encodeAll f.items)) := by
  have hitems := length_encodeAll_mod f.items
  have halign : align (f.header ++ encodeAll f.items).length -
      (f.header ++ encodeAll f.items).length = 0 := by
    rw [align_of_mod (by rw [List.length_append]; omega), Nat.sub_self]
  have hlength : f.bytes.length = 4 + (f.header ++ encodeAll f.items).length := by
    simp only [Frame.bytes, List.length_append, length_le16]
  rw [closeNested, bytes_push, rta, wireType, Item.payload, halign, hlength]
  simp only [List.replicate_zero, List.append_nil]

theorem offsets_closeNested (f : Frame) (fs : List Frame) (top : List Item) :
    (closeNested ⟨f :: fs, top⟩).offsets = offsets ⟨fs, top⟩ := by
  rw [closeNested, offsets_push]

theorem length_bytes_closeNested {d : Draft} (h : d.Aligned) :
    d.closeNested.bytes.length = d.bytes.length := by
  rcases d with ⟨_ | ⟨f, fs⟩, top⟩
  · rfl
  · rw [bytes_closeNested (h f List.mem_cons_self)]
    simp only [bytes, bytesOf, Frame.bytes, List.length_append, length_le16]

end Draft

end Rtattr
