import MiniContainer.ForStd.CString

/-!
# JSON values as json-c presents them

A document in a file is represented by its value: printing and parsing are taken
to be inverse to each other, which json-c guarantees for the strings, booleans
and 64-bit integers it printed itself. What is modelled is the accessor layer,
with json-c's coercions:

* `getEx` finds a member, also one whose value is `null`
* `getInt`, `getInt64`, `getUint64` clamp to the range of their result type, cut the
  fraction of a number off and read booleans and numeric strings as numbers
* `getString` returns the text of a string and the serialised form of anything
  else, and nothing for `null`
-/

namespace JsonC

open CString (Text)

/-- A JSON value. Integers are those of json-c, which range over `int64_t` and `uint64_t`. Of a
    number with a fraction or an exponent the accessors see how it was written, its value cut off
    towards zero and whether it is zero. -/
inductive Value where
  | null
  | bool (b : Bool)
  | int (i : Int)
  | double (literal : Text) (truncated : Int) (nonzero : Bool)
  | str (s : Text)
  | arr (items : List Value)
  | obj (members : List (String × Value))

namespace Value

/-! ## Serialisation -/

/-- A character of a string literal, escaped as json-c escapes it. -/
def escape (c : Char) : Text :=
  if c = '"' then ['\\', '"']
  else if c = '\\' then ['\\', '\\']
  else if c = '/' then ['\\', '/']
  else if c = '\x08' then ['\\', 'b']
  else if c = '\n' then ['\\', 'n']
  else if c = '\r' then ['\\', 'r']
  else if c = '\t' then ['\\', 't']
  else if c = '\x0c' then ['\\', 'f']
  else if c.toNat < 32 then
    ['\\', 'u', '0', '0', Nat.digitChar (c.toNat / 16), Nat.digitChar (c.toNat % 16)]
  else [c]

def quoted (s : Text) : Text := '"' :: s.flatMap escape ++ ['"']

def intText (i : Int) : Text :=
  if i < 0 then '-' :: CString.decimal i.natAbs else CString.decimal i.natAbs

mutual

/-- `json_object_to_json_string`, in the spaced format json-c uses by default. -/
def text : Value → Text
  | .null => "null".toList
  | .bool b => if b then "true".toList else "false".toList
  | .int i => intText i
  | .double literal _ _ => literal
  | .str s => quoted s
  | .arr items => '[' :: textItems items ++ " ]".toList
  | .obj members => '\x7b' :: textMembers members ++ [' ', '\x7d']

def textItems : List Value → Text
  | [] => []
  | [v] => ' ' :: v.text
  | v :: vs => ' ' :: v.text ++ ',' :: textItems vs

def textMembers : List (String × Value) → Text
  | [] => []
  | [(k, v)] => ' ' :: quoted k.toList ++ ": ".toList ++ v.text
  | (k, v) :: ms => ' ' :: quoted k.toList ++ ": ".toList ++ v.text ++ ',' :: textMembers ms

end

/-! ## Accessors -/

/-- `json_object_object_get_ex`: a member of an object. -/
def getEx : Value → String → Option Value
  | .obj members, key => members.lookup key
  | _, _ => none

/-- The signed number at the start of a string, as `strtoll` reads it. -/
def parseInt64 (s : Text) : Int :=
  let (negative, body) := CString.takeSign (s.dropWhile CString.isSpace)
  let n := Nat.ofDigitChars 10 (body.takeWhile Char.isDigit) 0
  if negative then max (-(n : Int)) (-2 ^ 63) else min (n : Int) (2 ^ 63 - 1)

/-- `json_object_get_int64`. -/
def getInt64 : Value → Int
  | .int i => max (-2 ^ 63) (min i (2 ^ 63 - 1))
  | .double _ truncated _ => max (-2 ^ 63) (min truncated (2 ^ 63 - 1))
  | .bool b => if b then 1 else 0
  | .str s => parseInt64 s
  | _ => 0

/-- `json_object_get_int`. -/
def getInt (v : Value) : Int := max (-2 ^ 31) (min v.getInt64 (2 ^ 31 - 1))

/-- `json_object_get_uint64`. -/
def getUint64 : Value → Nat
  | .int i => i.toNat
  | .double _ truncated _ => min truncated.toNat (2 ^ 64 - 1)
  | .bool b => if b then 1 else 0
  | .str s => (CString.strtou 64 s).elim 0 (·.value)
  | _ => 0

/-- `json_object_get_boolean`. -/
def getBoolean : Value → Bool
  | .bool b => b
  | .int i => i != 0
  | .double _ _ nonzero => nonzero
  | .str s => !s.isEmpty
  | _ => false

/-- `json_object_get_string`. -/
def getString : Value → Option Text
  | .null => none
  | .str s => some s
  | v => some v.text

/-- The elements of a value of type array. -/
def getArray? : Value → Option (List Value)
  | .arr items => some items
  | _ => none

/-- The text of a value of type string. -/
def getStr? : Value → Option Text
  | .str s => some s
  | _ => none

/-- A member that is only added when there is a value for it. -/
def optional (key : String) (value : Option Value) : List (String × Value) :=
  value.toList.map (key, ·)

/-! ## Reading back what was stored -/

@[simp] theorem lookup_optional_self (key : String) (value : Option Value)
    (rest : List (String × Value)) :
    (optional key value ++ rest).lookup key = value.or (rest.lookup key) := by
  cases value <;> simp [optional]

/-- An optional member does not hide the members behind it. -/
theorem lookup_optional_ne {key key' : String} (h : (key == key') = false)
    (value : Option Value) (rest : List (String × Value)) :
    (optional key' value ++ rest).lookup key = rest.lookup key := by
  cases value <;> simp [optional, List.lookup_cons, h]

@[simp] theorem getEx_obj (members : List (String × Value)) (key : String) :
    (obj members).getEx key = members.lookup key := rfl

@[simp] theorem getString_str (s : Text) : (str s).getString = some s := rfl

@[simp] theorem getStr?_str (s : Text) : (str s).getStr? = some s := rfl

@[simp] theorem getArray?_arr (items : List Value) : (arr items).getArray? = some items := rfl

@[simp] theorem getBoolean_bool (b : Bool) : (bool b).getBoolean = b := rfl

/-- An integer stored in the range of `int` reads back. -/
theorem getInt_int {i : Int} (h₁ : -2 ^ 31 ≤ i) (h₂ : i < 2 ^ 31) : (int i).getInt = i := by
  simp only [getInt, getInt64]
  omega

/-- An integer stored in the range of `int64_t` reads back. -/
theorem getInt64_int {i : Int} (h₁ : -2 ^ 63 ≤ i) (h₂ : i < 2 ^ 63) : (int i).getInt64 = i := by
  simp only [getInt64]
  omega

@[simp] theorem getUint64_int (n : Nat) : (int n).getUint64 = n := rfl

end Value

/-! ## Narrowing casts

The C code casts the integers json-c returns to the type of a struct member. -/

/-- `(uint8_t)i`. -/
def toU8 (i : Int) : UInt8 := UInt8.ofNat (i % 2 ^ 8).toNat

/-- `(uint16_t)i`. -/
def toU16 (i : Int) : UInt16 := UInt16.ofNat (i % 2 ^ 16).toNat

/-- `(uint32_t)i`. -/
def toU32 (i : Int) : UInt32 := UInt32.ofNat (i % 2 ^ 32).toNat

@[simp] theorem toU8_toNat (x : UInt8) : toU8 x.toNat = x := by
  have hx := x.toNat_lt
  have h : ((x.toNat : Int) % 2 ^ 8).toNat = x.toNat := by omega
  rw [toU8, h, UInt8.ofNat_toNat]

@[simp] theorem toU16_toNat (x : UInt16) : toU16 x.toNat = x := by
  have hx := x.toNat_lt
  have h : ((x.toNat : Int) % 2 ^ 16).toNat = x.toNat := by omega
  rw [toU16, h, UInt16.ofNat_toNat]

@[simp] theorem toU32_toNat (x : UInt32) : toU32 x.toNat = x := by
  have hx := x.toNat_lt
  have h : ((x.toNat : Int) % 2 ^ 32).toNat = x.toNat := by omega
  rw [toU32, h, UInt32.ofNat_toNat]

end JsonC
