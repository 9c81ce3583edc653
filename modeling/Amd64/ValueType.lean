/-!
The types of the values that instructions move and compare, with the x86
spelling of what depends on the type: mnemonic suffixes, widths and the text of
the type itself.
-/

namespace Amd64

/-- The type of a value: nothing, a scalar integer, a scalar float, or sixteen
bytes of lanes. -/
inductive ValueType where
  | void | i1 | i8 | i16 | i32 | i64 | f32 | f64
  | v4i1 | v8i1 | v16i1 | v16i8 | v8i16 | v4i32 | v4f32
  deriving DecidableEq

namespace ValueType

/-- Every type, scalars first. -/
def all : List ValueType :=
  [void, i1, i8, i16, i32, i64, f32, f64, v4i1, v8i1, v16i1, v16i8, v8i16, v4i32, v4f32]

def tag : ValueType → String
  | void => "Void" | i1 => "I1" | i8 => "I8" | i16 => "I16" | i32 => "I32" | i64 => "I64"
  | f32 => "F32" | f64 => "F64" | v4i1 => "V4I1" | v8i1 => "V8I1" | v16i1 => "V16I1"
  | v16i8 => "V16I8" | v8i16 => "V8I16" | v4i32 => "V4I32" | v4f32 => "V4F32"

def ofTag? (tag : String) : Option ValueType :=
  all.find? fun type => type.tag = tag

/-- The text of a type in listings and messages. -/
def text : ValueType → String
  | void => "void" | i1 => "i1" | i8 => "i8" | i16 => "i16" | i32 => "i32" | i64 => "i64"
  | f32 => "float" | f64 => "double" | v4i1 => "<4 x i1>" | v8i1 => "<8 x i1>"
  | v16i1 => "<16 x i1>" | v16i8 => "<16 x i8>" | v8i16 => "<8 x i16>"
  | v4i32 => "<4 x i32>" | v4f32 => "<4 x float>"

/-- The number of bytes that a value takes in memory. -/
def byteWidth : ValueType → Nat
  | void => 0
  | i1 | i8 => 1
  | i16 => 2
  | i32 | f32 => 4
  | i64 | f64 => 8
  | v4i1 | v8i1 | v16i1 | v16i8 | v8i16 | v4i32 | v4f32 => 16

def isInteger : ValueType → Bool
  | i1 | i8 | i16 | i32 | i64 => true
  | _ => false

def isFloat : ValueType → Bool
  | f32 | f64 => true
  | _ => false

/-- A full XMM register of lanes. -/
def isVector (type : ValueType) : Bool :=
  type.byteWidth = 16

/-- Values of these types live in XMM registers, all others in general-purpose
registers. -/
def isXmm (type : ValueType) : Bool :=
  type.isFloat || type.isVector

/-- The spellings that instruction selection takes from a type. An empty text
stands for "has none", and a question mark for a conversion that does not
exist. -/
structure Attributes where
  /-- The lane type of a vector; `void` or the type itself for a scalar. -/
  element : ValueType
  /-- The type's part of a conversion mnemonic. -/
  conversion : String
  /-- The suffix of scalar float instructions. -/
  scalarSuffix : String
  /-- The suffix of packed float instructions. -/
  packedSuffix : String
  /-- The scalar suffix of the other float precision. -/
  otherPrecision : String
  /-- The lane suffix of pack and unpack instructions. -/
  laneSuffix : String
  /-- The operand-size suffix of integer instructions. -/
  sizeSuffix : String
  /-- The suffix of floating-point stack loads and stores. -/
  stackSuffix : String
  /-- The width in bits; a truth value has one. -/
  bits : Nat
  /-- A literal of the type. -/
  sample : String

def attributes : ValueType → Attributes
  | void => ⟨void, "?", "", "", "", "", "", "", 0, ""⟩
  | i1 => ⟨void, "si", "", "", "", "", "b", "", 1, "1"⟩
  | i8 => ⟨void, "si", "", "", "", "", "b", "", 8, "-1"⟩
  | i16 => ⟨void, "si", "", "", "", "", "w", "", 16, "4096"⟩
  | i32 => ⟨i32, "si", "", "", "", "", "l", "", 32, "42"⟩
  | i64 => ⟨i64, "si", "", "", "", "", "q", "", 64, "-2"⟩
  | f32 => ⟨f32, "ss", "ss", "ps", "sd", "", "", "s", 32, "1.5"⟩
  | f64 => ⟨f64, "sd", "sd", "pd", "ss", "", "", "l", 64, "0.25"⟩
  | v4i1 => ⟨i32, "?", "", "", "", "d", "", "", 128, "<1, 0, 1, 0>"⟩
  | v8i1 => ⟨i16, "?", "", "", "", "w", "", "", 128, "<1, 0, 1, 0, 1, 0, 1, 0>"⟩
  | v16i1 => ⟨i8, "?", "", "", "", "b", "", "", 128, "<1, 1, 0, 0, ...>"⟩
  | v16i8 => ⟨i8, "?", "", "", "", "b", "", "", 128, "<0, 1, 2, 3, ...>"⟩
  | v8i16 => ⟨i16, "?", "", "", "", "w", "", "", 128, "<0, 1, 2, 3, 4, 5, 6, 7>"⟩
  | v4i32 => ⟨i32, "dq", "", "", "", "d", "", "", 128, "<0, 1, 2, 3>"⟩
  | v4f32 => ⟨f32, "ps", "", "ps", "", "", "", "", 128, "<0.0, 0.5, 1.0, 1.5>"⟩

theorem ofTag?_tag (type : ValueType) : ofTag? type.tag = some type := by
  cases type <;> decide

end ValueType

end Amd64
