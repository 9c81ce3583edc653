import Amd64.Address.Basic
import Amd64.Numeral

/-!
The bytes of an address inside an instruction: a ModR/M byte, perhaps a SIB
byte, and a displacement of no, one or four bytes. The fourth bits of the two
register numbers are left to the REX prefix of the instruction.

A ModR/M byte with mode 0 and register field 5 would be relative to the
instruction pointer, and with register field 4 it announces a SIB byte. A SIB
byte with index field 4 has no index, and with base field 5 under mode 0 it has
no base and a four-byte displacement.
-/

namespace Amd64

/-- A byte of three fields: two bits, three bits and three bits, the highest
first. -/
def packFields (high middle low : Nat) : UInt8 :=
  UInt8.ofNat (high % 4 * 64 + middle % 8 * 8 + low % 8)

/-- A byte of two, three and three bits. Fields that are too large lose their
high bits here, so that no bound on them is assumed. -/
theorem toNat_packFields (high middle low : Nat) :
    (packFields high middle low).toNat = high % 4 * 64 + middle % 8 * 8 + low % 8 := by
  have hByte : (packFields high middle low).toNat =
      (high % 4 * 64 + middle % 8 * 8 + low % 8) % 256 := UInt8.toNat_ofNat'
  omega

/-- The displacement field of an encoded address. -/
inductive Displacement where
  | none
  /-- One byte, sign-extended. -/
  | byte (value : Int8)
  | word (value : Int32)
  deriving DecidableEq

namespace Displacement

/-- The bytes of a field, the low one first. -/
def bytes : Displacement → List UInt8
  | none => []
  | byte value => [value.toUInt8]
  | word value => LittleEndian.word value

def length : Displacement → Nat
  | none => 0
  | byte _ => 1
  | word _ => 4

def isEmpty : Displacement → Bool
  | none => true
  | _ => false

/-- The mode bits that announce this field after a base register. -/
def mode : Displacement → Nat
  | none => 0
  | byte _ => 1
  | word _ => 2

/-- Whether a displacement survives being cut to one byte. -/
def fitsByte (value : Int32) : Bool :=
  -128 ≤ value.toInt ∧ value.toInt ≤ 127

/-- The shortest field for a displacement beside a base register. A fixup needs
the four-byte field, and some base registers need a field in any case. -/
def choose (value : Int32) (hasFixup needsField : Bool) : Displacement :=
  if hasFixup then word value
  else if value = 0 && !needsField then none
  else if fitsByte value then byte value.toInt8
  else word value

theorem length_bytes (field : Displacement) : field.bytes.length = field.length := by
  cases field <;> simp [bytes, length]

end Displacement

/-- The parts of an encoded address. -/
structure AddressEncoding where
  modrm : UInt8
  sib : Option UInt8
  displacement : Displacement
  rexX : Bool
  rexB : Bool
  fixup : Option FixupRef

namespace AddressEncoding

/-- How many bytes come before the displacement. -/
def displacementStart (encoding : AddressEncoding) : Nat :=
  1 + encoding.sib.toList.length

def length (encoding : AddressEncoding) : Nat :=
  encoding.displacementStart + encoding.displacement.length

def bytes (encoding : AddressEncoding) : List UInt8 :=
  encoding.modrm :: encoding.sib.toList ++ encoding.displacement.bytes

/-- Writes the bytes at the end of `before`, and tells where the displacement
begins. -/
def writeTo (encoding : AddressEncoding) (before : List UInt8) : List UInt8 × Option Nat :=
  (before ++ encoding.bytes,
    if encoding.displacement.isEmpty then none
    else some (before.length + encoding.displacementStart))

theorem length_bytes (encoding : AddressEncoding) : encoding.bytes.length = encoding.length := by
  simp [bytes, length, displacementStart, Displacement.length_bytes]
  omega

end AddressEncoding

namespace Address

/-- The field value that announces a SIB byte, and inside one the absence of an
index. -/
def sibField : Nat := 4

/-- The field value that stands for no base register under mode 0. -/
def noBaseField : Nat := 5

/-- The encoding of an address beside a register or an opcode extension
`reg`. -/
def encode (address : Address) (reg : Nat) : AddressEncoding :=
  let value := address.displacement
  let hasFixup := address.fixup.isSome
  match address.base, address.index with
  | none, none =>
      ⟨packFields 0 reg sibField, some (packFields 0 sibField noBaseField), .word value,
        false, false, address.fixup⟩
  | some base, none =>
      let field := Displacement.choose value hasFixup (base.low = noBaseField)
      if base.low = sibField then
        ⟨packFields field.mode reg sibField, some (packFields 0 sibField base.low), field,
          false, base.isHigh, address.fixup⟩
      else
        ⟨packFields field.mode reg base.low, none, field, false, base.isHigh, address.fixup⟩
  | none, some index =>
      ⟨packFields 0 reg sibField,
        some (packFields index.scale.shift index.register.low noBaseField), .word value,
        index.register.isHigh, false, address.fixup⟩
  | some base, some index =>
      let field := Displacement.choose value hasFixup (base.low = noBaseField)
      ⟨packFields field.mode reg sibField,
        some (packFields index.scale.shift index.register.low base.low), field,
        index.register.isHigh, base.isHigh, address.fixup⟩

end Address

end Amd64
