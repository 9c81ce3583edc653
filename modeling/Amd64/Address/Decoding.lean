import Amd64.Address.Encoding

/-!
How a processor in 64-bit mode reads a ModR/M byte, the SIB byte and the
displacement that may follow it, given the two bits that a REX prefix adds to
the register numbers. Nothing here refers to how addresses are encoded.
-/

namespace Amd64

/-- A memory operand as a processor reads it. -/
structure MemoryReference where
  base : Option (Fin 16)
  index : Option (Fin 16 × Scale)
  displacement : Int32
  deriving DecidableEq

/-- What the mode and the second register field of a ModR/M byte denote. -/
inductive ModRMOperand where
  | register (number : Fin 16)
  | memory (reference : MemoryReference)
  /-- Memory at a distance from the next instruction. -/
  | relative (displacement : Int32)
  deriving DecidableEq

/-- A ModR/M byte with all that belongs to it. The fourth bit of the register
field is not part of it. -/
structure ModRM where
  reg : Fin 8
  operand : ModRMOperand
  deriving DecidableEq

/-- A register number from its three low bits and its fourth bit. -/
def registerOfBits (high : Bool) (low : Nat) : Fin 16 :=
  ⟨8 * high.toNat + low % 8, by have := Bool.toNat_le high; omega⟩

namespace ModRM

/-- Reads a displacement of no, one or four bytes, as the mode says, and
extends its sign. -/
def readDisplacement (mode : Nat) (bytes : List UInt8) : Option (Int32 × List UInt8) :=
  match mode, bytes with
  | 0, rest => some (0, rest)
  | 1, byte :: rest => some (byte.toInt8.toInt32, rest)
  | 2, bytes => LittleEndian.readWord bytes
  | _, _ => none

/-- Reads a SIB byte and the displacement after it. -/
def readSib (mode : Nat) (x b : Bool) : List UInt8 → Option (MemoryReference × List UInt8)
  | [] => none
  | byte :: rest => do
      let scale ← Scale.ofShift? (byte.toNat / 64)
      let number := registerOfBits x (byte.toNat / 8)
      let index := if number.val = 4 then none else some (number, scale)
      if mode = 0 ∧ byte.toNat % 8 = 5 then
        let (displacement, rest) ← LittleEndian.readWord rest
        return (⟨none, index, displacement⟩, rest)
      else
        let (displacement, rest) ← readDisplacement mode rest
        return (⟨some (registerOfBits b byte.toNat), index, displacement⟩, rest)

/-- Reads a ModR/M byte and what belongs to it, and gives the bytes after
it. -/
def read (x b : Bool) : List UInt8 → Option (ModRM × List UInt8)
  | [] => none
  | byte :: rest => do
      let mode := byte.toNat / 64
      let reg := ⟨byte.toNat / 8 % 8, Nat.mod_lt _ (by decide)⟩
      let low := byte.toNat % 8
      if mode = 3 then
        return (⟨reg, .register (registerOfBits b low)⟩, rest)
      else if low = 4 then
        let (reference, rest) ← readSib mode x b rest
        return (⟨reg, .memory reference⟩, rest)
      else if mode = 0 ∧ low = 5 then
        let (displacement, rest) ← LittleEndian.readWord rest
        return (⟨reg, .relative displacement⟩, rest)
      else
        let (displacement, rest) ← readDisplacement mode rest
        return (⟨reg, .memory ⟨some (registerOfBits b low), none, displacement⟩⟩, rest)

end ModRM

/-- What an address means to a processor. The number of the stack pointer is no
index. -/
def Address.reference (address : Address) : MemoryReference where
  base := address.base.map RegisterNumber.toFin
  index :=
    match address.index with
    | none => none
    | some scaled =>
        if scaled.register.toFin.val = 4 then none else some (scaled.register.toFin, scaled.scale)
  displacement := address.displacement

end Amd64
