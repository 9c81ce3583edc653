import Amd64.Numeral
import Amd64.Linking
import Amd64.Register

/-!
Refusals are failures that a caller can act on: an operand that the machine has
no form for, or code that is finished too early.
-/

namespace Amd64

/-- What is wrong with the operands of an instruction. -/
inductive Misuse where
  /-- A rematerializable variable is no place to read or write. -/
  | rematerializable (name : String)
  /-- A symbol cannot be an immediate. -/
  | relocatableImmediate (symbol : String)
  /-- The destination must be in a register. -/
  | destinationWithoutRegister (name : String)
  | notGeneral (register : Register)
  | notXmm (register : Register)
  | memoryToMemory
  | immediateDestination
  | immediateSource
  | immediateIntoXmm
  | described (text : String)
  deriving DecidableEq

def Misuse.text : Misuse → String
  | rematerializable name => "rematerializable %" ++ name ++ " used directly"
  | relocatableImmediate symbol => "relocatable immediate " ++ symbol
  | destinationWithoutRegister name => "destination %" ++ name ++ " has no register"
  | notGeneral register => register.name ++ " is not a general-purpose register"
  | notXmm register => register.name ++ " is not an XMM register"
  | memoryToMemory => "memory to memory"
  | immediateDestination => "immediate destination"
  | immediateSource => "immediate source"
  | immediateIntoXmm => "immediate into an XMM register"
  | described text => text

inductive Refusal where
  | invalidShift (shift : UInt16)
  /-- The machine has no form of the instruction for these operands. -/
  | invalidOperands (mnemonic : String) (misuse : Misuse)
  /-- The machine has no form of the instruction for this type. -/
  | unsupportedType (mnemonic : String) (type : ValueType)
  /-- A fixup was created, and no address that carries it was written. -/
  | unplacedFixup (symbol : String)
  | unboundLabel (label : Label)
  deriving DecidableEq

def Refusal.message : Refusal → String
  | invalidShift shift =>
      "memory operand shift " ++ Decimal.ofNat shift.toNat ++ " out of range [0..3]"
  | invalidOperands mnemonic misuse =>
      "invalid operands for '" ++ mnemonic ++ "': " ++ misuse.text
  | unsupportedType mnemonic type =>
      "'" ++ mnemonic ++ "' has no form for type " ++ type.text
  | unplacedFixup symbol => "fixup against '" ++ symbol ++ "' was never placed"
  | unboundLabel label =>
      "label L" ++ Decimal.ofNat label.number.toNat ++ " referenced but never bound"

end Amd64
