import Amd64.Assembler.Assembly
import Amd64.Operand.Resolution

/-!
Where operands are once allocation is done: in a register, in memory or inside
the instruction. A memory operand whose offset names a symbol creates a fixup
on its way to an address.
-/

namespace Amd64

inductive Place where
  | register (register : Register)
  | memory (address : Address)
  | immediate (value : Int32)
  deriving DecidableEq

namespace Function

/-- The number of the register of a variable inside an address. -/
def addressNumber (f : Function) (id : VariableId) : Except Fault RegisterNumber :=
  match f.addressRegister id with
  | .error fault => .error fault
  | .ok register => register.generalNumber

/-- The address at some distance from the register that slots are addressed
from. -/
def slotAddress (f : Function) (displacement : Int32) : Except Fault Address :=
  match f.slotBase.generalNumber with
  | .error fault => .error fault
  | .ok base => .ok (.based base displacement none)

/-- The address of the stack slot of a variable, which must not be in a
register. -/
def stackAddress (f : Function) (id : VariableId) : Except Fault Address :=
  match f.lookup id with
  | .error fault => .error fault
  | .ok var =>
      if var.register.isSome then .error (.slotOfRegister var.name)
      else f.slotAddress var.stackOffset

end Function

/-- The address of one half of a stack slot. -/
def SlotHalf.toAddress (f : Function) (part : SlotHalf) : Except Fault Address :=
  match part.displacement f with
  | .error fault => .error fault
  | .ok displacement => f.slotAddress displacement

namespace MemoryOperand

def baseNumber (f : Function) (operand : MemoryOperand) :
    Except Fault (Option RegisterNumber) :=
  match operand.base with
  | none => .ok none
  | some id => (f.addressNumber id).map some

/-- The index register of an operand and its scale. -/
def scaledIndex (f : Function) (operand : MemoryOperand) : Except Fault (Option ScaledIndex) :=
  match operand.index with
  | none => .ok none
  | some id => (f.addressNumber id).map fun register => some ⟨register, operand.scale⟩

/-- The address of an operand with this displacement and fixup. -/
def addressWith (f : Function) (operand : MemoryOperand) (displacement : Int32)
    (fixup : Option FixupRef) : Except Fault Address := do
  let base ← operand.baseNumber f
  let index ← operand.scaledIndex f
  Address.make base index displacement fixup

/-- The number in the offset of an operand: the integer, or the addend of the
symbol. -/
def offsetValue (operand : MemoryOperand) : Int32 :=
  match operand.offset with
  | none => 0
  | some (.integer value) => value
  | some (.relocatable target) => target.addend

/-- Creates the fixup for the symbol of an operand, if it has one. -/
def requestFixup (operand : MemoryOperand) : Assembly (Option FixupRef) :=
  match operand.offset with
  | some (.relocatable target) => Assembly.step fun a =>
      let (ref, after) := a.createFixup .signed32 target
      (some ref, after)
  | _ => pure none

def toAddress (f : Function) (operand : MemoryOperand) : Assembly Address := do
  let displacement ← Assembly.ofFaulty (operand.baseDisplacement f)
  Assembly.ofFaulty (operand.checkIndex f)
  let fixup ← operand.requestFixup
  Assembly.ofFaulty (operand.addressWith f (displacement + operand.offsetValue) fixup)

end MemoryOperand

namespace Operand

/-- Where an operand of the instruction with this mnemonic is. -/
def locate (f : Function) (mnemonic : String) : Operand → Assembly Place
  | var id => do
      let found ← Assembly.ofFaulty (f.lookup id)
      if found.rematerializable then
        Assembly.refuse (.invalidOperands mnemonic (.rematerializable found.name))
      else
        match found.register with
        | some register => pure (.register register)
        | none => return .memory (← Assembly.ofFaulty (f.stackAddress id))
  | constant (.integer value) => pure (.immediate value)
  | constant (.relocatable target) =>
      Assembly.refuse (.invalidOperands mnemonic (.relocatableImmediate target.symbol))
  | memory operand => return .memory (← operand.toAddress f)
  | half part => return .memory (← Assembly.ofFaulty (part.toAddress f))

end Operand

end Amd64
