import Amd64.Instruction.Decoding
import Amd64.Instruction.Encoding

/-!
The machine instruction that an instruction stands for, once the variables of
its function are allocated. The meaning is read off the variables and offsets
of the operands, without regard to machine forms.
-/

namespace Amd64

def Access.size : Access → Nat
  | .byte => 1
  | .word => 2
  | .long => 4
  | .quad => 8

/-- The bits of a signed number in an operand of this size. -/
def Access.immediate (access : Access) (value : Int32) : Nat :=
  (value.toInt % LittleEndian.room access.size).toNat

namespace MemoryOperand

/-- The memory that an operand stands for. -/
def reference? (f : Function) (operand : MemoryOperand) : Option MemoryReference :=
  match operand.baseDisplacement f, operand.checkIndex f with
  | .ok displacement, .ok _ =>
      match operand.addressWith f (displacement + operand.offsetValue) none with
      | .ok address => some address.reference
      | .error _ => none
  | _, _ => none

end MemoryOperand

/-- The memory at a distance from the register that stack slots are addressed
from. -/
def Function.slotReference? (f : Function) (displacement : Int32) : Option MemoryReference :=
  match f.slotBase with
  | .general number => some ⟨some number, none, displacement⟩
  | .xmm _ => none

namespace Operand

/-- The machine operand that an operand stands for, in an operation of this
size. -/
def machine? (f : Function) (access : Access) : Operand → Option MachineOperand
  | var id =>
      match f.lookup id with
      | .error _ => none
      | .ok found =>
          match found.register with
          | some (.general number) => some (.general number)
          | some (.xmm number) => some (.xmm number)
          | none => (f.slotReference? found.stackOffset).map .memory
  | constant (.integer value) => some (.immediate (access.immediate value))
  | constant (.relocatable _) => none
  | memory operand => (operand.reference? f).map .memory
  | half part =>
      match f.lookup part.slot with
      | .error _ => none
      | .ok found => (f.slotReference? (found.stackOffset + part.offset)).map .memory

end Operand

/-- The part of an XMM register that holds a value of this type. -/
def ValueType.floatAccess : ValueType → FloatAccess
  | f32 => .single
  | f64 => .double
  | _ => .packed

namespace Instruction

def generalRegister? (f : Function) (id : VariableId) : Option (Fin 16) :=
  match f.lookup id with
  | .ok ⟨_, _, some (.general number), _, _⟩ => some number
  | _ => none

def xmmRegister? (f : Function) (id : VariableId) : Option (Fin 16) :=
  match f.lookup id with
  | .ok ⟨_, _, some (.xmm number), _, _⟩ => some number
  | _ => none

/-- The machine instruction that an instruction stands for. A jump goes the
given distance. -/
def machine? (f : Function) (distance : Int32) : Instruction → Option MachineInstruction
  | mov type dest src => do
      let dest ← dest.machine? f type.access
      let src ← src.machine? f type.access
      if type.isXmm then return .moveFloat type.floatAccess dest src
      else return .move type.access dest src
  | lea dest src => do
      let found ← (f.lookup dest).toOption
      return .loadAddress found.type.access (← generalRegister? f dest)
        (.memory (← src.reference? f))
  | jcc condition _ => some (.jump condition distance)
  | setcc condition dest => do return .setByte condition (← dest.machine? f .byte)
  | cmpps predicate dest src => do
      return .compareLanes predicate (← xmmRegister? f dest) (← src.machine? f .quad)

end Instruction

end Amd64
