import Amd64.Condition
import Amd64.Operand.Basic

/-!
The instructions that code is made of. Their operands name variables, so that
an instruction can be shown before its variables are allocated and encoded
afterwards.
-/

namespace Amd64

/-- An instruction over operands that name variables. -/
inductive Instruction where
  /-- Copies a value of some type. -/
  | mov (type : ValueType) (dest src : Operand)
  /-- Computes an address into a register variable. -/
  | lea (dest : VariableId) (src : MemoryOperand)
  | jcc (condition : Condition) (target : Label)
  /-- Sets a byte to one if a condition holds and to zero if not. -/
  | setcc (condition : Condition) (dest : Operand)
  /-- Compares four floats with four others, lane by lane. -/
  | cmpps (predicate : Predicate) (dest : VariableId) (src : Operand)
  deriving DecidableEq

/-- The operands that an instruction locates, the destination first. -/
def Instruction.operands : Instruction → List Operand
  | mov _ dest src => [dest, src]
  | lea _ src => [.memory src]
  | jcc _ _ => []
  | setcc _ dest => [dest]
  | cmpps _ _ src => [src]

/-- The variable that an address is computed into, or a comparison. It must be
in a register, so it is named without being an operand. -/
def Instruction.result? : Instruction → Option VariableId
  | lea dest _ | cmpps _ dest _ => some dest
  | _ => none

end Amd64
