import Amd64.Event
import Amd64.Function

/-!
What the parts of an operand mean in a function: the displacement that a
rematerializable base contributes, the registers of an address, and the places
of stack slots.
-/

namespace Amd64

/-- The register of a variable inside an address. -/
def Function.addressRegister (f : Function) (id : VariableId) : Except Fault Register :=
  match f.lookup id with
  | .error fault => .error fault
  | .ok var =>
      match var.register with
      | some register => .ok register
      | none => .error (.addressVariable var.name)

namespace MemoryOperand

/-- The rematerializable variable that is the base of an operand, if it has
one. -/
def rematerializableBase (f : Function) (operand : MemoryOperand) :
    Except Fault (Option Variable) :=
  match operand.base with
  | none => .ok none
  | some id =>
      match f.lookup id with
      | .error fault => .error fault
      | .ok var => .ok (if var.rematerializable then some var else none)

/-- The displacement that a base contributes: what a rematerializable variable
stands for, and nothing otherwise. -/
def baseDisplacement (f : Function) (operand : MemoryOperand) : Except Fault Int32 :=
  match operand.rematerializableBase f with
  | .error fault => .error fault
  | .ok none => .ok 0
  | .ok (some var) => f.frame.layout.rematerialize var

/-- The event of a rematerializable base that has its displacement. -/
def baseEvents (f : Function) (operand : MemoryOperand) : List Event :=
  match operand.rematerializableBase f with
  | .ok (some var) =>
      match f.frame.layout.rematerialize var with
      | .ok displacement => [.rematerialized var.name displacement]
      | .error _ => []
  | _ => []

/-- A rematerializable variable is refused as an index. -/
def checkIndex (f : Function) (operand : MemoryOperand) : Except Fault Unit :=
  match operand.index with
  | none => .ok ()
  | some id =>
      match f.lookup id with
      | .error fault => .error fault
      | .ok var =>
          if var.rematerializable then .error (.rematerializableIndex var.name) else .ok ()

end MemoryOperand

/-- The distance of a half from the register that slots are addressed from. -/
def SlotHalf.displacement (f : Function) (part : SlotHalf) : Except Fault Int32 :=
  match f.lookup part.slot with
  | .error fault => .error fault
  | .ok var =>
      if var.register.isSome then .error (.halfOfRegister var.name)
      else .ok (var.stackOffset + part.offset)

end Amd64
