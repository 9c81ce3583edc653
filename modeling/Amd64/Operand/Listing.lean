import Amd64.Operand.Dump

/-!
Operands as assembly text, with immediates after a dollar sign, registers after
a percent sign and memory as `displacement(base,index,scale)`.
-/

namespace Amd64

open Rendering

namespace Constant

/-- A constant inside an address. -/
def bare : Constant → Rendering
  | integer value => ofText (Decimal.ofWord value)
  | relocatable target => target.text

/-- A constant as an immediate. -/
def listing (constant : Constant) : Rendering :=
  ofText "$" ++ constant.bare

end Constant

namespace Function

/-- A place at some distance from the register that slots are addressed
from. -/
def listSlot (f : Function) (displacement : Int32) : Rendering :=
  (if displacement = 0 then done else ofText (Decimal.ofWord displacement)) ++
    ofText ("(%" ++ f.slotBase.name ++ ")")

/-- The register or the stack slot of a variable. A rematerializable variable
has neither. -/
def listVariable (f : Function) (id : VariableId) : Rendering :=
  withValue (f.lookup id) fun var =>
    if var.rematerializable then stop (.rematerializableOperand var.name)
    else
      match var.register with
      | some register => ofText ("%" ++ register.nameFor var.type)
      | none => f.listSlot var.stackOffset

/-- A register inside an address, which always shows its full width. -/
def listAddressRegister (f : Function) (id : VariableId) : Rendering :=
  withValue (f.addressRegister id) fun register => ofText ("%" ++ register.name)

/-- An index after its comma, and its factor after another one unless it is
one. -/
def listScaled (f : Function) (scale : Scale) (id : VariableId) : Rendering :=
  ofText "," ++ f.listAddressRegister id ++
    (if 0 < scale.shift then ofText ("," ++ Decimal.ofNat scale.factor) else done)

end Function

namespace MemoryOperand

/-- The number or symbol before the registers. A zero is left out beside a
base. -/
def listOffset (operand : MemoryOperand) (displacement : Int32) : Rendering :=
  match operand.offset with
  | none => if displacement = 0 then done else ofText (Decimal.ofWord displacement)
  | some (.integer value) =>
      if operand.base.isSome && value = 0 && displacement = 0 then done
      else ofText (Decimal.ofWord (value + displacement))
  | some (.relocatable target) =>
      if displacement = 0 then target.text
      else stop (.rematerializedSymbol target.symbol displacement)

/-- The registers and the scale between parentheses, if there is a register. -/
def listRegisters (f : Function) (operand : MemoryOperand) : Rendering :=
  if operand.base.isNone && operand.index.isNone then done
  else
    ofText "(" ++ withOption operand.base f.listAddressRegister ++
      withOption operand.index (f.listScaled operand.scale) ++ ofText ")"

/-- The number of bytes added, then the registers between parentheses. -/
def listing (f : Function) (operand : MemoryOperand) : Rendering :=
  operand.withBaseDisplacement f fun displacement =>
    withValue (operand.checkIndex f) fun _ =>
      operand.listOffset displacement ++ operand.listRegisters f

end MemoryOperand

/-- Half of a stack slot, as memory beside the register that slots are
addressed from. -/
def SlotHalf.listing (f : Function) (part : SlotHalf) : Rendering :=
  withValue (part.displacement f) f.listSlot

def Operand.listing (f : Function) : Operand → Rendering
  | var id => f.listVariable id
  | constant value => value.listing
  | memory operand => operand.listing f
  | half part => part.listing f

end Amd64
