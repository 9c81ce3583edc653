import Amd64.Operand.Resolution
import Amd64.Rendering

/-!
Operands as debug text. The text exists before allocation, when variables show
their names, and after it, when they show their registers: `[%rbx+4*%i-8]`.
-/

namespace Amd64

open Rendering

/-- The symbol and its addend. -/
def Relocatable.text (target : Relocatable) : Rendering :=
  ofText target.symbol ++ ofText (Decimal.addend target.addend)

/-- An at sign marks a symbol. -/
def Relocatable.dump (target : Relocatable) : Rendering :=
  ofText "@" ++ target.text

def Constant.dump : Constant → Rendering
  | integer value => ofText (Decimal.ofWord value)
  | relocatable target => target.dump

/-- The register of a variable, or its name as long as it has none. -/
def Variable.dump (var : Variable) : Rendering :=
  match var.register with
  | some register => ofText ("%" ++ register.nameFor var.type)
  | none => ofText ("%" ++ var.name)

/-- The debug text of the variable with this number. -/
def Function.dumpVariable (f : Function) (id : VariableId) : Rendering :=
  withValue (f.lookup id) Variable.dump

/-- A variable after its factor, which is left out when it is one. -/
def Function.dumpScaled (f : Function) (scale : Scale) (id : VariableId) : Rendering :=
  (if 0 < scale.shift then ofText (Decimal.ofNat scale.factor ++ "*") else done) ++
    f.dumpVariable id

namespace MemoryOperand

/-- Goes on with the displacement of the base, after its event. -/
def withBaseDisplacement (f : Function) (operand : MemoryOperand)
    (next : Int32 → Rendering) : Rendering :=
  withValue (operand.baseDisplacement f) fun displacement =>
    note (operand.baseEvents f) ++ next displacement

/-- The registers or names of an operand, with a plus sign between base and
index. -/
def dumpVariables (f : Function) (operand : MemoryOperand) : Rendering :=
  withOption operand.base f.dumpVariable ++ withOption operand.index fun id =>
    (if operand.base.isSome then ofText "+" else done) ++ f.dumpScaled operand.scale id

/-- The offset after other terms, or alone when there are none. -/
def dumpOffset (offset : Option Constant) (alone : Bool) : Rendering :=
  match offset, alone with
  | none, true => ofText "0"
  | none, false => done
  | some constant, true => constant.dump
  | some (.integer value), false =>
      if value = 0 then done
      else if value < 0 then ofText (Decimal.ofWord value)
      else ofText "+" ++ ofText (Decimal.ofWord value)
  | some (.relocatable target), false => ofText "+" ++ target.dump

/-- The terms of the address between brackets. -/
def dump (f : Function) (operand : MemoryOperand) : Rendering :=
  ofText "[" ++ operand.withBaseDisplacement f fun displacement =>
    operand.dumpVariables f ++ ofText (Decimal.addend displacement) ++
      dumpOffset operand.offset
        (operand.base.isNone && operand.index.isNone && displacement = 0) ++
      ofText "]"

end MemoryOperand

def SlotHalf.dump (f : Function) (part : SlotHalf) : Rendering :=
  ofText (part.half.name ++ "(") ++ f.dumpVariable part.slot ++ ofText ")"

def Operand.dump (f : Function) : Operand → Rendering
  | var id => f.dumpVariable id
  | constant value => value.dump
  | memory operand => operand.dump f
  | half part => part.dump f

end Amd64
