import Amd64.Operand.Place

/-!
What memory operands and addresses mean as numbers: given the contents of the
registers and the addresses of the symbols, each denotes a 64-bit address. The
two meanings are stated apart, one on variables and offsets, the other on
register numbers and a displacement.
-/

namespace Amd64

/-- The contents of the general-purpose registers. -/
abbrev RegisterFile := Fin 16 → BitVec 64

/-- A displacement as a 64-bit number, with its sign. -/
def signExtended (displacement : Int32) : BitVec 64 :=
  BitVec.ofInt 64 displacement.toInt

/-- The address that a processor computes, once the linker has filled in what
the fixup asks for. -/
def Address.value (registers : RegisterFile) (linked : FixupRef → BitVec 64)
    (address : Address) : BitVec 64 :=
  let base := match address.base with
    | none => 0
    | some register => registers register.toFin
  let index := match address.index with
    | none => 0
    | some scaled =>
        registers scaled.register.toFin * BitVec.ofNat 64 scaled.scale.factor
  let symbol := match address.fixup with
    | none => 0
    | some ref => linked ref
  base + index + signExtended address.displacement + symbol

/-- The value of a variable that is in a register, or is recomputed from the
stack or frame pointer. -/
def Variable.value? (frame : FrameConfig) (registers : RegisterFile) (var : Variable) :
    Option (BitVec 64) :=
  match var.register with
  | some (.general number) =>
      if var.rematerializable then
        if number.val = 5 then
          some (registers number + signExtended var.stackOffset + signExtended frame.allocaOffset)
        else if number.val = 4 then some (registers number + signExtended var.stackOffset)
        else none
      else some (registers number)
  | _ => none

/-- The value of the variable with this number. -/
def Function.value? (f : Function) (registers : RegisterFile) (id : VariableId) :
    Option (BitVec 64) :=
  match f.lookup id with
  | .ok var => var.value? f.frame registers
  | .error _ => none

def Constant.value (symbols : String → BitVec 64) : Constant → BitVec 64
  | integer value => signExtended value
  | relocatable target => symbols target.symbol + signExtended target.addend

/-- The address that a memory operand denotes. Absent parts count as zero. -/
def MemoryOperand.value? (f : Function) (registers : RegisterFile)
    (symbols : String → BitVec 64) (operand : MemoryOperand) : Option (BitVec 64) := do
  let base ← match operand.base with
    | none => some 0
    | some id => f.value? registers id
  let index ← match operand.index with
    | none => some 0
    | some id => f.value? registers id
  let offset := match operand.offset with
    | none => 0
    | some constant => constant.value symbols
  return base + index * BitVec.ofNat 64 operand.scale.factor + offset

end Amd64
