import Amd64.Numeral
import Amd64.Linking
import Amd64.Register

/-!
Faults are broken promises of the caller: numbers that name nothing, and
operands that the allocator should never have left behind. Nothing after a
fault is meaningful, so a fault carries its cause alone and no state. A caller
can avoid every one of them.
-/

namespace Amd64

inductive Fault where
  | notGeneral (register : Register)
  | notXmm (register : Register)
  /-- Registers are numbered below sixteen. -/
  | registerNumber (value : UInt8)
  | scaleShift (shift : UInt8)
  | stackPointerIndex
  /-- A variable, label or fixup number beyond those that exist. -/
  | outOfRange (length index : Nat)
  /-- The end of a patch that reaches past the end of the code. -/
  | rangeEnd (length stop : Nat)
  /-- Only a rematerializable variable has a rematerialized displacement. -/
  | notRematerializable (name : String)
  /-- A rematerializable variable must be in the frame or the stack pointer. -/
  | rematerializedIn (name : String) (register : Option Register)
  /-- A variable in a register has no stack slot. -/
  | slotOfRegister (name : String)
  /-- A rematerializable variable has no storage that text could name. -/
  | rematerializableOperand (name : String)
  /-- A variable in a register has no halves in memory. -/
  | halfOfRegister (name : String)
  /-- A rematerializable variable can be a base and never an index. -/
  | rematerializableIndex (name : String)
  /-- Text has no room for a symbol beside a rematerialized displacement. -/
  | rematerializedSymbol (symbol : String) (displacement : Int32)
  /-- A variable inside an address must be in a register. -/
  | addressVariable (name : String)
  | boundTwice (label : Label)
  | usesFull
  deriving DecidableEq

namespace Fault

/-- The text of an optional register, as messages show it. -/
def registerText : Option Register → String
  | none => "None"
  | some register => "Some(" ++ register.tag ++ ")"

def message : Fault → String
  | notGeneral register => register.name ++ " is not a general-purpose register"
  | notXmm register => register.name ++ " is not an XMM register"
  | registerNumber value => "GPR encoding " ++ Decimal.ofNat value.toNat ++ " out of range"
  | scaleShift shift => "scale shift " ++ Decimal.ofNat shift.toNat ++ " out of range"
  | stackPointerIndex => "rsp cannot be an index register"
  | outOfRange length index =>
      "index out of bounds: the len is " ++ Decimal.ofNat length ++ " but the index is " ++
        Decimal.ofNat index
  | rangeEnd length stop =>
      "range end index " ++ Decimal.ofNat stop ++ " out of range for slice of length " ++
        Decimal.ofNat length
  | notRematerializable name => "variable %" ++ name ++ " is not rematerializable"
  | rematerializedIn name register =>
      "unexpected rematerializable register type for %" ++ name ++ ": " ++ registerText register
  | slotOfRegister name => "stack address of register variable %" ++ name
  | rematerializableOperand name =>
      "rematerializable variable %" ++ name ++ " is not emittable"
  | halfOfRegister name => "split of register-resident variable %" ++ name
  | rematerializableIndex name =>
      "rematerializable index %" ++ name ++ " in memory operand"
  | rematerializedSymbol symbol displacement =>
      "assertion `left == right` failed: rematerializable base with symbolic offset " ++
        symbol ++ "\n  left: " ++ Decimal.ofWord displacement ++ "\n right: 0"
  | addressVariable name => "address variable %" ++ name ++ " has no register"
  | boundTwice label =>
      "label L" ++ Decimal.ofNat label.number.toNat ++ " bound twice"
  | usesFull => "VarList overflow: max 2 variables"

end Fault

end Amd64
