import Amd64.Variable

/-!
A function under allocation: its variables, and how it addresses its stack
frame. Operands name variables by number, and `Function.lookup` is the only way
from a number to the variable. `FrameLayout.rematerialize` is the displacement
of a rematerializable variable from the register it is in.
-/

namespace Amd64

/-- What is decided about a function's frame. -/
structure FrameConfig where
  /-- Whether stack slots are addressed from the frame pointer. -/
  usesFramePointer : Bool
  /-- The distance from the frame pointer to the fixed area of allocations. -/
  allocaOffset : Int32
  deriving DecidableEq

/-- The registers that a frame is addressed from. -/
structure FrameLayout where
  framePointer : Register
  stackPointer : Register
  allocaOffset : Int32

namespace FrameConfig

/-- Slots are addressed from the stack pointer unless something else is
decided. -/
def initial : FrameConfig := ⟨false, 0⟩

/-- The registers are the same for every frame. -/
def layout (config : FrameConfig) : FrameLayout :=
  ⟨.rbp, .rsp, config.allocaOffset⟩

/-- The register that stack slots are addressed from. -/
def slotBase (config : FrameConfig) : Register :=
  if config.usesFramePointer then .rbp else .rsp

end FrameConfig

namespace FrameLayout

/-- The displacement that stands for a rematerializable variable in an address.
A variable in the frame pointer also skips the fixed area of allocations. -/
def rematerialize (layout : FrameLayout) (var : Variable) : Except Fault Int32 :=
  if var.rematerializable then
    if var.register = some layout.framePointer then
      .ok (var.stackOffset + layout.allocaOffset)
    else if var.register = some layout.stackPointer then
      .ok var.stackOffset
    else
      .error (.rematerializedIn var.name var.register)
  else
    .error (.notRematerializable var.name)

end FrameLayout

/-- A function whose code is being produced. -/
structure Function where
  name : String
  frame : FrameConfig
  locals : Array Variable

namespace Function

def empty (name : String) (frame : FrameConfig) : Function :=
  ⟨name, frame, #[]⟩

/-- The variable with this number. -/
def lookup (f : Function) (id : VariableId) : Except Fault Variable :=
  match f.locals[id.number.toNat]? with
  | some found => .ok found
  | none => .error (.outOfRange f.locals.size id.number.toNat)

/-- Adds a variable and gives its number. -/
def declare (f : Function) (type : ValueType) (name : String) : VariableId × Function :=
  (⟨UInt32.ofNat f.locals.size⟩,
    { f with locals := f.locals.push (.fresh type name) })

def edit (f : Function) (id : VariableId) (change : Variable → Variable) :
    Except Fault Function := do
  let old ← f.lookup id
  return { f with locals := f.locals.setIfInBounds id.number.toNat (change old) }

def assignRegister (f : Function) (id : VariableId) (register : Register) :
    Except Fault Function :=
  f.edit id fun old => { old with register := some register }

def spill (f : Function) (id : VariableId) : Except Fault Function :=
  f.edit id fun old => { old with register := none }

/-- Records where the stack slot of a variable is. -/
def assignSlot (f : Function) (id : VariableId) (offset : Int32) : Except Fault Function :=
  f.edit id fun old => { old with stackOffset := offset }

/-- Records that a variable always equals a pointer register plus an offset. -/
def rematerialize (f : Function) (id : VariableId) (register : Register) (offset : Int32) :
    Except Fault Function :=
  f.edit id fun old =>
    { old with register := some register, stackOffset := offset, rematerializable := true }

/-- The register that stack slots are addressed from. -/
def slotBase (f : Function) : Register :=
  f.frame.slotBase

end Function

end Amd64
