import Amd64.Datum.Scalar
import Amd64.Function

/-!
The stored forms of variables, frames and operands. The fields of a record are
read in the order of their names, which decides between two errors.
-/

namespace Amd64

open Datum

instance : Storable Relocatable where
  store target := object [("symbol", store target.symbol), ("offset", store target.addend)]
  load d := do
    let entries ← d.recordFields ["symbol", "offset"]
    let addend ← field? entries "offset"
    let symbol ← field? entries "symbol"
    return ⟨← required symbol, ← required addend⟩

instance : Storable Constant where
  store
    | .integer value => object [("Integer", store value)]
    | .relocatable target => object [("Relocatable", store target)]
  load d := do
    match ← d.asCaseOf with
    | ("Integer", content) => (load content).map Constant.integer
    | ("Relocatable", content) => (load content).map Constant.relocatable
    | _ => .error .malformed

instance : Storable FrameConfig where
  store frame := object [
    ("use_frame_pointer", store frame.usesFramePointer),
    ("frame_fixed_alloca_offset", store frame.allocaOffset)]
  load d := do
    let entries ← d.recordFields ["use_frame_pointer", "frame_fixed_alloca_offset"]
    let allocaOffset ← field? entries "frame_fixed_alloca_offset"
    let usesFramePointer ← field? entries "use_frame_pointer"
    return ⟨← required usesFramePointer, ← required allocaOffset⟩

instance : Storable Variable where
  store var := object [
    ("name", store var.name),
    ("ty", store var.type),
    ("reg", store var.register),
    ("stack_offset", store var.stackOffset),
    ("rematerializable", store var.rematerializable)]
  load d := do
    let entries ← d.recordFields ["name", "ty", "reg", "stack_offset", "rematerializable"]
    let name ← field? entries "name"
    let register ← optionalField entries "reg"
    let rematerializable ← field? entries "rematerializable"
    let stackOffset ← field? entries "stack_offset"
    let type ← field? entries "ty"
    return ⟨← required name, ← required type, register, ← required stackOffset,
      ← required rematerializable⟩

namespace MemoryOperand

/-- The fields of a stored memory operand. The uses are not among them, since
the base and the index determine them. -/
def fieldNames : List String :=
  ["ty", "base", "index", "offset", "shift"]

end MemoryOperand

/-- A memory operand has no other fields than its own, and its shift is checked
last. -/
instance : Storable MemoryOperand where
  store operand := object [
    ("ty", store operand.type),
    ("base", store operand.base),
    ("index", store operand.index),
    ("offset", store operand.offset),
    ("shift", store operand.scale.shift)]
  load d := do
    let entries ← d.recordFields MemoryOperand.fieldNames
    if entries.all fun entry => MemoryOperand.fieldNames.contains entry.1 then
      let base ← optionalField entries "base"
      let index ← optionalField entries "index"
      let offset ← optionalField entries "offset"
      let shift ← field? entries "shift"
      let type ← field? entries "ty"
      let shift ← required shift
      let type ← required type
      match MemoryOperand.make type base index offset shift with
      | .ok operand => .ok operand
      | .error reason => .error (.refused reason)
    else
      .error .malformed

instance : Storable SlotHalf where
  store part := object [
    ("var", store part.slot),
    ("part", store part.half),
    ("offset", store part.offset)]
  load d := do
    let entries ← d.recordFields ["var", "part", "offset"]
    let offset ← field? entries "offset"
    let half ← field? entries "part"
    let slot ← field? entries "var"
    return ⟨← required slot, ← required half, ← required offset⟩

instance : Storable Operand where
  store
    | .var id => object [("Var", store id)]
    | .constant value => object [("Const", store value)]
    | .memory operand => object [("Mem", store operand)]
    | .half part => object [("Split", store part)]
  load d := do
    match ← d.asCaseOf with
    | ("Var", content) => (load content).map Operand.var
    | ("Const", content) => (load content).map Operand.constant
    | ("Mem", content) => (load content).map Operand.memory
    | ("Split", content) => (load content).map Operand.half
    | _ => .error .malformed

end Amd64
