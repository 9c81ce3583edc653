import Amd64.Instruction.Basic
import Amd64.Instruction.Form

/-!
Instructions as machine code. The operands are located in the order in which
they are written, a form is chosen, and the form is written. A refused
instruction leaves the code as it was.
-/

namespace Amd64

namespace Instruction

/-- The register of a destination variable that must be in a register. -/
def destinationRegister (f : Function) (mnemonic : String) (dest : VariableId) :
    Assembly Register := do
  let found ← Assembly.ofFaulty (f.lookup dest)
  match found.register with
  | some register => pure register
  | none => Assembly.refuse (.invalidOperands mnemonic (.destinationWithoutRegister found.name))

/-- The width and the register of a computed address. -/
def addressTarget (f : Function) (dest : VariableId) : Assembly (Bool × Fin 16) := do
  let found ← Assembly.ofFaulty (f.lookup dest)
  let wide ← match found.type with
    | .i32 => pure false
    | .i64 => pure true
    | type => Assembly.refuse (.unsupportedType "lea" type)
  let register ← destinationRegister f "lea" dest
  let number ← Assembly.ofRefusable (requireGeneral "lea" register)
  return (wide, number)

/-- The register of a comparison of lanes. -/
def comparisonTarget (f : Function) (dest : VariableId) : Assembly (Fin 16) := do
  let found ← Assembly.ofFaulty (f.lookup dest)
  if found.type = .v4f32 then
    let register ← destinationRegister f "cmpps" dest
    Assembly.ofRefusable (requireXmm "cmpps" register)
  else
    Assembly.refuse (.unsupportedType "cmpps" found.type)

/-- Writes an instruction as far as it goes. -/
def write (f : Function) : Instruction → Assembly Unit
  | mov type dest src => do
      let dest ← dest.locate f "mov"
      let src ← src.locate f "mov"
      let form ← Assembly.ofRefusable (Form.move type dest src)
      form.emit
  | lea dest src => do
      let (wide, number) ← addressTarget f dest
      let address ← src.toAddress f
      (Form.loadAddress wide number address).emit
  | jcc condition target => Assembly.modifyFaulty fun a => a.emitJump condition target
  | setcc condition dest => do
      let dest ← dest.locate f "setcc"
      let form ← Assembly.ofRefusable (Form.setByte condition dest)
      form.emit
  | cmpps predicate dest src => do
      let number ← comparisonTarget f dest
      let src ← src.locate f "cmpps"
      let form ← Assembly.ofRefusable (Form.compareLanes predicate number src)
      form.emit

/-- Writes an instruction, or refuses it without a trace. -/
def encode (f : Function) (instruction : Instruction) : Assembly Unit :=
  (instruction.write f).orRollback

end Instruction

end Amd64
