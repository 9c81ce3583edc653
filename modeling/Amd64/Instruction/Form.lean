import Amd64.Operand.Place

/-!
The machine forms of instructions. A form is chosen from the places of the
operands; what no form covers is refused. Writing a form gives the prefixes,
the opcode, the two operands of the ModR/M byte and whatever trails them.
-/

namespace Amd64

/-- The second operand of a ModR/M byte. -/
inductive RegisterOrMemory where
  | register (number : Fin 16)
  | memory (address : Address)
  deriving DecidableEq

/-- A machine form with all its parts. -/
structure Form where
  /-- The prefix that selects the operand size or the float precision. -/
  selector : List UInt8
  /-- The operands have 64 bits. -/
  wide : Bool
  /-- A REX prefix is needed to name a low byte. -/
  force : Bool
  opcode : List UInt8
  /-- The register operand, or the opcode extension in its place. -/
  reg : Fin 16
  other : RegisterOrMemory
  /-- The bytes after the operands. -/
  trailing : List UInt8
  deriving DecidableEq

namespace Form

def rex (form : Form) : Rex :=
  let high := 8 ≤ form.reg.val
  match form.other with
  | .register number => ⟨form.wide, high, false, 8 ≤ number.val, form.force⟩
  | .memory address =>
      let encoding := address.encode form.reg
      ⟨form.wide, high, encoding.rexX, encoding.rexB, form.force⟩

def leading (form : Form) : List UInt8 :=
  form.selector ++ form.rex.bytes ++ form.opcode

def emit (form : Form) : Assembly Unit := do
  Assembly.modify fun a => a.emit form.leading
  match form.other with
  | .register number => Assembly.modify fun a => a.emit [packFields 3 form.reg number]
  | .memory address => Assembly.modifyFaulty fun a => a.emitAddress form.reg address
  Assembly.modify fun a => a.emit form.trailing

end Form

/-- The low bytes of registers four to seven can be named only beside a REX
prefix. -/
def lowByteNeedsRex (number : Fin 16) : Bool :=
  4 ≤ number.val ∧ number.val ≤ 7

/-- The number of a register that must be general-purpose. -/
def requireGeneral (mnemonic : String) (register : Register) : Except Refusal (Fin 16) :=
  match register with
  | .general number => .ok number
  | .xmm _ => .error (.invalidOperands mnemonic (.notGeneral register))

/-- The number of a register that must be an XMM register. -/
def requireXmm (mnemonic : String) (register : Register) : Except Refusal (Fin 16) :=
  match register with
  | .general _ => .error (.invalidOperands mnemonic (.notXmm register))
  | .xmm number => .ok number

namespace Form

/-- The prefix of a copy between XMM registers and memory: one for each scalar
precision, none for vectors. -/
def floatSelector (type : ValueType) : List UInt8 :=
  match type with
  | .f32 => [0xF3]
  | .f64 => [0xF2]
  | _ => []

/-- A copy of a float or a vector. Loads and copies between registers share an
opcode. -/
def moveXmm (type : ValueType) (dest src : Place) : Except Refusal Form := do
  let form (opcode : UInt8) (reg : Fin 16) (other : RegisterOrMemory) : Form :=
    ⟨floatSelector type, false, false, [0x0F, opcode], reg, other, []⟩
  match dest, src with
  | .register d, .register s =>
      let d ← requireXmm "mov" d
      let s ← requireXmm "mov" s
      return form 0x10 d (.register s)
  | .register d, .memory address =>
      let d ← requireXmm "mov" d
      return form 0x10 d (.memory address)
  | .memory address, .register s =>
      let s ← requireXmm "mov" s
      return form 0x11 s (.memory address)
  | .memory _, .memory _ => .error (.invalidOperands "mov" .memoryToMemory)
  | .immediate _, _ => .error (.invalidOperands "mov" .immediateDestination)
  | _, .immediate _ => .error (.invalidOperands "mov" .immediateIntoXmm)

/-- The operand width of a copy of an integer. -/
def integerAccess? : ValueType → Option Access
  | .i1 | .i8 => some .byte
  | .i16 => some .word
  | .i32 => some .long
  | .i64 => some .quad
  | _ => none

/-- An immediate of the operand width. No copy has more than four bytes of it:
a 64-bit operand takes the sign extension of four. -/
def immediateBytes (access : Access) (value : Int32) : List UInt8 :=
  match access with
  | .byte => LittleEndian.bytes 1 value.toUInt32.toNat
  | .word => LittleEndian.bytes 2 value.toUInt32.toNat
  | .long | .quad => LittleEndian.word value

/-- What the register field holds where an instruction has no second
register. -/
def noRegister : Fin 16 := ⟨0, by decide⟩

/-- A copy of an integer of the given width. The opcode for bytes is one less
than the other. -/
def moveInteger (access : Access) (dest src : Place) : Except Refusal Form := do
  let isByte := access = .byte
  let form (opcode : UInt8) (force : Bool) (reg : Fin 16) (other : RegisterOrMemory)
      (trailing : List UInt8) : Form :=
    ⟨if access = .word then [0x66] else [], access = .quad, isByte && force,
      [if isByte then opcode - 1 else opcode], reg, other, trailing⟩
  match dest, src with
  | .register d, .register s =>
      let d ← requireGeneral "mov" d
      let s ← requireGeneral "mov" s
      return form 0x89 (lowByteNeedsRex d || lowByteNeedsRex s) s (.register d) []
  | .register d, .memory address =>
      let d ← requireGeneral "mov" d
      return form 0x8B (lowByteNeedsRex d) d (.memory address) []
  | .memory address, .register s =>
      let s ← requireGeneral "mov" s
      return form 0x89 (lowByteNeedsRex s) s (.memory address) []
  | .register d, .immediate value =>
      let d ← requireGeneral "mov" d
      return form 0xC7 (lowByteNeedsRex d) noRegister (.register d) (immediateBytes access value)
  | .memory address, .immediate value =>
      return form 0xC7 false noRegister (.memory address) (immediateBytes access value)
  | .memory _, .memory _ => .error (.invalidOperands "mov" .memoryToMemory)
  | .immediate _, _ => .error (.invalidOperands "mov" .immediateDestination)

def move (type : ValueType) (dest src : Place) : Except Refusal Form :=
  if type.isXmm then moveXmm type dest src
  else
    match integerAccess? type with
    | some access => moveInteger access dest src
    | none => .error (.unsupportedType "mov" type)

/-- The byte that a condition sets. -/
def setByte (condition : Condition) (dest : Place) : Except Refusal Form := do
  let form (force : Bool) (other : RegisterOrMemory) : Form :=
    ⟨[], false, force, [0x0F, UInt8.ofNat (0x90 + condition.code)], noRegister, other, []⟩
  match dest with
  | .register d =>
      let d ← requireGeneral "setcc" d
      return form (lowByteNeedsRex d) (.register d)
  | .memory address => return form false (.memory address)
  | .immediate _ => .error (.invalidOperands "setcc" .immediateDestination)

/-- A comparison of four floats in a register with four others. -/
def compareLanes (predicate : Predicate) (dest : Fin 16) (src : Place) :
    Except Refusal Form := do
  let form (other : RegisterOrMemory) : Form :=
    ⟨[], false, false, [0x0F, 0xC2], dest, other, [UInt8.ofNat predicate.code]⟩
  match src with
  | .register s =>
      let s ← requireXmm "cmpps" s
      return form (.register s)
  | .memory address => return form (.memory address)
  | .immediate _ => .error (.invalidOperands "cmpps" .immediateSource)

def loadAddress (wide : Bool) (dest : Fin 16) (address : Address) : Form :=
  ⟨[], wide, false, [0x8D], dest, .memory address, []⟩

end Form

end Amd64
