import Amd64.Address.Decoding
import Amd64.Condition
import Amd64.Register

/-!
How a processor in 64-bit mode reads the instructions that appear here: copies,
address computations, conditional jumps, condition bytes and comparisons of
lanes. `MachineInstruction.read` reads one instruction, and
`MachineInstruction.sweep` reads code from its first byte to its last.
-/

namespace Amd64

/-- An operand of a machine instruction. -/
inductive MachineOperand where
  /-- A general-purpose register, as wide as the operation. -/
  | general (number : Fin 16)
  /-- The second byte of one of the first four registers. -/
  | highByte (number : Fin 16)
  | xmm (number : Fin 16)
  | memory (reference : MemoryReference)
  | relative (displacement : Int32)
  /-- The bits of an immediate, as wide as the operation. -/
  | immediate (bits : Nat)
  deriving DecidableEq

/-- How much of an XMM register a copy moves. -/
inductive FloatAccess where
  | single
  | double
  | packed
  deriving DecidableEq

/-- An instruction as a processor reads it. -/
inductive MachineInstruction where
  | move (access : Access) (dest src : MachineOperand)
  | moveFloat (access : FloatAccess) (dest src : MachineOperand)
  | loadAddress (access : Access) (dest : Fin 16) (src : MachineOperand)
  /-- The distance counts from the end of the instruction. -/
  | jump (condition : Condition) (distance : Int32)
  | setByte (condition : Condition) (dest : MachineOperand)
  | compareLanes (predicate : Predicate) (dest : Fin 16) (src : MachineOperand)
  deriving DecidableEq

/-- What precedes an opcode. -/
structure Prefixes where
  /-- One of the prefixes that change the operand size or select a float
  precision. -/
  selector : Option UInt8
  rex : Option UInt8

namespace Prefixes

/-- Reads at most one selector and, right before the opcode, at most one REX
prefix. -/
def read (bytes : List UInt8) : Prefixes × List UInt8 :=
  let (selector, bytes) := match bytes with
    | byte :: rest =>
        if byte = 0x66 ∨ byte = 0xF2 ∨ byte = 0xF3 then (some byte, rest) else (none, bytes)
    | [] => (none, [])
  match bytes with
  | byte :: rest =>
      if byte.toNat / 16 = 4 then (⟨selector, some byte⟩, rest) else (⟨selector, none⟩, bytes)
  | [] => (⟨selector, none⟩, [])

/-- A bit of the REX prefix, which is zero where there is no prefix. -/
def rexBit (prefixes : Prefixes) (weight : Nat) : Bool :=
  match prefixes.rex with
  | some byte => byte.toNat / weight % 2 = 1
  | none => false

/-- The operands have 64 bits. -/
def w (prefixes : Prefixes) : Bool := prefixes.rexBit 8

/-- The fourth bit of the register field. -/
def r (prefixes : Prefixes) : Bool := prefixes.rexBit 4

/-- The fourth bit of the index. -/
def x (prefixes : Prefixes) : Bool := prefixes.rexBit 2

/-- The fourth bit of the base, or of the register in its place. -/
def b (prefixes : Prefixes) : Bool := prefixes.rexBit 1

/-- The operand size of an instruction that works on more than bytes. -/
def access (prefixes : Prefixes) : Access :=
  if prefixes.w then .quad
  else if prefixes.selector = some 0x66 then .word
  else .long

/-- The register that a number names as an operand of this size. Beside no REX
prefix the byte registers four to seven are the second bytes of the first four
registers. -/
def general (prefixes : Prefixes) (access : Access) (number : Fin 16) : MachineOperand :=
  if access = .byte ∧ prefixes.rex.isNone ∧ 4 ≤ number.val then
    .highByte ⟨number.val - 4, Nat.lt_of_le_of_lt (Nat.sub_le _ _) number.isLt⟩
  else .general number

/-- The register operand of a ModR/M byte. -/
def reg (prefixes : Prefixes) (modrm : ModRM) : Fin 16 :=
  registerOfBits prefixes.r modrm.reg

end Prefixes

namespace MachineInstruction

/-- The second operand of a ModR/M byte, where a register is one of the given
kind. -/
def operandOf (register : Fin 16 → MachineOperand) : ModRMOperand → MachineOperand
  | .register number => register number
  | .memory reference => .memory reference
  | .relative displacement => .relative displacement

/-- Reads an immediate and extends its sign to the operand size. -/
def readImmediate (access : Access) (bytes : List UInt8) : Option (Nat × List UInt8) :=
  match access, bytes with
  | .byte, b0 :: rest => some (b0.toNat, rest)
  | .word, b0 :: b1 :: rest => some (LittleEndian.value [b0, b1], rest)
  | .long, bytes => do
      let (word, rest) ← LittleEndian.readWord bytes
      return (word.toUInt32.toNat, rest)
  | .quad, bytes => do
      let (word, rest) ← LittleEndian.readWord bytes
      return (word.toInt64.toUInt64.toNat, rest)
  | _, _ => none

/-- Reads the rest of a copy that stores, loads or takes an immediate. -/
def readMove (prefixes : Prefixes) (access : Access) (opcode : Nat) (bytes : List UInt8) :
    Option (MachineInstruction × List UInt8) := do
  let (modrm, rest) ← ModRM.read prefixes.x prefixes.b bytes
  let other := operandOf (prefixes.general access) modrm.operand
  let register := prefixes.general access (prefixes.reg modrm)
  match opcode with
  | 0x88 => return (.move access other register, rest)
  | 0x8A => return (.move access register other, rest)
  | 0xC6 =>
      if modrm.reg.val = 0 then
        let (bits, rest) ← readImmediate access rest
        return (.move access other (.immediate bits), rest)
      else none
  | _ => none

/-- Reads the rest of an address computation, which has no register form. -/
def readLoadAddress (prefixes : Prefixes) (bytes : List UInt8) :
    Option (MachineInstruction × List UInt8) := do
  let (modrm, rest) ← ModRM.read prefixes.x prefixes.b bytes
  match modrm.operand with
  | .register _ => none
  | operand =>
      return (.loadAddress prefixes.access (prefixes.reg modrm)
        (operandOf .general operand), rest)

/-- The precision that a selector gives to a copy of floats. -/
def floatAccess? : Option UInt8 → Option FloatAccess
  | none => some .packed
  | some 0xF2 => some .double
  | some 0xF3 => some .single
  | some _ => none

/-- Reads the rest of an instruction whose opcode has two bytes, of which this
is the second. -/
def readTwoByte (prefixes : Prefixes) (opcode : Nat) (bytes : List UInt8) :
    Option (MachineInstruction × List UInt8) :=
  if opcode / 16 = 8 then do
    let condition ← Condition.ofCode? (opcode % 16)
    let (distance, rest) ← LittleEndian.readWord bytes
    return (.jump condition distance, rest)
  else do
    let (modrm, rest) ← ModRM.read prefixes.x prefixes.b bytes
    let lanes := operandOf .xmm modrm.operand
    let register := prefixes.reg modrm
    if opcode / 16 = 9 then
      let condition ← Condition.ofCode? (opcode % 16)
      return (.setByte condition (operandOf (prefixes.general .byte) modrm.operand), rest)
    else if opcode = 0x10 then
      return (.moveFloat (← floatAccess? prefixes.selector) (.xmm register) lanes, rest)
    else if opcode = 0x11 then
      return (.moveFloat (← floatAccess? prefixes.selector) lanes (.xmm register), rest)
    else if opcode = 0xC2 ∧ prefixes.selector = none then
      match rest with
      | byte :: rest =>
          return (.compareLanes (← Predicate.ofCode? byte.toNat) register lanes, rest)
      | [] => none
    else none

/-- Reads one instruction and gives the bytes after it. -/
def read (bytes : List UInt8) : Option (MachineInstruction × List UInt8) :=
  let (prefixes, bytes) := Prefixes.read bytes
  match bytes with
  | [] => none
  | byte :: rest =>
      let opcode := byte.toNat
      if opcode = 0x0F then
        match rest with
        | [] => none
        | second :: rest => readTwoByte prefixes second.toNat rest
      else if opcode = 0x88 ∨ opcode = 0x8A ∨ opcode = 0xC6 then
        readMove prefixes .byte opcode rest
      else if opcode = 0x89 ∨ opcode = 0x8B ∨ opcode = 0xC7 then
        readMove prefixes prefixes.access (opcode - 1) rest
      else if opcode = 0x8D then
        readLoadAddress prefixes rest
      else none

/-- Reads at most `count` instructions, each with the position of its first
byte, until no byte is left. -/
def sweepFrom (position : Nat) : (count : Nat) → List UInt8 →
    Option (List (Nat × MachineInstruction))
  | _, [] => some []
  | 0, _ :: _ => none
  | count + 1, bytes => do
      let (instruction, rest) ← read bytes
      let following ← sweepFrom (position + (bytes.length - rest.length)) count rest
      return (position, instruction) :: following

/-- Reads code from the first byte to the last. An instruction has at least one
byte, so there are no more instructions than bytes. -/
def sweep (code : List UInt8) : Option (List (Nat × MachineInstruction)) :=
  sweepFrom 0 code.length code

end MachineInstruction

end Amd64
