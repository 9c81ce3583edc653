import Amd64.Instruction.Encoding

/-!
The steps by which code is built, and what each tells the log. Running a step
changes the code; `Action.events` reads off what happened from the code before
it, for steps that end without a fault.
-/

namespace Amd64

/-- One step of building code. -/
inductive Action where
  | emit (bytes : List UInt8)
  | emitRex (rex : Rex)
  /-- Adds an address beside a register or an opcode extension. -/
  | emitAddress (reg : Nat) (address : Address)
  | newLabel
  | bind (label : Label)
  | emitDistance (label : Label)
  | emitJump (condition : Condition) (label : Label)
  | createFixup (target : Relocatable)
  /-- Turns a memory operand into an address without writing it. -/
  | translate (f : Function) (operand : MemoryOperand)
  | encode (f : Function) (instruction : Instruction)

inductive Answer where
  | nothing
  | label (label : Label)
  | fixup (ref : FixupRef)
  | address (address : Address)

namespace Action

/-- The computation that a step stands for. -/
def run : Action → Assembly Answer
  | emit bytes => do
      Assembly.modify fun a => a.emit bytes
      return .nothing
  | emitRex rex => do
      Assembly.modify fun a => a.emit rex.bytes
      return .nothing
  | emitAddress reg address => do
      Assembly.modifyFaulty fun a => a.emitAddress reg address
      return .nothing
  | newLabel => return .label (← Assembly.step fun a => a.newLabel)
  | bind label => do
      Assembly.modifyFaulty fun a => a.bind label
      return .nothing
  | emitDistance label => do
      Assembly.modifyFaulty fun a => a.emitDistance label
      return .nothing
  | emitJump condition label => do
      Assembly.modifyFaulty fun a => a.emitJump condition label
      return .nothing
  | createFixup target => return .fixup (← Assembly.step fun a => a.createFixup .signed32 target)
  | translate f operand => return .address (← operand.toAddress f)
  | encode f instruction => do
      instruction.encode f
      return .nothing

end Action

/-- The event of a fixup whose address was just written. -/
def Address.placedEvents (address : Address) (reg : Nat) (a : Assembler) : List Event :=
  match address.fixup, ((address.encode reg).writeTo a.bytes).2 with
  | some ref, some start =>
      match a.fixup ref with
      | .ok found => [.fixupPlaced ref found.symbol start]
      | .error _ => []
  | _, _ => []

/-- The events of turning a memory operand into an address. -/
def MemoryOperand.events (f : Function) (operand : MemoryOperand) (a : Assembler) :
    List Event :=
  let created := match operand.offset with
    | some (.relocatable target) =>
        [.fixupCreated (a.createFixup .signed32 target).1 .signed32 target.symbol]
    | _ => []
  let translated := match operand.toAddress f a with
    | .done address _ => [.translated address]
    | _ => []
  operand.baseEvents f ++ created ++ translated

/-- The events of locating an operand. -/
def Operand.events (f : Function) (operand : Operand) (a : Assembler) : List Event :=
  match operand with
  | .memory operand => operand.events f a
  | _ => []

namespace Instruction

/-- The events of locating the operands of an instruction, as far as they are
reached. -/
def operandEvents (f : Function) (a : Assembler) : Instruction → List Event
  | mov _ dest src =>
      dest.events f a ++
        match dest.locate f "mov" a with
        | .done _ after => src.events f after
        | _ => []
  | lea dest src =>
      match addressTarget f dest a with
      | .done _ after => src.events f after
      | _ => []
  | jcc _ _ => []
  | setcc _ dest => dest.events f a
  | cmpps _ dest src =>
      match comparisonTarget f dest a with
      | .done _ after => src.events f after
      | _ => []

/-- The events of encoding an instruction. Its new fixups are placed when the
form is written, after all operands are located. -/
def events (f : Function) (instruction : Instruction) (a : Assembler) : List Event :=
  let before := .encoding instruction a.position :: instruction.operandEvents f a
  match instruction.write f a with
  | .done _ after =>
      let count := a.fixups.length
      let placed := (after.fixups.drop count).zipIdx count |>.filterMap fun (fixup, index) =>
        fixup.position.map fun position =>
          .fixupPlaced ⟨UInt32.ofNat index⟩ fixup.symbol position
      before ++ placed
  | .refused reason _ => before ++ [.rolledBack reason]
  | .fault _ => before

end Instruction

namespace Action

/-- What a step tells the log, if it ends without a fault. -/
def events (a : Assembler) : Action → List Event
  | emitAddress reg address => address.placedEvents reg a
  | bind label =>
      match a.label label with
      | .ok (.pending fields) => [.labelBound label a.position fields.length]
      | _ => []
  | createFixup target =>
      [.fixupCreated (a.createFixup .signed32 target).1 .signed32 target.symbol]
  | translate f operand => operand.events f a
  | encode f instruction => instruction.events f a
  | emit _ | emitRex _ | newLabel | emitDistance _ | emitJump _ _ => []

end Action

end Amd64
