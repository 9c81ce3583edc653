import Amd64.Action.History

/-!
Code in two passes. The first pass collects what every step adds, with a gap
for each distance to a label, and where every label is bound. The second pass
writes the bytes from beginning to end and fills each gap when it comes to it,
so nothing is ever patched.
-/

namespace Amd64

/-- A part of the code before labels are known. -/
inductive Chunk where
  | bytes (content : List UInt8)
  /-- Four bytes for the distance to a label. -/
  | gap (label : Label)
  deriving DecidableEq

def Chunk.length : Chunk → Nat
  | bytes content => content.length
  | gap _ => 4

namespace Action

/-- The bytes of a conditional jump before its distance. -/
def jumpChunks (condition : Condition) (label : Label) : List Chunk :=
  [.bytes [0x0F, UInt8.ofNat (0x80 + condition.code)], .gap label]

/-- What an instruction other than a jump adds. A refused one adds nothing. -/
def instructionBytes (f : Function) (instruction : Instruction) (a : Assembler) : List UInt8 :=
  match instruction.encode f a with
  | .done _ after => after.bytes.drop a.position
  | _ => []

/-- What a step adds to the code. -/
def chunks (a : Assembler) : Action → List Chunk
  | emit bytes => [.bytes bytes]
  | emitRex rex => [.bytes rex.bytes]
  | emitAddress reg address => [.bytes (address.encode reg).bytes]
  | emitDistance label => [.gap label]
  | emitJump condition label => jumpChunks condition label
  | encode _ (.jcc condition label) => jumpChunks condition label
  | encode f instruction => [.bytes (instructionBytes f instruction a)]
  | newLabel | bind _ | createFixup _ | translate _ _ => []

def boundLabel? : Action → Option Label
  | bind label => some label
  | _ => none

end Action

/-- What the first pass finds. -/
structure Survey where
  chunks : List Chunk
  /-- The labels that are bound and their positions. -/
  targets : List (Label × Nat)

namespace Survey

/-- The first pass. It ends at the first step that ends in a fault. -/
def ofActions : List Action → Assembler → Survey
  | [], _ => ⟨[], []⟩
  | action :: rest, a =>
      match action.apply a with
      | .error _ => ⟨[], []⟩
      | .ok after =>
          let following := ofActions rest after
          let target := action.boundLabel?.toList.map fun label => (label, a.position)
          ⟨action.chunks a ++ following.chunks, target ++ following.targets⟩

/-- The second pass. A label that is never bound leaves zeros. -/
def write (targets : List (Label × Nat)) : (position : Nat) → List Chunk → List UInt8
  | _, [] => []
  | position, .bytes content :: rest =>
      content ++ write targets (position + content.length) rest
  | position, .gap label :: rest =>
      let distance := match targets.lookup label with
        | some target => Assembler.distance target position
        | none => 0
      LittleEndian.word distance ++ write targets (position + 4) rest

def code (survey : Survey) : List UInt8 :=
  write survey.targets 0 survey.chunks

end Survey

end Amd64
