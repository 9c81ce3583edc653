import Amd64.Linking
import Amd64.Refusal
import Amd64.Scale
import Amd64.Variable

/-!
Operands of instructions. An operand names variables and not registers, so the
same operand has a meaning before and after allocation.
-/

namespace Amd64

/-- The use list as it is collected: the base is added if there is one, and
then the index. -/
def MemoryOperand.collectUses (base index : Option VariableId) : Except Fault UseList := do
  let withBase ← match base with
    | some id => UseList.empty.push id
    | none => .ok .empty
  match index with
  | some id => withBase.push id
  | none => .ok withBase

/-- The memory at `base + index * scale + offset`, each part optional. -/
structure MemoryOperand where
  type : ValueType
  base : Option VariableId
  index : Option VariableId
  offset : Option Constant
  scale : Scale
  /-- The variables that the operand reads. They are stored beside the base and
  the index, and whoever asks what an operand reads is given this list. -/
  uses : UseList
  collected : MemoryOperand.collectUses base index = .ok uses
  deriving DecidableEq

namespace MemoryOperand

/-- The use list of a base and an index. There is always room for both. -/
def collectedUses (base index : Option VariableId) :
    { uses : UseList // collectUses base index = .ok uses } :=
  match h : collectUses base index with
  | .ok uses => ⟨uses, rfl⟩
  | .error _ => False.elim (by cases base <;> cases index <;> cases h)

/-- The operand of these parts, with the use list that is collected from
them. -/
def ofParts (type : ValueType) (base index : Option VariableId) (offset : Option Constant)
    (scale : Scale) : MemoryOperand :=
  let uses := collectedUses base index
  ⟨type, base, index, offset, scale, uses.val, uses.property⟩

/-- A memory operand whose scale is given as a shift. -/
def make (type : ValueType) (base index : Option VariableId) (offset : Option Constant)
    (shift : UInt16) : Except Refusal MemoryOperand :=
  match Scale.ofShift? shift.toNat with
  | some scale => .ok (ofParts type base index offset scale)
  | none => .error (.invalidShift shift)

/-- The memory at a number of bytes from a variable. -/
def atOffset (type : ValueType) (base : VariableId) (offset : Int32) : MemoryOperand :=
  ⟨type, some base, none, some (.integer offset), .one, .single base, rfl⟩

/-- The two ways to make an operand of a base and an offset agree, down to the
use list that each of them stores. The first one collects it, the second one
knows it. -/
theorem make_atOffset (type : ValueType) (base : VariableId) (offset : Int32) :
    make type (some base) none (some (.integer offset)) 0 = .ok (atOffset type base offset) ∧
      (atOffset type base offset).uses.toList = [base] :=
  ⟨rfl, rfl⟩

/-- The uses are the base and then the index, whichever are present. A variable
that is both is in the list twice. -/
theorem toList_uses (operand : MemoryOperand) :
    operand.uses.toList = operand.base.toList ++ operand.index.toList := by
  obtain ⟨type, base, index, offset, scale, uses, hUses⟩ := operand
  cases base <;> cases index <;> cases hUses <;> rfl

/-- An operand is determined by its parts: the use list is the one that was
collected from the base and the index, whoever built the operand. -/
theorem ofParts_self (operand : MemoryOperand) :
    ofParts operand.type operand.base operand.index operand.offset operand.scale = operand := by
  obtain ⟨type, base, index, offset, scale, uses, hUses⟩ := operand
  have hSame : (collectedUses base index).val = uses :=
    Except.ok.inj ((collectedUses base index).property.symm.trans hUses)
  subst hSame
  rfl

end MemoryOperand

/-- Which four bytes of an eight-byte slot. -/
inductive Half where
  | low
  | high
  deriving DecidableEq

namespace Half

def all : List Half := [low, high]

/-- Where the half begins inside its slot. -/
def offset : Half → Int32
  | low => 0
  | high => 4

def name : Half → String
  | low => "low"
  | high => "high"

def tag : Half → String
  | low => "Low"
  | high => "High"

def ofTag? (tag : String) : Option Half :=
  all.find? fun half => half.tag = tag

theorem ofTag?_tag (half : Half) : ofTag? half.tag = some half := by
  cases half <;> decide

end Half

/-- One half of a variable that is in a stack slot. -/
structure SlotHalf where
  slot : VariableId
  half : Half
  /-- The distance from the slot to the half. -/
  offset : Int32
  deriving DecidableEq

/-- The half at its usual distance. -/
def SlotHalf.natural (slot : VariableId) (half : Half) : SlotHalf :=
  ⟨slot, half, half.offset⟩

inductive Operand where
  /-- The register or the stack slot of a variable. -/
  | var (id : VariableId)
  | constant (value : Constant)
  | memory (operand : MemoryOperand)
  | half (part : SlotHalf)
  deriving DecidableEq

namespace Operand

/-- The variables that an operand reads, in order. -/
def uses : Operand → UseList
  | var id => .single id
  | constant _ => .empty
  | memory operand => operand.uses
  | half part => .single part.slot

end Operand

end Amd64
