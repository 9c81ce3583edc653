import Amd64.Fault

/-!
Variables of a function, as they are before and after register allocation, and
the use lists that tell which variables an operand reads. No operand reads more
than two.
-/

namespace Amd64

/-- A variable, by its position among the variables of its function. -/
structure VariableId where
  number : UInt32
  deriving DecidableEq

/-- A variable and where its value is to be found. -/
structure Variable where
  name : String
  type : ValueType
  register : Option Register
  /-- The distance of the stack slot from the register that slots are addressed
  from. A rematerializable variable has its distance from the frame or stack
  pointer here. -/
  stackOffset : Int32
  /-- Whether the value is recomputed from the frame or stack pointer and never
  stored. -/
  rematerializable : Bool
  deriving DecidableEq

namespace Variable

def fresh (type : ValueType) (name : String) : Variable :=
  ⟨name, type, none, 0, false⟩

end Variable

/-- At most two variables, in order. -/
structure UseList where
  toList : List VariableId
  length_le : toList.length ≤ 2
  deriving DecidableEq

namespace UseList

/-- The most that a use list holds. -/
def capacity : Nat := 2

def empty : UseList := ⟨[], by decide⟩

def single (id : VariableId) : UseList := ⟨[id], by simp⟩

def length (uses : UseList) : Nat :=
  uses.toList.length

def isEmpty (uses : UseList) : Bool :=
  uses.toList.isEmpty

/-- Adds a variable at the end. A full list takes none. -/
def push (uses : UseList) (id : VariableId) : Except Fault UseList :=
  if h : uses.toList.length < 2 then
    .ok ⟨uses.toList ++ [id], by simp; omega⟩
  else
    .error .usesFull

/-- The list of these variables, if they are few enough. -/
def ofList? (ids : List VariableId) : Option UseList :=
  if h : ids.length ≤ 2 then some ⟨ids, h⟩ else none

/-- A use list is made again from its own list, since that was short enough. -/
theorem ofList?_toList (uses : UseList) : ofList? uses.toList = some uses := by
  simp [ofList?, uses.length_le]

end UseList

end Amd64
