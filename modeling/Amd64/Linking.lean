/-!
What code refers to before it is known where that is: labels, for positions in
the code itself, symbols, whose addresses only the linker knows, and fixups,
the places in finished code that the linker still has to fill with the address
of a symbol.
-/

namespace Amd64

/-- A label, by the order in which labels were created. -/
structure Label where
  number : UInt32
  deriving DecidableEq

/-- What is known of a label. -/
inductive LabelState where
  /-- The label has no position yet, and these four-byte fields wait for it. -/
  | pending (fields : List Nat)
  /-- The label stands at this position. -/
  | bound (position : Nat)
  deriving DecidableEq

/-- A number of bytes past a symbol. -/
structure Relocatable where
  symbol : String
  addend : Int32
  deriving DecidableEq

/-- An immediate or the constant part of a memory operand. -/
inductive Constant where
  | integer (value : Int32)
  | relocatable (target : Relocatable)
  deriving DecidableEq

namespace Constant

/-- The value of a constant that is known before linking. -/
def toInteger? : Constant → Option Int32
  | integer value => some value
  | relocatable _ => none

end Constant

/-- How the linker fills the place. Memory displacements need one way only. -/
inductive FixupKind where
  /-- The low 32 bits of an address that sign extension restores. -/
  | signed32
  deriving DecidableEq

namespace FixupKind

/-- The number of this kind of relocation in object files. -/
def relocationType : FixupKind → Nat
  | signed32 => 11

def size : FixupKind → Nat
  | signed32 => 4

/-- The name of this kind of relocation in object files. -/
def text : FixupKind → String
  | signed32 => "R_X86_64_32S"

def tag : FixupKind → String
  | signed32 => "Abs32S"

def ofTag? (tag : String) : Option FixupKind :=
  if tag = signed32.tag then some signed32 else none

theorem ofTag?_tag (kind : FixupKind) : ofTag? kind.tag = some kind := by
  cases kind
  rfl

end FixupKind

/-- A fixup, by the order in which fixups were created. -/
structure FixupRef where
  number : UInt32
  deriving DecidableEq

/-- A symbol whose address is still to be filled in. -/
structure Fixup where
  kind : FixupKind
  symbol : String
  /-- Where the place begins, once an address that carries the fixup has been
  written. -/
  position : Option Nat
  deriving DecidableEq

end Amd64
