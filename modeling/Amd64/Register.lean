import Amd64.ValueType

/-!
The registers that operands are allocated to: sixteen general-purpose ones and
sixteen XMM ones. A register's number is what instructions carry, three bits of
it in the instruction's own fields and the fourth in a REX prefix.
-/

namespace Amd64

/-- The two files of registers. -/
inductive RegisterClass where
  | general
  | xmm
  deriving DecidableEq

namespace RegisterClass

def all : List RegisterClass := [general, xmm]

def tag : RegisterClass → String
  | general => "Gpr"
  | xmm => "Xmm"

def ofTag? (tag : String) : Option RegisterClass :=
  all.find? fun registers => registers.tag = tag

end RegisterClass

/-- How much of a general-purpose register an instruction reads or writes. -/
inductive Access where
  | byte
  | word
  | long
  | quad
  deriving DecidableEq

/-- The part of a register that holds a value of this type. -/
def ValueType.access : ValueType → Access
  | i1 | i8 => .byte
  | i16 => .word
  | i32 => .long
  | _ => .quad

/-- A register, by class and number. -/
inductive Register where
  | general (number : Fin 16)
  | xmm (number : Fin 16)
  deriving DecidableEq

namespace Register

/-- The spellings of one register. -/
structure Names where
  /-- The name in records and debug text. -/
  tag : String
  /-- The names of all 64 bits and of the low 32, 16 and 8. -/
  quad : String
  long : String
  word : String
  byte : String

/-- The name of the part that an instruction reads or writes. -/
def Names.at (names : Names) : Access → String
  | .byte => names.byte
  | .word => names.word
  | .long => names.long
  | .quad => names.quad

/-- The first eight have names of their own, the others are numbered. -/
def generalNames : Vector Names 16 := #v[
  ⟨"Rax", "rax", "eax", "ax", "al"⟩,
  ⟨"Rcx", "rcx", "ecx", "cx", "cl"⟩,
  ⟨"Rdx", "rdx", "edx", "dx", "dl"⟩,
  ⟨"Rbx", "rbx", "ebx", "bx", "bl"⟩,
  ⟨"Rsp", "rsp", "esp", "sp", "spl"⟩,
  ⟨"Rbp", "rbp", "ebp", "bp", "bpl"⟩,
  ⟨"Rsi", "rsi", "esi", "si", "sil"⟩,
  ⟨"Rdi", "rdi", "edi", "di", "dil"⟩,
  ⟨"R8", "r8", "r8d", "r8w", "r8b"⟩,
  ⟨"R9", "r9", "r9d", "r9w", "r9b"⟩,
  ⟨"R10", "r10", "r10d", "r10w", "r10b"⟩,
  ⟨"R11", "r11", "r11d", "r11w", "r11b"⟩,
  ⟨"R12", "r12", "r12d", "r12w", "r12b"⟩,
  ⟨"R13", "r13", "r13d", "r13w", "r13b"⟩,
  ⟨"R14", "r14", "r14d", "r14w", "r14b"⟩,
  ⟨"R15", "r15", "r15d", "r15w", "r15b"⟩]

/-- The tag and the one name of each XMM register. -/
def xmmNames : Vector (String × String) 16 := #v[
  ("Xmm0", "xmm0"), ("Xmm1", "xmm1"),
  ("Xmm2", "xmm2"), ("Xmm3", "xmm3"),
  ("Xmm4", "xmm4"), ("Xmm5", "xmm5"),
  ("Xmm6", "xmm6"), ("Xmm7", "xmm7"),
  ("Xmm8", "xmm8"), ("Xmm9", "xmm9"),
  ("Xmm10", "xmm10"), ("Xmm11", "xmm11"),
  ("Xmm12", "xmm12"), ("Xmm13", "xmm13"),
  ("Xmm14", "xmm14"), ("Xmm15", "xmm15")]

/-- An XMM register has one name for every width. -/
def names : Register → Names
  | general number => generalNames[number]
  | xmm number =>
      let (tag, name) := xmmNames[number]
      ⟨tag, name, name, name, name⟩

/-- The stack pointer. -/
def rsp : Register := general 4

/-- The frame pointer. -/
def rbp : Register := general 5

/-- Every register, the general-purpose ones first, by number. -/
def all : List Register :=
  (List.finRange 16).map general ++ (List.finRange 16).map xmm

def tag (register : Register) : String :=
  register.names.tag

def ofTag? (tag : String) : Option Register :=
  all.find? fun register => register.tag = tag

def registerClass : Register → RegisterClass
  | general _ => .general
  | xmm _ => .xmm

def isGeneral : Register → Bool
  | general _ => true
  | xmm _ => false

def number : Register → Fin 16
  | general number => number
  | xmm number => number

/-- The name of the whole register, which is also its name inside an
address. -/
def name (register : Register) : String :=
  register.names.quad

/-- The name of the part that holds a value of the given type. -/
def nameFor (register : Register) (type : ValueType) : String :=
  register.names.at type.access

theorem ofTag?_tag (register : Register) : ofTag? register.tag = some register := by
  revert register
  rintro (n | n) <;> revert n <;> decide

end Register

/-- A register number as instructions carry it. Four bits of it are
meaningful. -/
structure RegisterNumber where
  value : UInt8
  deriving DecidableEq

namespace RegisterNumber

/-- The number of the stack pointer, which cannot be an index and, as a base,
needs a SIB byte. -/
def rsp : RegisterNumber := ⟨4⟩

/-- The number of the frame pointer, which as a base needs a displacement. -/
def rbp : RegisterNumber := ⟨5⟩

def ofFin (number : Fin 16) : RegisterNumber :=
  ⟨UInt8.ofNat number⟩

/-- The register that a number means. Only four bits of it count. -/
def toFin (register : RegisterNumber) : Fin 16 :=
  ⟨register.value.toNat % 16, Nat.mod_lt _ (by decide)⟩

/-- The three bits that go into a ModR/M or SIB field. -/
def low (register : RegisterNumber) : Nat :=
  register.value.toNat % 8

/-- The fourth bit, which goes into a REX prefix. -/
def isHigh (register : RegisterNumber) : Bool :=
  register.value.toNat / 8 % 2 = 1

end RegisterNumber

end Amd64
