import Amd64.Fault
import Amd64.Linking
import Amd64.Scale

/-!
Addresses as the machine computes them: an optional base register, an optional
scaled index register and a displacement, which a fixup may still have to
complete.
-/

namespace Amd64

/-- An index register and the factor that multiplies it. -/
structure ScaledIndex where
  register : RegisterNumber
  scale : Scale
  deriving DecidableEq

/-- A machine address. The displacement is sign-extended before it is added. -/
structure Address where
  base : Option RegisterNumber
  index : Option ScaledIndex
  displacement : Int32
  /-- The fixup that completes the displacement. -/
  fixup : Option FixupRef
  deriving DecidableEq

namespace RegisterNumber

/-- A register number below sixteen. -/
def make (value : UInt8) : Except Fault RegisterNumber :=
  if value < 16 then .ok ⟨value⟩ else .error (.registerNumber value)

end RegisterNumber

namespace Register

def generalNumber (register : Register) : Except Fault RegisterNumber :=
  match register with
  | general number => .ok (.ofFin number)
  | xmm _ => .error (.notGeneral register)

def xmmNumber (register : Register) : Except Fault RegisterNumber :=
  match register with
  | general _ => .error (.notXmm register)
  | xmm number => .ok (.ofFin number)

end Register

def Scale.ofShift (shift : UInt8) : Except Fault Scale :=
  match Scale.ofShift? shift.toNat with
  | some scale => .ok scale
  | none => .error (.scaleShift shift)

namespace Address

def absolute (displacement : Int32) (fixup : Option FixupRef) : Address :=
  ⟨none, none, displacement, fixup⟩

/-- An address relative to one register. -/
def based (base : RegisterNumber) (displacement : Int32) (fixup : Option FixupRef) : Address :=
  ⟨some base, none, displacement, fixup⟩

/-- The address of these parts. The stack pointer is refused as an index,
because its number in a SIB byte means that there is none. -/
def make (base : Option RegisterNumber) (index : Option ScaledIndex) (displacement : Int32)
    (fixup : Option FixupRef) : Except Fault Address :=
  match index with
  | none => .ok ⟨base, none, displacement, fixup⟩
  | some scaled =>
      if scaled.register = .rsp then .error .stackPointerIndex
      else .ok ⟨base, some scaled, displacement, fixup⟩

/-- Only the stack pointer as an index makes an address impossible: its number
means in an index byte that there is no index. Nothing is asked of the base or
of the displacement. -/
theorem make_eq_ok_iff (base : Option RegisterNumber) (index : Option ScaledIndex)
    (displacement : Int32) (fixup : Option FixupRef) (address : Address) :
    make base index displacement fixup = .ok address ↔
      address = ⟨base, index, displacement, fixup⟩ ∧
        ∀ scaled ∈ index, scaled.register ≠ .rsp := by
  cases index with
  | none => simp [make, eq_comm]
  | some scaled =>
      by_cases h : scaled.register = .rsp
      · simp [make, h]
      · simp only [make, h, if_false, Except.ok.injEq, Option.mem_def, Option.some.injEq]
        constructor
        · rintro rfl
          exact ⟨rfl, fun found hFound => hFound ▸ h⟩
        · rintro ⟨rfl, _⟩
          rfl

end Address

end Amd64
