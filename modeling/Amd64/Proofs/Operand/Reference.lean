import Amd64.Instruction.Meaning
import Amd64.Proofs.Address.RoundTrip
import Amd64.Proofs.Operand.Translation

/-!
The memory that an operand stands for is the memory that its address refers to.
One side is read off the variables of the function, the other is what a
processor makes of the address.
-/

namespace Amd64

/-- The machine operand at a place, in an operation of this size. -/
def Place.machine (access : Access) : Place → MachineOperand
  | register (.general number) => .general number
  | register (.xmm number) => .xmm number
  | memory address => .memory address.reference
  | immediate value => .immediate (access.immediate value)

namespace Function

/-- The number of the register that stack slots are addressed from. -/
def slotNumber (f : Function) : Fin 16 :=
  if f.frame.usesFramePointer then ⟨5, by decide⟩ else ⟨4, by decide⟩

/-- The register that slots are addressed from is general-purpose, whichever of
the two pointers it is. -/
theorem slotBase_eq (f : Function) : f.slotBase = .general f.slotNumber := by
  unfold slotBase FrameConfig.slotBase slotNumber
  cases f.frame.usesFramePointer <;> rfl

/-- There is always an address beside that register: the pointer is only a
base, and never an index. -/
theorem slotAddress_eq (f : Function) (displacement : Int32) :
    f.slotAddress displacement = .ok (.based (.ofFin f.slotNumber) displacement none) := by
  unfold slotAddress
  rw [slotBase_eq]
  rfl

/-- What operands denote and what they are translated to speak of the same
place. -/
theorem slotReference?_eq (f : Function) (displacement : Int32) :
    f.slotReference? displacement =
      some (Address.based (.ofFin f.slotNumber) displacement none).reference := by
  unfold slotReference?
  rw [slotBase_eq]
  simp [Address.reference, Address.based]

/-- A variable has a stack address if it has no register. Whether it is
rematerializable is not asked here. -/
theorem stackAddress_eq_ok_iff (f : Function) (id : VariableId) (address : Address) :
    f.stackAddress id = .ok address ↔
      ∃ found, f.lookup id = .ok found ∧ found.register = none ∧
        address = .based (.ofFin f.slotNumber) found.stackOffset none := by
  unfold stackAddress
  cases f.lookup id with
  | error cause => simp
  | ok found =>
      cases hRegister : found.register with
      | none => simp [hRegister, slotAddress_eq, eq_comm]
      | some register => simp [hRegister]

/-- Whatever has a stack address is in no register. -/
theorem register_eq_none_of_stackAddress {f : Function} {id : VariableId} {found : Variable}
    {address : Address} (hFound : f.lookup id = .ok found)
    (hAddress : f.stackAddress id = .ok address) : found.register = none := by
  obtain ⟨_, hAgain, hNone, -⟩ := (f.stackAddress_eq_ok_iff _ _).mp hAddress
  cases hFound.symm.trans hAgain
  exact hNone

end Function

/-- A half has an address where its whole variable has one, its own offset
further on. The sum wraps around at the width of a displacement. -/
theorem SlotHalf.toAddress_eq_ok_iff (f : Function) (part : SlotHalf) (address : Address) :
    part.toAddress f = .ok address ↔
      ∃ found, f.lookup part.slot = .ok found ∧ found.register = none ∧
        address = .based (.ofFin f.slotNumber) (found.stackOffset + part.offset) none := by
  unfold toAddress displacement
  cases f.lookup part.slot with
  | error cause => simp
  | ok found =>
      cases hRegister : found.register with
      | none => simp [hRegister, Function.slotAddress_eq, eq_comm]
      | some register => simp [hRegister]

namespace MemoryOperand

/-- The fixup of an address is no part of the memory that it refers to. The
linker changes the displacement later, and the reference is what is encoded
now. -/
theorem reference?_of_toAddress {f : Function} {operand : MemoryOperand} {a after : Assembler}
    {address : Address} (h : operand.toAddress f a = .done address after) :
    operand.reference? f = some address.reference := by
  obtain ⟨resolved, hResolved, rfl, -⟩ := (toAddress_eq_done_iff _ _ _ _ _).mp h
  obtain ⟨displacement, base, index, hDisplacement, hCheck, hBase, hIndex, rfl, hRsp⟩ :=
    (resolve_eq_ok_iff _ _ _).mp hResolved
  have hAddress : operand.addressWith f (displacement + operand.offsetValue) none =
      .ok ⟨base, index, displacement + operand.offsetValue, none⟩ :=
    (addressWith_eq_ok_iff _ _ _ _ _).mpr ⟨base, index, hBase, hIndex, rfl, hRsp⟩
  unfold reference?
  rw [hDisplacement, hCheck]
  simp only [hAddress]
  rfl

end MemoryOperand

namespace Operand

variable {f : Function} {operand : Operand} {a after : Assembler}

/-- An operand in memory denotes the memory at its address, for an access of
any width. -/
theorem TranslatesTo.machine {address : Address} (h : operand.TranslatesTo f a address after)
    (access : Access) : operand.machine? f access = some (.memory address.reference) := by
  cases h with
  | slot h =>
      obtain ⟨found, hFound, hNone, rfl⟩ := (f.stackAddress_eq_ok_iff _ _).mp h
      simp [machine?, hFound, hNone, Function.slotReference?_eq]
  | half h =>
      obtain ⟨found, hFound, -, rfl⟩ := (SlotHalf.toAddress_eq_ok_iff _ _ _).mp h
      simp [machine?, hFound, Function.slotReference?_eq]
  | memory h => simp [machine?, MemoryOperand.reference?_of_toAddress h]

/-- An operand denotes what is at its place. This is the one fact through which
the encoder, which sees places only, is compared with the meaning of
operands. -/
theorem LocatedAt.machine {place : Place} (h : operand.LocatedAt f a place after)
    (access : Access) : operand.machine? f access = some (place.machine access) := by
  cases h with
  | @register id found register hFound _ hRegister =>
      cases register <;> simp [machine?, hFound, hRegister, Place.machine]
  | slot _ _ hAddress => exact TranslatesTo.machine (.slot hAddress : TranslatesTo f a _ _ a) access
  | immediate value => rfl
  | memory hAddress => exact TranslatesTo.machine (.memory hAddress) access
  | half hAddress => exact TranslatesTo.machine (.half hAddress : TranslatesTo f a _ _ a) access

end Operand

end Amd64
