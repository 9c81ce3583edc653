import Amd64.Operand.Listing
import Amd64.Operand.Place

/-!
What an operand depends on. An operand reads a function only through its frame
and through the variables in its use list: two functions that agree on these
show the operand as the same text and have it at the same place,
`Operand.sameIn_of_agreesOn`, whatever their other variables are.
-/

namespace Amd64

namespace Function

/-- Two functions have the same frame, and each of these variables exists in
both and is the same. -/
structure AgreesOn (f g : Function) (ids : List VariableId) : Prop where
  frame : f.frame = g.frame
  lookups : ∀ id ∈ ids, ∃ var, f.lookup id = .ok var ∧ g.lookup id = .ok var

namespace AgreesOn

variable {f g : Function} {ids fewer : List VariableId}

/-- A variable on which two functions agree is found in both, and is the same
there. That it exists is part of the agreement and need not be assumed. -/
theorem lookup (h : f.AgreesOn g ids) {id : VariableId} (hMem : id ∈ ids) :
    f.lookup id = g.lookup id := by
  obtain ⟨var, hFirst, hSecond⟩ := h.lookups id hMem
  rw [hFirst, hSecond]

/-- Functions that agree on some variables agree on any of them. The frame is
the same in any case. -/
theorem mono (h : f.AgreesOn g ids) (hFewer : ∀ id ∈ fewer, id ∈ ids) : f.AgreesOn g fewer :=
  ⟨h.frame, fun id hMem => h.lookups id (hFewer id hMem)⟩

/-- The register that slots are addressed from is chosen by the frame, so it is
the same whatever the variables are. -/
theorem slotBase (h : f.AgreesOn g ids) : f.slotBase = g.slotBase := by
  rw [Function.slotBase, h.frame, Function.slotBase]

theorem slotAddress (h : f.AgreesOn g ids) (displacement : Int32) :
    f.slotAddress displacement = g.slotAddress displacement := by
  rw [Function.slotAddress, h.slotBase, Function.slotAddress]

theorem listSlot (h : f.AgreesOn g ids) (displacement : Int32) :
    f.listSlot displacement = g.listSlot displacement := by
  rw [Function.listSlot, h.slotBase, Function.listSlot]

end AgreesOn

variable {f g : Function} {id : VariableId}

/-- From here on one lemma for each function that reads a variable: what it
returns, faults included, depends on the lookup alone. -/
theorem addressRegister_congr (h : f.lookup id = g.lookup id) :
    f.addressRegister id = g.addressRegister id := by
  rw [addressRegister, h, addressRegister]

theorem addressNumber_congr (h : f.lookup id = g.lookup id) :
    f.addressNumber id = g.addressNumber id := by
  rw [addressNumber, addressRegister_congr h, addressNumber]

theorem dumpVariable_congr (h : f.lookup id = g.lookup id) :
    f.dumpVariable id = g.dumpVariable id := by
  rw [dumpVariable, h, dumpVariable]

theorem dumpScaled_congr (scale : Scale) (h : f.lookup id = g.lookup id) :
    f.dumpScaled scale id = g.dumpScaled scale id := by
  rw [dumpScaled, dumpVariable_congr h, dumpScaled]

theorem listAddressRegister_congr (h : f.lookup id = g.lookup id) :
    f.listAddressRegister id = g.listAddressRegister id := by
  rw [listAddressRegister, addressRegister_congr h, listAddressRegister]

theorem listScaled_congr (scale : Scale) (h : f.lookup id = g.lookup id) :
    f.listScaled scale id = g.listScaled scale id := by
  rw [listScaled, listAddressRegister_congr h, listScaled]

/-- A variable in a stack slot also shows the register that slots are addressed
from, so that agreement on the lookup is not enough here. -/
theorem listVariable_congr (h : f.AgreesOn g [id]) : f.listVariable id = g.listVariable id := by
  simp only [listVariable, h.lookup (List.mem_singleton_self id), h.listSlot]

theorem stackAddress_congr (h : f.AgreesOn g [id]) : f.stackAddress id = g.stackAddress id := by
  simp only [stackAddress, h.lookup (List.mem_singleton_self id), h.slotAddress]

end Function

namespace MemoryOperand

/-- The base is in the use list that the operand stores. This and the next
lemma are all that is used of the list. -/
theorem mem_uses_of_base {operand : MemoryOperand} {id : VariableId}
    (h : operand.base = some id) : id ∈ operand.uses.toList := by
  simp [toList_uses, h]

theorem mem_uses_of_index {operand : MemoryOperand} {id : VariableId}
    (h : operand.index = some id) : id ∈ operand.uses.toList := by
  simp [toList_uses, h]

section

variable {f g : Function} {operand : MemoryOperand} (h : f.AgreesOn g operand.uses.toList)

include h

/-- A base that stands for a pointer and a constant is looked up like any
other. -/
theorem rematerializableBase_congr :
    operand.rematerializableBase f = operand.rematerializableBase g := by
  unfold rematerializableBase
  cases hBase : operand.base with
  | none => rfl
  | some id => simp only [h.lookup (mem_uses_of_base hBase)]

/-- The displacement of the base depends on the frame as well, which says where
the pointer stands. -/
theorem baseDisplacement_congr : operand.baseDisplacement f = operand.baseDisplacement g := by
  simp only [baseDisplacement, rematerializableBase_congr h, h.frame]

theorem baseEvents_congr : operand.baseEvents f = operand.baseEvents g := by
  simp only [baseEvents, rematerializableBase_congr h, h.frame]

/-- The check of the index gives the same verdict, and where it is a fault, the
same fault. -/
theorem checkIndex_congr : operand.checkIndex f = operand.checkIndex g := by
  unfold checkIndex
  cases hIndex : operand.index with
  | none => rfl
  | some id => simp only [h.lookup (mem_uses_of_index hIndex)]

/-- The debug text names the base and the index, and both of them are in the
use list. -/
theorem dumpVariables_congr : operand.dumpVariables f = operand.dumpVariables g := by
  have hBase := Rendering.withOption_congr fun id (hId : id ∈ operand.base) =>
    Function.dumpVariable_congr (h.lookup (mem_uses_of_base hId))
  have hIndex := Rendering.withOption_congr fun id (hId : id ∈ operand.index) =>
    congrArg ((if operand.base.isSome then Rendering.ofText "+" else Rendering.done) ++ ·)
      (Function.dumpScaled_congr operand.scale (h.lookup (mem_uses_of_index hId)))
  rw [dumpVariables, hBase, hIndex, dumpVariables]

/-- All that the debug text shows of other variables is what the use list leads
to, so nothing else of a function can be seen in it. -/
theorem dump_congr : operand.dump f = operand.dump g := by
  simp only [dump, withBaseDisplacement, baseDisplacement_congr h, baseEvents_congr h,
    dumpVariables_congr h]

/-- The listing names the registers of the base and of the index, under their
full names. -/
theorem listRegisters_congr : operand.listRegisters f = operand.listRegisters g := by
  have hBase := Rendering.withOption_congr fun id (hId : id ∈ operand.base) =>
    Function.listAddressRegister_congr (h.lookup (mem_uses_of_base hId))
  have hIndex := Rendering.withOption_congr fun id (hId : id ∈ operand.index) =>
    Function.listScaled_congr operand.scale (h.lookup (mem_uses_of_index hId))
  rw [listRegisters, hBase, hIndex, listRegisters]

/-- The listing checks the index before it writes anything, and that check
agrees too. -/
theorem listing_congr : operand.listing f = operand.listing g := by
  simp only [listing, withBaseDisplacement, baseDisplacement_congr h, baseEvents_congr h,
    checkIndex_congr h, listRegisters_congr h]

theorem baseNumber_congr : operand.baseNumber f = operand.baseNumber g := by
  unfold baseNumber
  cases hBase : operand.base with
  | none => rfl
  | some id => simp only [Function.addressNumber_congr (h.lookup (mem_uses_of_base hBase))]

theorem scaledIndex_congr : operand.scaledIndex f = operand.scaledIndex g := by
  unfold scaledIndex
  cases hIndex : operand.index with
  | none => rfl
  | some id => simp only [Function.addressNumber_congr (h.lookup (mem_uses_of_index hIndex))]

/-- The address, the fixup that is created for it and the fault that keeps it
from being one. The functions are compared as steps, so they agree in every
code. -/
theorem toAddress_congr : operand.toAddress f = operand.toAddress g := by
  simp only [toAddress, addressWith, baseDisplacement_congr h, checkIndex_congr h,
    baseNumber_congr h, scaledIndex_congr h]

end

end MemoryOperand

namespace SlotHalf

variable {f g : Function} {part : SlotHalf} (h : f.AgreesOn g [part.slot])

include h

/-- The displacement of a half is the place of its slot and its own offset.
Only the slot is looked up. -/
theorem displacement_congr : part.displacement f = part.displacement g := by
  simp only [displacement, h.lookup (List.mem_singleton_self _)]

theorem dump_congr : part.dump f = part.dump g := by
  simp only [dump, Function.dumpVariable_congr (h.lookup (List.mem_singleton_self _))]

theorem listing_congr : part.listing f = part.listing g := by
  have hSlot : f.listSlot = g.listSlot := funext h.listSlot
  simp only [listing, displacement_congr h, hSlot]

/-- The address of a half is below the same register in both functions, since
they share the frame. -/
theorem toAddress_congr : part.toAddress f = part.toAddress g := by
  simp only [toAddress, displacement_congr h, h.slotAddress]

end SlotHalf

namespace Operand

/-- Nothing that can be learned about an operand tells two functions apart:
neither its texts, nor where it is, nor its address with the fixup and the
fault that may come of it. -/
structure SameIn (f g : Function) (operand : Operand) : Prop where
  dump : operand.dump f = operand.dump g
  listing : operand.listing f = operand.listing g
  locate : ∀ mnemonic a, operand.locate f mnemonic a = operand.locate g mnemonic a
  slot : ∀ id, operand = .var id → f.stackAddress id = g.stackAddress id
  memory : ∀ part, operand = .memory part → ∀ a, part.toAddress f a = part.toAddress g a
  half : ∀ part, operand = .half part → part.toAddress f = part.toAddress g

/-- An operand is the same in functions that agree on the variables in its use
list. Other variables may differ in every respect, or be missing from one of
the two. -/
theorem sameIn_of_agreesOn {f g : Function} {operand : Operand}
    (h : f.AgreesOn g operand.uses.toList) : operand.SameIn f g := by
  cases operand with
  | var id =>
      have hFound : f.lookup id = g.lookup id := h.lookup (List.mem_singleton_self id)
      refine ⟨Function.dumpVariable_congr hFound, Function.listVariable_congr h, ?_, ?_, ?_, ?_⟩
      · intro mnemonic a
        simp only [locate, hFound, Function.stackAddress_congr h]
      · rintro _ ⟨⟩
        exact Function.stackAddress_congr h
      · rintro _ ⟨⟩
      · rintro _ ⟨⟩
  | constant value =>
      refine ⟨rfl, rfl, ?_, ?_, ?_, ?_⟩
      · intro mnemonic a
        cases value <;> rfl
      · rintro _ ⟨⟩
      · rintro _ ⟨⟩
      · rintro _ ⟨⟩
  | memory operand =>
      refine ⟨MemoryOperand.dump_congr h, MemoryOperand.listing_congr h, ?_, ?_, ?_, ?_⟩
      · intro mnemonic a
        simp only [locate, MemoryOperand.toAddress_congr h]
      · rintro _ ⟨⟩
      · rintro _ ⟨⟩ a
        rw [MemoryOperand.toAddress_congr h]
      · rintro _ ⟨⟩
  | half part =>
      refine ⟨SlotHalf.dump_congr h, SlotHalf.listing_congr h, ?_, ?_, ?_, ?_⟩
      · intro mnemonic a
        simp only [locate, SlotHalf.toAddress_congr h]
      · rintro _ ⟨⟩
      · rintro _ ⟨⟩
      · rintro _ ⟨⟩
        exact SlotHalf.toAddress_congr h

end Operand

end Amd64
