import Amd64.Proofs.Instruction.Displacement

/-!
Symbols in the memory operands of encoded instructions. An operand with a
symbol requests a fixup before it is known whether its instruction has a form;
once the instruction is encoded, the fixup is there and has its place, which is
the displacement of the instruction: `relocates_of_encode`.
-/

namespace Amd64

/-- The bytes of a sum are those of the exact sum modulo their room. -/
theorem LittleEndian.word_add (first second : Int32) :
    word (first + second) = bytes 4 ((first.toInt + second.toInt) % 4294967296).toNat := by
  have hSum : (first + second).toInt = (first.toInt + second.toInt).bmod 4294967296 :=
    Int32.toInt_add _ _
  have hResidue : (first.toInt + second.toInt).bmod 4294967296 % 4294967296 =
      (first.toInt + second.toInt) % 4294967296 := Int.bmod_emod
  have hWord := Form.toNat_toUInt32 (first + second)
  rw [hSum, hResidue] at hWord
  rw [word]
  congr 1
  omega

/-- A memory operand and the symbol in its offset, if it has one. -/
def Operand.relocation? : Operand → Option (MemoryOperand × Relocatable)
  | memory operand => operand.symbol?.map fun target => (operand, target)
  | _ => none

/-- The memory operands of an instruction whose offsets are symbols. -/
def Instruction.relocations (instruction : Instruction) : List (MemoryOperand × Relocatable) :=
  instruction.operands.filterMap Operand.relocation?

/-- The bytes of an instruction around the displacement of its memory operand.
Whatever stands in the place of the displacement, the instruction is the same
but for that displacement. -/
structure DisplacementField where
  leading : List UInt8
  trailing : List UInt8
  machine : MachineInstruction
  leading_ne_nil : leading ≠ []
  displacement_isSome : machine.displacement?.isSome = true
  read : ∀ displacement rest,
    MachineInstruction.read (leading ++ LittleEndian.word displacement ++ trailing ++ rest) =
      some (machine.withDisplacement displacement, rest)

/-- The bytes of the instruction with this displacement. -/
def DisplacementField.bytes (field : DisplacementField) (displacement : Int32) : List UInt8 :=
  field.leading ++ LittleEndian.word displacement ++ field.trailing

/-- An instruction was encoded between two codes, and the fixup stands for the
symbol in a memory operand of it. -/
structure Instruction.Relocates (f : Function) (instruction : Instruction)
    (before after : Assembler) (operand : MemoryOperand) (target : Relocatable) (fixup : Fixup)
    (base : Int32) (field : DisplacementField) : Prop where
  symbol : (operand, target) ∈ instruction.relocations
  /-- What a rematerializable base contributes, or zero. -/
  baseDisplacement : operand.baseDisplacement f = .ok base
  machine : instruction.machine? f 0 = some field.machine
  bytes : after.bytes = before.bytes ++ field.bytes (base + target.addend)
  /-- The place of the fixup is that of the displacement. -/
  place : fixup = ⟨.signed32, target.symbol, some (before.position + field.leading.length)⟩

/-- The place of the fixup is inside the instruction, with all its four bytes,
and behind its first byte. -/
theorem Instruction.Relocates.bounds {f : Function} {instruction : Instruction}
    {before after : Assembler} {operand : MemoryOperand} {target : Relocatable} {fixup : Fixup}
    {base : Int32} {field : DisplacementField}
    (h : instruction.Relocates f before after operand target fixup base field) :
    before.position < before.position + field.leading.length ∧
      before.position + field.leading.length + 4 ≤ after.position := by
  have hLeading := List.length_pos_iff.mpr field.leading_ne_nil
  have hAfter : after.position = before.position + (field.bytes (base + target.addend)).length := by
    rw [Assembler.position, h.bytes, List.length_append, Assembler.position]
  simp only [DisplacementField.bytes, List.length_append, LittleEndian.length_word] at hAfter
  omega

/-- A memory operand with a symbol carries the next fixup, and the code
receives it. Its addend is in the displacement already. -/
theorem MemoryOperand.of_toAddress_of_symbol {f : Function} {operand : MemoryOperand}
    {target : Relocatable} {a after : Assembler} {address : Address}
    (hSymbol : operand.symbol? = some target) (h : operand.toAddress f a = .done address after) :
    ∃ base, operand.baseDisplacement f = .ok base ∧ address.displacement = base + target.addend ∧
      address.fixup = some a.nextFixup ∧
      after = a.withFixups [⟨.signed32, target.symbol, none⟩] := by
  obtain ⟨resolved, hResolved, rfl, rfl⟩ := (toAddress_eq_done_iff _ _ _ _ _).mp h
  obtain ⟨base, _, _, hBase, -, -, -, rfl, -⟩ := (resolve_eq_ok_iff _ _ _).mp hResolved
  refine ⟨base, hBase, ?_, ?_, ?_⟩
  · have hOffset : operand.offset = some (.relocatable target) := by
      unfold symbol? at hSymbol
      split at hSymbol
      · cases hSymbol
        assumption
      · cases hSymbol
    simp only [offsetValue, hOffset]
  · rw [carried, hSymbol]
    rfl
  · rw [requested, hSymbol]
    rfl

namespace Operand

variable {f : Function} {operand : Operand} {place : Place} {a after : Assembler}

/-- An operand that is not in memory leaves the code as it was, and has no
symbol. -/
theorem LocatedAt.of_no_address (h : operand.LocatedAt f a place after)
    (hPlace : place.address? = none) : operand.relocation? = none ∧ after = a := by
  cases h with
  | register | immediate => exact ⟨rfl, rfl⟩
  | slot | memory | half => cases hPlace

/-- An operand either has no symbol, and then the code stays as it was and no
fixup is carried, or it is a memory operand, and its address carries the fixup
for the symbol. -/
theorem LocatedAt.relocation_cases (h : operand.LocatedAt f a place after) :
    (operand.relocation? = none ∧ after = a ∧
      ∀ address ∈ place.address?, address.fixup = none) ∨
    ∃ part target address, operand.relocation? = some (part, target) ∧
      part.symbol? = some target ∧ place.address? = some address ∧
      part.toAddress f a = .done address after := by
  cases h with
  | register | immediate => exact Or.inl ⟨rfl, rfl, by simp [Place.address?]⟩
  | slot _ _ hAddress =>
      refine Or.inl ⟨rfl, rfl, ?_⟩
      rintro _ ⟨⟩
      obtain ⟨_, -, -, rfl⟩ := (f.stackAddress_eq_ok_iff _ _).mp hAddress
      rfl
  | half hAddress =>
      refine Or.inl ⟨rfl, rfl, ?_⟩
      rintro _ ⟨⟩
      obtain ⟨_, -, -, rfl⟩ := (SlotHalf.toAddress_eq_ok_iff _ _ _).mp hAddress
      rfl
  | @memory part address _ hAddress =>
      cases hSymbol : part.symbol? with
      | some target => exact Or.inr ⟨part, target, address, by simp [relocation?, hSymbol], hSymbol,
          rfl, hAddress⟩
      | none =>
          obtain ⟨_, -, rfl, rfl⟩ := (MemoryOperand.toAddress_eq_done_iff _ _ _ _ _).mp hAddress
          refine Or.inl ⟨by simp [relocation?, hSymbol],
            by simp [MemoryOperand.requested, hSymbol], ?_⟩
          rintro _ ⟨⟩
          simp [MemoryOperand.carried, hSymbol]

end Operand

namespace Instruction

variable {f : Function} {instruction : Instruction} {form : Form} {a between after : Assembler}

/-- One operand decides about the fixups of an instruction that has a form: two
operands in memory have none, and any other operand leaves the code as it
was. -/
theorem FormedAs.deciding (h : instruction.FormedAs f a form between) :
    ∃ (operand : Operand) (place : Place), operand.LocatedAt f a place between ∧
      instruction.relocations = operand.relocation?.toList ∧
      form.other.address? = place.address? := by
  cases h with
  | @mov type dest src d s middle _ _ hDest hSrc hForm =>
      rcases Form.address?_of_move hForm with ⟨hPlace, hOther⟩ | ⟨hPlace, hOther⟩
      · obtain ⟨hNone, rfl⟩ := hSrc.of_no_address hPlace
        refine ⟨dest, d, hDest, ?_, hOther⟩
        cases hRelocation : dest.relocation? <;>
          simp [relocations, operands, hNone, hRelocation]
      · obtain ⟨hNone, rfl⟩ := hDest.of_no_address hPlace
        refine ⟨src, s, hSrc, ?_, hOther⟩
        cases hRelocation : src.relocation? <;>
          simp [relocations, operands, hNone, hRelocation]
  | @lea dest src found number wide address _ _ _ _ hAddress =>
      refine ⟨.memory src, .memory address, .memory hAddress, ?_, rfl⟩
      cases hRelocation : (Operand.memory src).relocation? <;>
        simp [relocations, operands, hRelocation]
  | @setcc condition dest d _ _ hDest hForm =>
      refine ⟨dest, d, hDest, ?_, Form.address?_of_setByte hForm⟩
      cases hRelocation : dest.relocation? <;> simp [relocations, operands, hRelocation]
  | @cmpps predicate dest src found number s _ _ _ _ _ hSrc hForm =>
      refine ⟨src, s, hSrc, ?_, Form.address?_of_compareLanes hForm⟩
      cases hRelocation : src.relocation? <;> simp [relocations, operands, hRelocation]

/-- The displacement of a form whose address carries a fixup is four bytes
somewhere inside it, and what is before it and behind it does not depend on
it. -/
theorem FormedAs.displacementField (h : instruction.FormedAs f a form between) {address : Address}
    (hOther : form.other = .memory address) (hFixup : address.fixup.isSome = true) :
    ∃ field : DisplacementField, instruction.machine? f 0 = some field.machine ∧
      field.leading = form.beforeDisplacement address ∧
      form.bytes = field.bytes address.displacement := by
  obtain ⟨machine, hMachine, hDisplacement, hRead⟩ := h.read_withDisplacement
  have hNonempty : form.beforeDisplacement address ≠ [] := by
    simp [Form.beforeDisplacement, AddressEncoding.head]
  have hField (displacement : Int32) (rest : List UInt8) := hRead displacement rest
  simp only [Form.bytes_withDisplacement hOther hFixup] at hField
  have hMemory : machine.displacement?.isSome = true := by
    rw [hDisplacement, hOther]
    rfl
  exact ⟨⟨_, form.trailing, machine, hNonempty, hMemory, hField⟩, hMachine, rfl,
    Form.bytes_eq_of_fixup hOther hFixup⟩

/-- An encoded instruction has one symbol at most: a second one would be a
second operand in memory. -/
theorem length_relocations_le (h : instruction.encode f a = .done () after) :
    instruction.relocations.length ≤ 1 := by
  rcases (encode_eq_done_iff _ _ _ _).mp h with ⟨_, _, rfl, -⟩ | ⟨_, _, hFormed, -⟩
  · exact Nat.zero_le _
  · obtain ⟨operand, _, -, hRelocations, -⟩ := hFormed.deciding
    rw [hRelocations]
    cases operand.relocation? <;> simp

/-- An encoded instruction adds the fixup for its symbol, and none if it has no
symbol. The bound keeps the new fixup from taking the number of an old one. -/
theorem relocates_of_encode (h : instruction.encode f a = .done () after)
    (hRoom : after.fixups.length ≤ 4294967296) :
    (instruction.relocations = [] ∧ after.fixups = a.fixups) ∨
      ∃ operand target fixup base field, instruction.relocations = [(operand, target)] ∧
        after.fixups = a.fixups ++ [fixup] ∧
        instruction.Relocates f a after operand target fixup base field := by
  rcases (encode_eq_done_iff _ _ _ _).mp h with
    ⟨condition, target, rfl, hJump⟩ | ⟨form, between, hFormed, hEmit⟩
  · exact Or.inl ⟨rfl, Assembler.fixups_of_emitJump hJump⟩
  · obtain ⟨operand, place, hLocated, hRelocations, hOther⟩ := hFormed.deciding
    rcases hLocated.relocation_cases with
      ⟨hNone, rfl, hUncarried⟩ | ⟨part, target, address, hSome, hSymbol, hPlace, hAddress⟩
    · rw [hNone] at hRelocations
      rw [← hOther] at hUncarried
      exact Or.inl ⟨hRelocations, Form.fixups_of_emit_uncarried hUncarried hEmit⟩
    · rw [hSome] at hRelocations
      obtain ⟨base, hBase, hDisplacement, hFixup, rfl⟩ :=
        MemoryOperand.of_toAddress_of_symbol hSymbol hAddress
      rw [hPlace, RegisterOrMemory.address?_eq_some_iff] at hOther
      obtain ⟨field, hMachine, hLeading, hForm⟩ :=
        hFormed.displacementField hOther (by rw [hFixup]; rfl)
      have hBytes : after.bytes = a.bytes ++ field.bytes (base + target.addend) := by
        rw [(Form.emit_extends hEmit).1, hForm, hDisplacement]
        rfl
      have hPlaced := Form.fixups_of_emit_carried hOther hFixup hEmit hRoom
      rw [← hLeading] at hPlaced
      exact Or.inr ⟨part, target, _, base, field, hRelocations, hPlaced,
        ⟨by rw [hRelocations]; exact .head _, hBase, hMachine, hBytes, rfl⟩⟩

end Instruction

end Amd64
