import Amd64.Proofs.Assembler.Labels
import Amd64.Proofs.Instruction.Reading
import Amd64.Proofs.Instruction.Writing
import Amd64.Proofs.Operand.Reference

/-!
A processor reads an encoded instruction as the machine instruction that it
stands for. The forms are read first, place by place; what the places of the
operands denote comes second.
-/

namespace Amd64

namespace Form

/-- Copies of integers are read with destination and source in their places.
The cases are the five rules, and each is one line of the opcode table. -/
theorem CopiesInteger.read {access : Access} {dest src : Place} {form : Form}
    (h : CopiesInteger access dest src form) (rest : List UInt8) :
    MachineInstruction.read (form.bytes ++ rest) =
      some (.move access (dest.machine access) (src.machine access), rest) := by
  cases h with
  | registers d s =>
      generalize hForm : integerCopy access 0x89 (lowByteNeedsRex d || lowByteNeedsRex s) s
        (.register d) [] = form
      have hDest := general_other_integerCopy hForm.symm (by simp +contextual)
      have hSrc := general_reg_integerCopy hForm.symm (by simp +contextual)
      have hReg : form.reg = s := by rw [← hForm, integerCopy]
      have hOther : form.other = .register d := by rw [← hForm, integerCopy]
      rw [read_integerCopy hForm.symm (by simp), List.nil_append]
      refine (readMove_store form access rest).trans ?_
      rw [hReg, hOther, hSrc]
      simp only [RegisterOrMemory.operand, MachineInstruction.operandOf, hDest, Place.machine]
  | load d address =>
      generalize hForm : integerCopy access 0x8B (lowByteNeedsRex d) d (.memory address) [] = form
      have hDest := general_reg_integerCopy hForm.symm id
      have hReg : form.reg = d := by rw [← hForm, integerCopy]
      have hOther : form.other = .memory address := by rw [← hForm, integerCopy]
      rw [read_integerCopy hForm.symm (by simp), List.nil_append]
      refine (readMove_load form access rest).trans ?_
      rw [hReg, hOther, hDest]
      rfl
  | store address s =>
      generalize hForm : integerCopy access 0x89 (lowByteNeedsRex s) s (.memory address) [] = form
      have hSrc := general_reg_integerCopy hForm.symm id
      have hReg : form.reg = s := by rw [← hForm, integerCopy]
      have hOther : form.other = .memory address := by rw [← hForm, integerCopy]
      rw [read_integerCopy hForm.symm (by simp), List.nil_append]
      refine (readMove_store form access rest).trans ?_
      rw [hReg, hOther, hSrc]
      rfl
  | setRegister d value =>
      generalize hForm : integerCopy access 0xC7 (lowByteNeedsRex d) noRegister (.register d)
        (immediateBytes access value) = form
      have hDest := general_other_integerCopy hForm.symm id
      have hReg : form.reg = noRegister := by rw [← hForm, integerCopy]
      have hOther : form.other = .register d := by rw [← hForm, integerCopy]
      rw [read_integerCopy hForm.symm (by simp)]
      refine (readMove_immediate access value rest hReg).trans ?_
      rw [hOther]
      simp only [RegisterOrMemory.operand, MachineInstruction.operandOf, hDest, Place.machine]
  | setMemory address value =>
      generalize hForm : integerCopy access 0xC7 false noRegister (.memory address)
        (immediateBytes access value) = form
      have hReg : form.reg = noRegister := by rw [← hForm, integerCopy]
      have hOther : form.other = .memory address := by rw [← hForm, integerCopy]
      rw [read_integerCopy hForm.symm (by simp)]
      refine (readMove_immediate access value rest hReg).trans ?_
      rw [hOther]
      rfl

/-- The selector of a float copy is legible and gives the precision back, so
that no two types share one without sharing the other. -/
theorem floatSelector_legible (type : ValueType) :
    floatSelector type ∈ [[], [0x66], [0xF2], [0xF3]] ∧
      MachineInstruction.floatAccess? (floatSelector type).head? = some type.floatAccess := by
  cases type <;> exact ⟨by decide, rfl⟩

/-- Copies of floats and vectors are read with destination and source in their
places. The width of an integer access plays no part in it. -/
theorem CopiesFloat.read {type : ValueType} {dest src : Place} {form : Form}
    (h : CopiesFloat type dest src form) (access : Access) (rest : List UInt8) :
    MachineInstruction.read (form.bytes ++ rest) =
      some (.moveFloat type.floatAccess (dest.machine access) (src.machine access), rest) := by
  obtain ⟨hSelector, hAccess⟩ := floatSelector_legible type
  cases h with
  | registers d s =>
      refine (read_twoByte rfl hSelector rest).trans ?_
      exact readTwoByte_floatLoad (floatCopy type 0x10 d (.register s)) rest hAccess
  | load d address =>
      refine (read_twoByte rfl hSelector rest).trans ?_
      exact readTwoByte_floatLoad (floatCopy type 0x10 d (.memory address)) rest hAccess
  | store address s =>
      refine (read_twoByte rfl hSelector rest).trans ?_
      exact readTwoByte_floatStore (floatCopy type 0x11 s (.memory address)) rest hAccess

/-- The type of a copy decides how its bytes are read. Whoever reads them does
not know the type and finds the same operation. -/
theorem read_move {type : ValueType} {dest src : Place} {form : Form}
    (h : move type dest src = .ok form) (rest : List UInt8) :
    MachineInstruction.read (form.bytes ++ rest) =
      some (if type.isXmm then
          .moveFloat type.floatAccess (dest.machine type.access) (src.machine type.access)
        else .move type.access (dest.machine type.access) (src.machine type.access), rest) := by
  rcases (move_eq_ok_iff _ _ _ _).mp h with ⟨hXmm, hCopy⟩ | ⟨hXmm, access, hAccess, hCopy⟩
  · rw [hCopy.read type.access rest, hXmm]
    rfl
  · have hSame : access = type.access := by
      cases type <;> simp_all [integerAccess?, ValueType.access]
    rw [hCopy.read rest, hXmm, hSame]
    rfl

/-- A byte that a condition sets is read with that condition and one
operand. -/
theorem read_setByte {condition : Condition} {dest : Place} {form : Form}
    (h : setByte condition dest = .ok form) (rest : List UInt8) :
    MachineInstruction.read (form.bytes ++ rest) =
      some (.setByte condition (dest.machine .byte), rest) := by
  obtain ⟨other, hOther, rfl⟩ := (setByte_eq_ok_iff _ _ _).mp h
  rw [conditionByte, read_twoByte rfl (by simp) rest, List.nil_append, readTwoByte_setByte]
  cases hOther with
  | register number =>
      -- A low byte is named by its number only beside a REX prefix, which the form then forces.
      have hName : (conditionByte condition (lowByteNeedsRex number)
          (.register number)).prefixes.general .byte number = .general number := by
        apply general_prefixes
        intro _ hFour
        exact isSome_rex_of_other rfl hFour id
      exact congrArg
        (fun operand => some (MachineInstruction.setByte condition operand, rest)) hName
  | memory address => rfl

theorem read_compareLanes {predicate : Predicate} {dest : Fin 16} {src : Place} {form : Form}
    (h : compareLanes predicate dest src = .ok form) (access : Access) (rest : List UInt8) :
    MachineInstruction.read (form.bytes ++ rest) =
      some (.compareLanes predicate dest (src.machine access), rest) := by
  obtain ⟨other, hOther, rfl⟩ := (compareLanes_eq_ok_iff _ _ _ _).mp h
  rw [laneComparison, read_twoByte rfl (by simp) rest]
  refine (readTwoByte_compareLanes _ predicate rest rfl).trans ?_
  cases hOther <;> rfl

/-- An address computation is read with its register and the memory that is
computed and not accessed. -/
theorem read_loadAddress (wide : Bool) (dest : Fin 16) (address : Address) (rest : List UInt8) :
    MachineInstruction.read ((loadAddress wide dest address).bytes ++ rest) =
      some (.loadAddress (if wide then .quad else .long) dest (.memory address.reference),
        rest) := by
  have hRead := @read_prefixes (loadAddress wide dest address) _ _ rest (by simp [loadAddress]) rfl
    (by decide)
  unfold MachineInstruction.read
  rw [hRead]
  exact readLoadAddress_operandBytes (loadAddress wide dest address) address rest rfl rfl

/-- No form is longer than fifteen bytes. The parts are bounded one by one, the
displacement by four bytes. -/
theorem length_bytes_le {form : Form} (hSelector : form.selector.length ≤ 1)
    (hOpcode : form.opcode.length ≤ 2) (hTrailing : form.trailing.length ≤ 4) :
    form.bytes.length ≤ 15 := by
  have hRex := form.rex.length_bytes_le
  have hOperand : form.operandBytes.length ≤ 6 := by
    unfold operandBytes
    cases form.other with
    | register number => simp
    | memory address => exact (address.encode form.reg).length_bytes_le
  simp only [bytes, leading, List.length_append]
  omega

end Form

namespace Instruction

/-- The distance that an instruction goes if it is written here and is a
jump. -/
def distance (a : Assembler) : Instruction → Int32
  | jcc _ target => a.jumpDistance target
  | _ => 0

variable {f : Function} {instruction : Instruction} {form : Form} {a between : Assembler}

theorem FormedAs.length_bytes_le (h : instruction.FormedAs f a form between) :
    form.bytes.length ≤ 15 := by
  have hInteger (access : Access) (opcode : UInt8) (force : Bool) (reg : Fin 16)
      (other : RegisterOrMemory) (trailing : List UInt8) (hTrailing : trailing.length ≤ 4) :
      (Form.integerCopy access opcode force reg other trailing).bytes.length ≤ 15 := by
    apply Form.length_bytes_le _ (by simp [Form.integerCopy]) hTrailing
    cases access <;> simp [Form.integerCopy]
  have hFloat (type : ValueType) (opcode : UInt8) (reg : Fin 16) (other : RegisterOrMemory) :
      (Form.floatCopy type opcode reg other).bytes.length ≤ 15 := by
    apply Form.length_bytes_le _ (by simp [Form.floatCopy]) (by simp [Form.floatCopy])
    cases type <;> simp [Form.floatCopy, Form.floatSelector]
  have hImmediate (access : Access) (value : Int32) :
      (Form.immediateBytes access value).length ≤ 4 := by
    cases access <;> simp [Form.immediateBytes]
  cases h with
  | mov _ _ hForm =>
      rcases (Form.move_eq_ok_iff _ _ _ _).mp hForm with ⟨-, hCopy⟩ | ⟨-, access, -, hCopy⟩
      · cases hCopy <;> exact hFloat _ _ _ _
      · cases hCopy with
        | registers | load | store => exact hInteger _ _ _ _ _ _ (by simp)
        | setRegister | setMemory => exact hInteger _ _ _ _ _ _ (hImmediate _ _)
  | lea =>
      exact Form.length_bytes_le (by simp [Form.loadAddress]) (by simp [Form.loadAddress])
        (by simp [Form.loadAddress])
  | setcc _ hForm =>
      obtain ⟨other, -, rfl⟩ := (Form.setByte_eq_ok_iff _ _ _).mp hForm
      exact Form.length_bytes_le (by simp [Form.conditionByte]) (by simp [Form.conditionByte])
        (by simp [Form.conditionByte])
  | cmpps _ _ _ _ hForm =>
      obtain ⟨other, -, rfl⟩ := (Form.compareLanes_eq_ok_iff _ _ _ _).mp hForm
      exact Form.length_bytes_le (by simp [Form.laneComparison]) (by simp [Form.laneComparison])
        (by simp [Form.laneComparison])

/-- A variable in a general-purpose register stands for that register. -/
theorem generalRegister?_eq {id : VariableId} {found : Variable} {number : Fin 16}
    (hFound : f.lookup id = .ok found) (hRegister : found.register = some (.general number)) :
    generalRegister? f id = some number := by
  obtain ⟨name, type, register, offset, rematerializable⟩ := found
  cases hRegister
  simp [generalRegister?, hFound]

theorem xmmRegister?_eq {id : VariableId} {found : Variable} {number : Fin 16}
    (hFound : f.lookup id = .ok found) (hRegister : found.register = some (.xmm number)) :
    xmmRegister? f id = some number := by
  obtain ⟨name, type, register, offset, rematerializable⟩ := found
  cases hRegister
  simp [xmmRegister?, hFound]

/-- The form of an instruction is read as what the instruction stands for. The
meaning of an instruction does not mention forms, and its distance only matters
to jumps. -/
theorem FormedAs.read (h : instruction.FormedAs f a form between) (distance : Int32) :
    ∃ machine, instruction.machine? f distance = some machine ∧
      ∀ rest, MachineInstruction.read (form.bytes ++ rest) = some (machine, rest) := by
  cases h with
  | @mov type dest src d s _ _ _ hDest hSrc hForm =>
      refine ⟨_, ?_, Form.read_move hForm⟩
      simp only [machine?, hDest.machine, hSrc.machine]
      cases type.isXmm <;> rfl
  | @lea dest src found number wide address _ hFound hType hRegister hAddress =>
      refine ⟨_, ?_, Form.read_loadAddress wide number address⟩
      have hAccess : found.type.access = if wide then .quad else .long := by
        rw [hType]
        cases wide <;> rfl
      simp [machine?, hFound, Except.toOption, hAccess, generalRegister?_eq hFound hRegister,
        MemoryOperand.reference?_of_toAddress hAddress]
  | setcc hDest hForm =>
      refine ⟨_, ?_, Form.read_setByte hForm⟩
      simp [machine?, hDest.machine]
  | @cmpps predicate dest src found number s _ _ hFound hType hRegister hSrc hForm =>
      refine ⟨_, ?_, Form.read_compareLanes hForm .quad⟩
      simp [machine?, xmmRegister?_eq hFound hRegister, hSrc.machine]

/-- An encoded instruction is at most fifteen bytes, and whatever follows them
a processor reads them as the one machine instruction that the instruction
stands for. The memory that its operands stand for is what their addresses
refer to. -/
theorem read_machine_of_encode {after : Assembler} (h : instruction.encode f a = .done () after) :
    ∃ code machine, after.bytes = a.bytes ++ code ∧ code.length ≤ 15 ∧
      instruction.machine? f (instruction.distance a) = some machine ∧
      (∀ rest, MachineInstruction.read (code ++ rest) = some (machine, rest)) ∧
      ∀ (operand : Operand) (address : Address) (access : Access) (before left : Assembler),
        operand.TranslatesTo f before address left →
          operand.machine? f access = some (.memory address.reference) := by
  rcases (encode_eq_done_iff _ _ _ _).mp h with ⟨condition, target, rfl, hJump⟩ | ⟨form, between,
    hFormed, hEmit⟩
  · refine ⟨_, .jump condition (a.jumpDistance target), Assembler.bytes_of_emitJump hJump,
      by simp, rfl, MachineInstruction.read_jump condition _, ?_⟩
    intro operand address access before left hTranslates
    exact hTranslates.machine access
  · obtain ⟨machine, hMachine, hRead⟩ := hFormed.read (instruction.distance a)
    obtain ⟨fixups, rfl⟩ := hFormed.after_eq
    refine ⟨form.bytes, machine, (Form.emit_extends hEmit).1, hFormed.length_bytes_le, hMachine,
      hRead, ?_⟩
    intro operand address access before left hTranslates
    exact hTranslates.machine access

/-- A byte register that only a REX prefix names, stored at a base and an index
whose low bits are those of `rsp` and `rbp`, beside a symbol. -/
theorem read_machine_of_encode_store :
    let f : Function := ⟨"f", .initial,
      #[⟨"p", .i64, some (.general ⟨12, by decide⟩), 0, false⟩,
        ⟨"i", .i64, some (.general ⟨13, by decide⟩), 0, false⟩,
        ⟨"b", .i8, some (.general ⟨6, by decide⟩), 0, false⟩]⟩
    let store : Instruction :=
      .mov .i8
        (.memory (.ofParts .i8 (some ⟨0⟩) (some ⟨1⟩) (some (.relocatable ⟨"g", 300⟩)) .four))
        (.var ⟨2⟩)
    let after : Assembler :=
      ⟨[0x43, 0x88, 0xB4, 0xAC, 0x2C, 0x01, 0x00, 0x00], [⟨.signed32, "g", some 4⟩], []⟩
    store.encode f .empty = .done () after ∧
      ∃ code machine, after.bytes = Assembler.empty.bytes ++ code ∧ code.length ≤ 15 ∧
        store.machine? f (store.distance .empty) = some machine ∧
        (∀ rest, MachineInstruction.read (code ++ rest) = some (machine, rest)) ∧
        ∀ (operand : Operand) (address : Address) (access : Access) (before left : Assembler),
          operand.TranslatesTo f before address left →
            operand.machine? f access = some (.memory address.reference) := by
  intro f store after
  have hEncode : store.encode f .empty = .done () after := by rfl
  exact ⟨hEncode, read_machine_of_encode hEncode⟩

end Instruction

end Amd64
