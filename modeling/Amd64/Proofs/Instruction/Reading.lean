import Amd64.Instruction.Meaning
import Amd64.Proofs.Address.RoundTrip
import Amd64.Proofs.Assembler.Emission
import Amd64.Proofs.Instruction.Forms

/-!
How a processor reads the bytes of a form. The prefixes come first and are read
the same for every form; the ModR/M byte gives the two operands back; what
differs is the opcode and what trails.
-/

namespace Amd64

namespace Rex

/-- A prefix that is written is recognised by its high four bits, and it is one
byte. -/
theorem bytes_eq (rex : Rex) :
    rex.bytes = [] ∨ ∃ byte : UInt8, rex.bytes = [byte] ∧ byte.toNat / 16 = 4 := by
  have hByte : (UInt8.ofNat (64 + 8 * rex.w.toNat + 4 * rex.r.toNat + 2 * rex.x.toNat +
      rex.b.toNat)).toNat / 16 = 4 := by
    cases rex.w <;> cases rex.r <;> cases rex.x <;> cases rex.b <;> rfl
  unfold bytes
  split
  · exact Or.inr ⟨_, rfl, hByte⟩
  · exact Or.inl rfl

theorem length_bytes_le (rex : Rex) : rex.bytes.length ≤ 1 := by
  rcases rex.bytes_eq with h | ⟨byte, h, -⟩ <;> simp [h]

/-- The four bits of a prefix are read as they were written, and are zero if it
is left out. It is only left out if they all are. -/
theorem bits_eq (rex : Rex) (selector : Option UInt8) :
    let prefixes : Prefixes := ⟨selector, rex.bytes.head?⟩
    prefixes.w = rex.w ∧ prefixes.r = rex.r ∧ prefixes.x = rex.x ∧ prefixes.b = rex.b := by
  obtain ⟨w, r, x, b, force⟩ := rex
  cases w <;> cases r <;> cases x <;> cases b <;> cases force <;> exact ⟨rfl, rfl, rfl, rfl⟩

/-- A bit that is set, or a register that needs the prefix, makes it appear. -/
theorem isSome_head?_bytes {rex : Rex}
    (h : rex.r = true ∨ rex.b = true ∨ rex.force = true) : rex.bytes.head?.isSome = true := by
  obtain ⟨w, r, x, b, force⟩ := rex
  have hAny : (w || r || x || b || force) = true := by
    rcases h with h | h | h <;> simp_all
  simp [bytes, hAny]

end Rex

/-- A selector, perhaps a REX prefix and an opcode are told apart, because no
opcode here looks like one of the prefixes. -/
theorem Prefixes.read_append {selector : List UInt8} (rex : Rex) {opcode : UInt8}
    (rest : List UInt8) (hSelector : selector ∈ [[], [0x66], [0xF2], [0xF3]])
    (hOpcode : opcode ≠ 0x66 ∧ opcode ≠ 0xF2 ∧ opcode ≠ 0xF3 ∧ opcode.toNat / 16 ≠ 4) :
    read (selector ++ rex.bytes ++ opcode :: rest) =
      (⟨selector.head?, rex.bytes.head?⟩, opcode :: rest) := by
  obtain ⟨h66, hF2, hF3, hFour⟩ := hOpcode
  have hRex (byte : UInt8) (hByte : byte.toNat / 16 = 4) :
      byte ≠ 0x66 ∧ byte ≠ 0xF2 ∧ byte ≠ 0xF3 := by
    refine ⟨?_, ?_, ?_⟩ <;>
      · rintro rfl
        simp at hByte
  have hFirst : selector = [] ∨ ∃ byte, selector = [byte] ∧
      (byte = 0x66 ∨ byte = 0xF2 ∨ byte = 0xF3) := by
    simp only [List.mem_cons, List.not_mem_nil, or_false] at hSelector
    rcases hSelector with rfl | rfl | rfl | rfl <;> simp
  rcases hFirst with rfl | ⟨byte, rfl, hByte⟩
  · rcases rex.bytes_eq with hNone | ⟨byte, hSome, hByte⟩
    · simp [hNone, read, h66, hF2, hF3, hFour]
    · obtain ⟨hb66, hbF2, hbF3⟩ := hRex byte hByte
      simp [hSome, read, hb66, hbF2, hbF3, hByte]
  · rcases rex.bytes_eq with hNone | ⟨second, hSome, hSecond⟩
    · simp [hNone, read, hByte, hFour]
    · simp [hSome, read, hByte, hSecond]

/-- What a processor makes of the second operand of a ModR/M byte. -/
def RegisterOrMemory.operand : RegisterOrMemory → ModRMOperand
  | register number => .register number
  | memory address => .memory address.reference

namespace Form

def prefixes (form : Form) : Prefixes :=
  ⟨form.selector.head?, form.rex.bytes.head?⟩

/-- The prefixes that are read off a form have the bits that the form asked
for. -/
theorem w_prefixes (form : Form) : form.prefixes.w = form.wide := by
  have h := (form.rex.bits_eq form.selector.head?).1
  refine h.trans ?_
  unfold rex
  cases form.other <;> rfl

theorem r_prefixes (form : Form) : form.prefixes.r = decide (8 ≤ form.reg.val) := by
  have h := (form.rex.bits_eq form.selector.head?).2.1
  refine h.trans ?_
  unfold rex
  cases form.other <;> rfl

/-- The number of a register is put together from the bit in the prefix and the
three bits in its field. -/
theorem registerOfBits_eq (number : Fin 16) :
    registerOfBits (decide (8 ≤ number.val)) (number.val % 8) = number := by
  apply Fin.ext
  by_cases h : 8 ≤ number.val
  · simp only [registerOfBits, h, decide_true, Bool.toNat_true]
    omega
  · simp only [registerOfBits, h, decide_false, Bool.toNat_false]
    omega

/-- The register field of a form gives its register back, with the bit from the
prefix. -/
theorem reg_prefixes (form : Form) (operand : ModRMOperand) :
    form.prefixes.reg ⟨⟨form.reg.val % 8, Nat.mod_lt _ (by decide)⟩, operand⟩ = form.reg := by
  rw [Prefixes.reg, r_prefixes]
  exact registerOfBits_eq form.reg

/-- The ModR/M byte and what belongs to it give the second operand back,
whether it is a register or memory. -/
theorem read_operandBytes (form : Form) (rest : List UInt8) :
    ModRM.read form.prefixes.x form.prefixes.b (form.operandBytes ++ rest) =
      some (⟨⟨form.reg.val % 8, Nat.mod_lt _ (by decide)⟩, form.other.operand⟩, rest) := by
  obtain ⟨-, -, hX, hB⟩ := form.rex.bits_eq form.selector.head?
  have hX : form.prefixes.x = form.rex.x := hX
  have hB : form.prefixes.b = form.rex.b := hB
  rw [hX, hB]
  unfold rex operandBytes RegisterOrMemory.operand
  cases form.other with
  | register number =>
      have hNumber : registerOfBits (decide (8 ≤ number.val)) number.val = number :=
        (registerOfBits_congr _ (Nat.mod_mod _ _).symm).trans (registerOfBits_eq number)
      have h := ModRM.read_of_register false (decide (8 ≤ number.val)) form.reg number rest
      rw [hNumber] at h
      exact h
  | memory address => exact address.read_encode form.reg rest

/-- The prefixes of a form are read off its bytes, and the opcode comes next,
then the operand and what trails it. -/
theorem read_prefixes {form : Form} {opcode : UInt8} {more : List UInt8} (rest : List UInt8)
    (hSelector : form.selector ∈ [[], [0x66], [0xF2], [0xF3]])
    (hForm : form.opcode = opcode :: more)
    (hOpcode : opcode ≠ 0x66 ∧ opcode ≠ 0xF2 ∧ opcode ≠ 0xF3 ∧ opcode.toNat / 16 ≠ 4) :
    Prefixes.read (form.bytes ++ rest) =
      (form.prefixes, opcode :: (more ++ (form.operandBytes ++ (form.trailing ++ rest)))) := by
  have h := Prefixes.read_append form.rex (more ++ (form.operandBytes ++ (form.trailing ++ rest)))
    hSelector hOpcode
  rw [← prefixes] at h
  rw [← h]
  simp [bytes, leading, hForm]

/-- A register of a form is named in full, unless it is one of the byte
registers that only a REX prefix can name and there is none. -/
theorem general_prefixes {form : Form} {access : Access} {number : Fin 16}
    (h : access = .byte → 4 ≤ number.val → form.prefixes.rex.isSome = true) :
    form.prefixes.general access number = .general number := by
  unfold Prefixes.general
  split
  · rename_i hHigh
    obtain ⟨hAccess, hNone, hFour⟩ := hHigh
    have hSome := h hAccess hFour
    simp [Option.isNone_iff_eq_none.mp hNone] at hSome
  · rfl

/-- A byte register that asks for a REX prefix, or needs its bit, gets one.
This is the register in the register field. -/
theorem isSome_rex_of_reg {form : Form} (h : 4 ≤ form.reg.val)
    (hForce : lowByteNeedsRex form.reg = true → form.force = true) :
    form.prefixes.rex.isSome = true := by
  apply Rex.isSome_head?_bytes
  by_cases hHigh : 8 ≤ form.reg.val
  · left
    unfold rex
    cases form.other <;> simp [hHigh]
  · right
    right
    have hLow : lowByteNeedsRex form.reg = true := by
      simp only [lowByteNeedsRex, decide_eq_true_eq]
      omega
    unfold rex
    cases form.other <;> simp [hForce hLow]

/-- The same for a register that is the second operand. -/
theorem isSome_rex_of_other {form : Form} {number : Fin 16} (hOther : form.other = .register number)
    (h : 4 ≤ number.val) (hForce : lowByteNeedsRex number = true → form.force = true) :
    form.prefixes.rex.isSome = true := by
  apply Rex.isSome_head?_bytes
  by_cases hHigh : 8 ≤ number.val
  · right
    left
    simp [rex, hOther, hHigh]
  · right
    right
    have hLow : lowByteNeedsRex number = true := by
      simp only [lowByteNeedsRex, decide_eq_true_eq]
      omega
    simp [rex, hOther, hForce hLow]

section IntegerCopy

variable {access : Access} {opcode : UInt8} {force : Bool} {reg : Fin 16}
  {other : RegisterOrMemory} {trailing : List UInt8} {form : Form}

/-- The width and the selector of an integer copy give its operand size. Bytes
are told by the opcode and not by the prefixes. -/
theorem access_prefixes_integerCopy
    (hForm : form = integerCopy access opcode force reg other trailing) (h : access ≠ .byte) :
    form.prefixes.access = access := by
  unfold Prefixes.access
  rw [w_prefixes, hForm]
  cases access with
  | byte => exact absurd rfl h
  | word => rfl
  | long => rfl
  | quad => rfl

/-- The opcode of an integer copy tells bytes from wider operands, and the
prefixes tell those apart. -/
theorem read_integerCopy (hForm : form = integerCopy access opcode force reg other trailing)
    (hOpcode : opcode ∈ [0x89, 0x8B, 0xC7]) (rest : List UInt8) :
    MachineInstruction.read (form.bytes ++ rest) =
      MachineInstruction.readMove form.prefixes access (opcode.toNat - 1)
        (form.operandBytes ++ (trailing ++ rest)) := by
  have hSelector : form.selector ∈ [[], [0x66], [0xF2], [0xF3]] := by
    cases access <;> simp [hForm, integerCopy]
  have hTrailing : form.trailing = trailing := by rw [hForm, integerCopy]
  simp only [List.mem_cons, List.not_mem_nil, or_false] at hOpcode
  by_cases hAccess : access = .byte
  · have hBytes : form.opcode = [opcode - 1] := by simp [hForm, integerCopy, hAccess]
    have hRead := read_prefixes rest hSelector hBytes (by
      rcases hOpcode with rfl | rfl | rfl <;> decide)
    unfold MachineInstruction.read
    rw [hRead]
    rcases hOpcode with rfl | rfl | rfl <;> simp [hAccess, hTrailing]
  · have hBytes : form.opcode = [opcode] := by simp [hForm, integerCopy, hAccess]
    have hRead := read_prefixes rest hSelector hBytes (by
      rcases hOpcode with rfl | rfl | rfl <;> decide)
    have hSize := access_prefixes_integerCopy hForm hAccess
    unfold MachineInstruction.read
    rw [hRead]
    rcases hOpcode with rfl | rfl | rfl <;> simp [hSize, hTrailing]

/-- The register of an integer copy is named in full if the copy asks for a REX
prefix where that register needs one. -/
theorem general_reg_integerCopy
    (hForm : form = integerCopy access opcode force reg other trailing)
    (hForce : lowByteNeedsRex reg = true → force = true) :
    form.prefixes.general access reg = .general reg := by
  apply general_prefixes
  intro hAccess hFour
  have hReg : form.reg = reg := by rw [hForm, integerCopy]
  rw [← hReg] at hFour hForce
  apply isSome_rex_of_reg hFour
  intro hLow
  simp [hForm, integerCopy, hAccess, hForce hLow]

theorem general_other_integerCopy {number : Fin 16}
    (hForm : form = integerCopy access opcode force reg (.register number) trailing)
    (hForce : lowByteNeedsRex number = true → force = true) :
    form.prefixes.general access number = .general number := by
  apply general_prefixes
  intro hAccess hFour
  have hOther : form.other = .register number := by rw [hForm, integerCopy]
  apply isSome_rex_of_other hOther hFour
  intro hLow
  simp [hForm, integerCopy, hAccess, hForce hLow]

end IntegerCopy

section TwoBytes

variable {form : Form} {selector trailing : List UInt8} {force : Bool} {second : UInt8}
  {reg : Fin 16} {other : RegisterOrMemory}

/-- The second opcode byte decides about instructions that begin with `0x0F`.
Nothing else about the form needs to be known for that. -/
theorem read_twoByte (hForm : form = ⟨selector, false, force, [0x0F, second], reg, other, trailing⟩)
    (hSelector : selector ∈ [[], [0x66], [0xF2], [0xF3]]) (rest : List UInt8) :
    MachineInstruction.read (form.bytes ++ rest) =
      MachineInstruction.readTwoByte form.prefixes second.toNat
        (form.operandBytes ++ (trailing ++ rest)) := by
  have hOpcode : form.opcode = [0x0F, second] := by rw [hForm]
  have hTrailing : form.trailing = trailing := by rw [hForm]
  rw [← show form.selector = selector by rw [hForm]] at hSelector
  have hRead := read_prefixes rest hSelector hOpcode (by decide)
  unfold MachineInstruction.read
  rw [hRead, hTrailing]
  rfl

end TwoBytes

/-- A load of a float, or a copy between registers, is read with the register
of the form as the destination. -/
theorem readTwoByte_floatLoad (form : Form) {access : FloatAccess} (rest : List UInt8)
    (h : MachineInstruction.floatAccess? form.prefixes.selector = some access) :
    MachineInstruction.readTwoByte form.prefixes 0x10 (form.operandBytes ++ rest) =
      some (.moveFloat access (.xmm form.reg)
        (MachineInstruction.operandOf .xmm form.other.operand), rest) := by
  simp [MachineInstruction.readTwoByte, read_operandBytes, reg_prefixes, h]

/-- A store of a float is read with the register of the form as the source. -/
theorem readTwoByte_floatStore (form : Form) {access : FloatAccess} (rest : List UInt8)
    (h : MachineInstruction.floatAccess? form.prefixes.selector = some access) :
    MachineInstruction.readTwoByte form.prefixes 0x11 (form.operandBytes ++ rest) =
      some (.moveFloat access (MachineInstruction.operandOf .xmm form.other.operand)
        (.xmm form.reg), rest) := by
  simp [MachineInstruction.readTwoByte, read_operandBytes, reg_prefixes, h]

/-- The condition is in the low four bits of the opcode. -/
theorem readTwoByte_setByte (form : Form) (condition : Condition) (rest : List UInt8) :
    MachineInstruction.readTwoByte form.prefixes (UInt8.ofNat (0x90 + condition.code)).toNat
        (form.operandBytes ++ rest) =
      some (.setByte condition
        (MachineInstruction.operandOf (form.prefixes.general .byte) form.other.operand),
        rest) := by
  have hHigh : (UInt8.ofNat (0x90 + condition.code)).toNat / 16 = 9 := by
    cases condition <;> rfl
  have hLow : Condition.ofCode? ((UInt8.ofNat (0x90 + condition.code)).toNat % 16) =
      some condition := by
    cases condition <;> rfl
  generalize (UInt8.ofNat (0x90 + condition.code)).toNat = second at hHigh hLow
  simp [MachineInstruction.readTwoByte, read_operandBytes, hHigh, hLow]

/-- The predicate of a comparison is the byte that trails it, and the lanes are
floats because there is no selector. -/
theorem readTwoByte_compareLanes (form : Form) (predicate : Predicate) (rest : List UInt8)
    (h : form.prefixes.selector = none) :
    MachineInstruction.readTwoByte form.prefixes 0xC2
        (form.operandBytes ++ ([UInt8.ofNat predicate.code] ++ rest)) =
      some (.compareLanes predicate form.reg
        (MachineInstruction.operandOf .xmm form.other.operand), rest) := by
  have hPredicate : Predicate.ofCode? (UInt8.ofNat predicate.code).toNat = some predicate := by
    cases predicate <;> rfl
  generalize UInt8.ofNat predicate.code = byte at hPredicate
  simp [MachineInstruction.readTwoByte, read_operandBytes, reg_prefixes, h, hPredicate]

/-- An address computation goes into the register of a form, as wide as the REX
prefix says. -/
theorem readLoadAddress_operandBytes (form : Form) (address : Address) (rest : List UInt8)
    (hSelector : form.selector = []) (hOther : form.other = .memory address) :
    MachineInstruction.readLoadAddress form.prefixes (form.operandBytes ++ rest) =
      some (.loadAddress (if form.wide then .quad else .long) form.reg
        (.memory address.reference), rest) := by
  have hAccess : form.prefixes.access = if form.wide then .quad else .long := by
    have hNone : form.prefixes.selector = none := by rw [prefixes, hSelector, List.head?_nil]
    rw [Prefixes.access, w_prefixes, hNone]
    simp
  simp [MachineInstruction.readLoadAddress, read_operandBytes, reg_prefixes, hOther,
    RegisterOrMemory.operand, MachineInstruction.operandOf, hAccess]

/-- The register of a store is the source. The opcode is that for bytes here,
whatever the access. -/
theorem readMove_store (form : Form) (access : Access) (rest : List UInt8) :
    MachineInstruction.readMove form.prefixes access 0x88 (form.operandBytes ++ rest) =
      some (.move access
        (MachineInstruction.operandOf (form.prefixes.general access) form.other.operand)
        (form.prefixes.general access form.reg), rest) := by
  simp [MachineInstruction.readMove, read_operandBytes, reg_prefixes]

theorem readMove_load (form : Form) (access : Access) (rest : List UInt8) :
    MachineInstruction.readMove form.prefixes access 0x8A (form.operandBytes ++ rest) =
      some (.move access (form.prefixes.general access form.reg)
        (MachineInstruction.operandOf (form.prefixes.general access) form.other.operand),
        rest) := by
  simp [MachineInstruction.readMove, read_operandBytes, reg_prefixes]

/-- The bits of a signed number are its residue. -/
theorem toNat_toUInt32 (value : Int32) :
    (value.toUInt32.toNat : Int) = value.toInt % 4294967296 := by
  have hBits : value.toInt = (value.toUInt32.toNat : Int).bmod 4294967296 :=
    BitVec.toInt_eq_toNat_bmod _
  have hLt : value.toUInt32.toNat < 4294967296 := value.toUInt32.toNat_lt
  have hResidue : (value.toUInt32.toNat : Int).bmod 4294967296 % 4294967296 =
      (value.toUInt32.toNat : Int) % 4294967296 := Int.bmod_emod
  omega

/-- An immediate is read as the residue of its value, as wide as the operation.
The widest operation has four bytes of it and extends the sign. -/
theorem readImmediate_immediateBytes (access : Access) (value : Int32) (rest : List UInt8) :
    MachineInstruction.readImmediate access (immediateBytes access value ++ rest) =
      some (access.immediate value, rest) := by
  have hWord := toNat_toUInt32 value
  cases access with
  | byte =>
      have hByte : (UInt8.ofNat value.toUInt32.toNat).toNat = value.toUInt32.toNat % 256 :=
        UInt8.toNat_ofNat'
      simp only [immediateBytes, LittleEndian.bytes, MachineInstruction.readImmediate,
        List.cons_append, List.nil_append, Access.immediate, Access.size, LittleEndian.room, hByte]
      congr 2
      omega
  | word =>
      have hTwo := LittleEndian.value_bytes 2 value.toUInt32.toNat
      simp only [LittleEndian.bytes, LittleEndian.room] at hTwo
      simp only [immediateBytes, LittleEndian.bytes, MachineInstruction.readImmediate,
        List.cons_append, List.nil_append, Access.immediate, Access.size, LittleEndian.room, hTwo]
      congr 2
      omega
  | long =>
      simp only [immediateBytes, MachineInstruction.readImmediate, LittleEndian.readWord_word,
        Access.immediate, Access.size, LittleEndian.room, Option.bind_eq_bind, Option.bind_some,
        Option.pure_def]
      congr 2
      omega
  | quad =>
      -- Extending the sign is taking the residue modulo the larger power of two.
      simp only [immediateBytes, MachineInstruction.readImmediate, LittleEndian.readWord_word,
        Access.immediate, Access.size, LittleEndian.room, Option.bind_eq_bind, Option.bind_some,
        Option.pure_def]
      rfl

/-- An immediate goes into the other operand of a form that has no register.
The field of the register is zero then and is not read. -/
theorem readMove_immediate {form : Form} (access : Access) (value : Int32) (rest : List UInt8)
    (hReg : form.reg = noRegister) :
    MachineInstruction.readMove form.prefixes access 0xC6
        (form.operandBytes ++ (immediateBytes access value ++ rest)) =
      some (.move access
        (MachineInstruction.operandOf (form.prefixes.general access) form.other.operand)
        (.immediate (access.immediate value)), rest) := by
  have hZero : form.reg.val % 8 = 0 := by
    rw [hReg]
    rfl
  simp [MachineInstruction.readMove, read_operandBytes, hZero,
    readImmediate_immediateBytes access value rest]

end Form

/-- A jump is read with its condition and its distance, whatever follows it. -/
theorem MachineInstruction.read_jump (condition : Condition) (distance : Int32)
    (rest : List UInt8) :
    read ([0x0F, UInt8.ofNat (0x80 + condition.code)] ++ LittleEndian.word distance ++ rest) =
      some (.jump condition distance, rest) := by
  have hHigh : (UInt8.ofNat (0x80 + condition.code)).toNat / 16 = 8 := by
    cases condition <;> rfl
  have hLow : Condition.ofCode? ((UInt8.ofNat (0x80 + condition.code)).toNat % 16) =
      some condition := by
    cases condition <;> rfl
  generalize UInt8.ofNat (0x80 + condition.code) = second at hHigh hLow
  simp [read, Prefixes.read, readTwoByte, hHigh, hLow, LittleEndian.readWord_word]

end Amd64
