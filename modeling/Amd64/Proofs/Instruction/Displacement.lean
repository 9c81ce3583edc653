import Amd64.Proofs.Instruction.RoundTrip

/-!
The displacement of a memory operand inside an encoded instruction. If the
address carries a fixup, the displacement has four bytes of its own, the place
of the fixup is where they begin, and any other four bytes there are read as
the same instruction with another displacement:
`Instruction.FormedAs.read_withDisplacement`.
-/

namespace Amd64

/-- The same operand at another displacement, if it is memory. -/
def MachineOperand.withDisplacement (displacement : Int32) : MachineOperand → MachineOperand
  | memory reference => .memory { reference with displacement := displacement }
  | operand => operand

/-- The same instruction with another displacement in its memory operand. -/
def MachineInstruction.withDisplacement (displacement : Int32) :
    MachineInstruction → MachineInstruction
  | move access dest src =>
      .move access (dest.withDisplacement displacement) (src.withDisplacement displacement)
  | moveFloat access dest src =>
      .moveFloat access (dest.withDisplacement displacement) (src.withDisplacement displacement)
  | loadAddress access dest src => .loadAddress access dest (src.withDisplacement displacement)
  | jump condition distance => .jump condition distance
  | setByte condition dest => .setByte condition (dest.withDisplacement displacement)
  | compareLanes predicate dest src =>
      .compareLanes predicate dest (src.withDisplacement displacement)

def MachineOperand.displacement? : MachineOperand → Option Int32
  | memory reference => some reference.displacement
  | _ => none

/-- The displacement of an instruction that has an operand in memory. -/
def MachineInstruction.displacement? : MachineInstruction → Option Int32
  | move _ dest src => dest.displacement?.or src.displacement?
  | moveFloat _ dest src => dest.displacement?.or src.displacement?
  | loadAddress _ _ src => src.displacement?
  | jump _ _ => none
  | setByte _ dest => dest.displacement?
  | compareLanes _ _ src => src.displacement?

namespace Address

def withDisplacement (displacement : Int32) (address : Address) : Address :=
  { address with displacement := displacement }

/-- Beside a fixup nothing but the four bytes of the displacement depends on
the displacement. Without one its size would decide on its width. -/
theorem encode_withDisplacement {address : Address} (h : address.fixup.isSome = true)
    (displacement : Int32) (reg : Nat) :
    (address.withDisplacement displacement).encode reg =
      { address.encode reg with displacement := .word displacement } := by
  obtain ⟨base, index, old, fixup⟩ := address
  have hWord (value : Int32) (needsField : Bool) :
      Displacement.choose value fixup.isSome needsField = .word value := by
    simp only at h
    rw [Displacement.choose, if_pos h]
  cases base with
  | none => cases index <;> rfl
  | some base =>
      cases index with
      | none =>
          simp only [withDisplacement, encode, hWord]
          split <;> rfl
      | some scaled =>
          simp only [withDisplacement, encode, hWord]
          rfl

end Address

namespace Place

def withDisplacement (displacement : Int32) : Place → Place
  | memory address => .memory (address.withDisplacement displacement)
  | place => place

/-- Changing the displacement of a place changes that of what it denotes, and
nothing else. -/
theorem machine_withDisplacement (displacement : Int32) (access : Access) (place : Place) :
    (place.withDisplacement displacement).machine access =
      (place.machine access).withDisplacement displacement := by
  cases place with
  | register register => cases register <;> rfl
  | memory address => rfl
  | immediate value => rfl

/-- The address of a place in memory. -/
def address? : Place → Option Address
  | memory address => some address
  | _ => none

theorem displacement?_machine (access : Access) (place : Place) :
    (place.machine access).displacement? = place.address?.map Address.displacement := by
  cases place with
  | register register => cases register <;> rfl
  | memory address => rfl
  | immediate value => rfl

end Place

namespace RegisterOrMemory

def withDisplacement (displacement : Int32) : RegisterOrMemory → RegisterOrMemory
  | memory address => .memory (address.withDisplacement displacement)
  | register number => .register number

/-- The address of an operand in memory. -/
def address? : RegisterOrMemory → Option Address
  | memory address => some address
  | register _ => none

theorem address?_eq_some_iff (other : RegisterOrMemory) (address : Address) :
    other.address? = some address ↔ other = .memory address := by
  cases other <;> simp [address?]

end RegisterOrMemory

namespace Form

def withDisplacement (displacement : Int32) (form : Form) : Form :=
  { form with other := form.other.withDisplacement displacement }

/-- The form of an instruction does not depend on the displacement of its
memory operand, so that a linker may change it. -/
theorem move_withDisplacement {type : ValueType} {dest src : Place} {form : Form}
    (h : move type dest src = .ok form) (displacement : Int32) :
    move type (dest.withDisplacement displacement) (src.withDisplacement displacement) =
      .ok (form.withDisplacement displacement) := by
  rw [move_eq_ok_iff] at h ⊢
  rcases h with ⟨hXmm, hCopy⟩ | ⟨hXmm, access, hAccess, hCopy⟩
  · refine Or.inl ⟨hXmm, ?_⟩
    cases hCopy with
    | registers d s => exact .registers d s
    | load d address => exact .load d _
    | store address s => exact .store _ s
  · refine Or.inr ⟨hXmm, access, hAccess, ?_⟩
    cases hCopy with
    | registers d s => exact .registers d s
    | load d address => exact .load d _
    | store address s => exact .store _ s
    | setRegister d value => exact .setRegister d value
    | setMemory address value => exact .setMemory _ value

theorem setByte_withDisplacement {condition : Condition} {dest : Place} {form : Form}
    (h : setByte condition dest = .ok form) (displacement : Int32) :
    setByte condition (dest.withDisplacement displacement) =
      .ok (form.withDisplacement displacement) := by
  obtain ⟨other, hOther, rfl⟩ := (setByte_eq_ok_iff _ _ _).mp h
  cases hOther <;> rfl

theorem compareLanes_withDisplacement {predicate : Predicate} {dest : Fin 16} {src : Place}
    {form : Form} (h : compareLanes predicate dest src = .ok form) (displacement : Int32) :
    compareLanes predicate dest (src.withDisplacement displacement) =
      .ok (form.withDisplacement displacement) := by
  obtain ⟨other, hOther, rfl⟩ := (compareLanes_eq_ok_iff _ _ _ _).mp h
  cases hOther <;> rfl

/-- A copy has one operand in memory at most, and its form has the same. -/
theorem address?_of_move {type : ValueType} {dest src : Place} {form : Form}
    (h : move type dest src = .ok form) :
    (src.address? = none ∧ form.other.address? = dest.address?) ∨
      (dest.address? = none ∧ form.other.address? = src.address?) := by
  rcases (move_eq_ok_iff _ _ _ _).mp h with ⟨-, hCopy⟩ | ⟨-, access, -, hCopy⟩
  · cases hCopy with
    | registers | store => exact Or.inl ⟨rfl, rfl⟩
    | load => exact Or.inr ⟨rfl, rfl⟩
  · cases hCopy with
    | registers | store | setRegister | setMemory => exact Or.inl ⟨rfl, rfl⟩
    | load => exact Or.inr ⟨rfl, rfl⟩

/-- A byte has one operand, so what is in memory is that. -/
theorem address?_of_setByte {condition : Condition} {dest : Place} {form : Form}
    (h : setByte condition dest = .ok form) : form.other.address? = dest.address? := by
  obtain ⟨other, hOther, rfl⟩ := (setByte_eq_ok_iff _ _ _).mp h
  cases hOther <;> rfl

theorem address?_of_compareLanes {predicate : Predicate} {dest : Fin 16} {src : Place}
    {form : Form} (h : compareLanes predicate dest src = .ok form) :
    form.other.address? = src.address? := by
  obtain ⟨other, hOther, rfl⟩ := (compareLanes_eq_ok_iff _ _ _ _).mp h
  cases hOther <;> rfl

/-- What stands before the displacement of the address in a form. -/
def beforeDisplacement (form : Form) (address : Address) : List UInt8 :=
  form.leading ++ (address.encode form.reg).head

/-- The bytes of a form whose address carries a fixup, at any displacement.
What is before and behind the four bytes is the same for all. -/
theorem bytes_withDisplacement {form : Form} {address : Address}
    (hOther : form.other = .memory address) (hFixup : address.fixup.isSome = true)
    (displacement : Int32) :
    (form.withDisplacement displacement).bytes =
      form.beforeDisplacement address ++ LittleEndian.word displacement ++ form.trailing := by
  obtain ⟨selector, wide, force, opcode, reg, other, trailing⟩ := form
  cases hOther
  have hEncode := Address.encode_withDisplacement hFixup displacement reg
  simp only [withDisplacement, RegisterOrMemory.withDisplacement, bytes, operandBytes, leading,
    rex, beforeDisplacement, AddressEncoding.bytes, AddressEncoding.head, hEncode,
    Displacement.bytes, List.append_assoc]
  rfl

theorem bytes_eq_of_fixup {form : Form} {address : Address} (hOther : form.other = .memory address)
    (hFixup : address.fixup.isSome = true) :
    form.bytes = form.beforeDisplacement address ++ LittleEndian.word address.displacement ++
      form.trailing := by
  have hSame : form.withDisplacement address.displacement = form := by
    obtain ⟨selector, wide, force, opcode, reg, other, trailing⟩ := form
    cases hOther
    rfl
  have hBytes := bytes_withDisplacement hOther hFixup address.displacement
  rwa [hSame] at hBytes

/-- Writing a form places the fixup of its address, if there is one, and
touches no other. -/
theorem fixups_of_emit {form : Form} {a after : Assembler} (h : form.emit a = .done () after) :
    ((∀ address ∈ form.other.address?, address.fixup = none) ∧ after.fixups = a.fixups) ∨
      ∃ address ref found, form.other = .memory address ∧ address.fixup = some ref ∧
        a.fixups[ref.number.toNat]? = some found ∧
        after.fixups = a.fixups.set ref.number.toNat
          { found with
            position := some (a.position + (form.beforeDisplacement address).length) } := by
  unfold emit at h
  cases hOther : form.other with
  | register number =>
      simp only [hOther, Assembly.bind_eq_done_iff, Assembly.modify_apply, Outcome.done.injEq] at h
      obtain ⟨_, _, ⟨-, rfl⟩, _, _, ⟨-, rfl⟩, -, rfl⟩ := h
      exact Or.inl ⟨by simp [RegisterOrMemory.address?], rfl⟩
  | memory address =>
      simp only [hOther, Assembly.bind_eq_done_iff, Assembly.modify_apply, Outcome.done.injEq,
        Assembly.modifyFaulty_eq_done_iff] at h
      obtain ⟨_, _, ⟨-, rfl⟩, _, _, hAddress, -, rfl⟩ := h
      rcases (Assembler.emitAddress_eq_ok_iff _ _ _ _).mp hAddress with
        ⟨hNone, rfl⟩ | ⟨ref, found, hRef, hFound, rfl⟩
      · refine Or.inl ⟨?_, rfl⟩
        rintro _ ⟨⟩
        exact hNone
      · refine Or.inr ⟨address, ref, found, rfl, hRef, hFound, ?_⟩
        rw [beforeDisplacement, List.length_append, AddressEncoding.length_head, ← Nat.add_assoc,
          ← Assembler.position_emit]
        rfl

/-- A form without a fixup adds none, and places none. -/
theorem fixups_of_emit_uncarried {form : Form} {a after : Assembler}
    (hUncarried : ∀ address ∈ form.other.address?, address.fixup = none)
    (h : form.emit a = .done () after) : after.fixups = a.fixups := by
  rcases fixups_of_emit h with ⟨-, hFixups⟩ | ⟨address, ref, _, hOther, hRef, -⟩
  · exact hFixups
  · rw [hUncarried address (by rw [hOther]; rfl)] at hRef
    cases hRef

/-- A form that carries the fixup that was just requested gives it its place.
This is the usual case; a reference to an older fixup would move that one. -/
theorem fixups_of_emit_carried {form : Form} {address : Address} {requested : Fixup}
    {a after : Assembler} (hOther : form.other = .memory address)
    (hFixup : address.fixup = some a.nextFixup)
    (h : form.emit (a.withFixups [requested]) = .done () after)
    (hRoom : after.fixups.length ≤ 4294967296) :
    after.fixups = a.fixups ++
      [{ requested with
        position := some (a.position + (form.beforeDisplacement address).length) }] := by
  obtain ⟨-, -, hLength⟩ := emit_extends h
  rw [Assembler.fixups_withFixups, List.length_append, List.length_singleton] at hLength
  -- The new fixup is the last one, and its number is still below the limit.
  have hNumber : a.nextFixup.number.toNat = a.fixups.length :=
    UInt32.toNat_ofNat_of_lt' (show a.fixups.length < 4294967296 by omega)
  rcases fixups_of_emit h with ⟨hUncarried, -⟩ | ⟨_, ref, found, hSame, hRef, hFound, hFixups⟩
  · rw [hUncarried address (by rw [hOther]; rfl)] at hFixup
    cases hFixup
  · cases hOther.symm.trans hSame
    cases hFixup.symm.trans hRef
    rw [hNumber, Assembler.fixups_withFixups, List.getElem?_concat_length] at hFound
    cases hFound
    rw [hFixups, hNumber]
    simp

end Form

/-- With another displacement in its form an instruction is read as the same
instruction with that displacement. -/
theorem Instruction.FormedAs.read_withDisplacement {f : Function} {instruction : Instruction}
    {form : Form} {a between : Assembler} (h : instruction.FormedAs f a form between) :
    ∃ machine, instruction.machine? f 0 = some machine ∧
      machine.displacement? = form.other.address?.map Address.displacement ∧
      ∀ displacement rest, MachineInstruction.read
        ((form.withDisplacement displacement).bytes ++ rest) =
          some (machine.withDisplacement displacement, rest) := by
  -- What is read of the form as it stands names the machine instruction. With another displacement
  -- the same rule of the form applies.
  obtain ⟨machine, hMachine, hRead⟩ := h.read 0
  refine ⟨machine, hMachine, ?_⟩
  have hHere := hRead []
  cases h with
  | @mov type dest src d s _ _ _ hDest hSrc hForm =>
      rw [Form.read_move hForm, Option.some.injEq, Prod.mk.injEq] at hHere
      rw [← hHere.1]
      refine ⟨?_, fun displacement rest => ?_⟩
      · have hEither : (d.machine type.access).displacement?.or
            (s.machine type.access).displacement? =
              form.other.address?.map Address.displacement := by
          rw [Place.displacement?_machine, Place.displacement?_machine]
          rcases Form.address?_of_move hForm with ⟨hNone, hOther⟩ | ⟨hNone, hOther⟩
          · rw [hNone, hOther, Option.map_none, Option.or_none]
          · rw [hNone, hOther, Option.map_none, Option.none_or]
        split <;> exact hEither
      · rw [Form.read_move (Form.move_withDisplacement hForm displacement) rest,
          Place.machine_withDisplacement, Place.machine_withDisplacement]
        split <;> rfl
  | @lea dest src found number wide address _ =>
      rw [Form.read_loadAddress, Option.some.injEq, Prod.mk.injEq] at hHere
      rw [← hHere.1]
      refine ⟨rfl, fun displacement rest => ?_⟩
      exact Form.read_loadAddress wide number (address.withDisplacement displacement) rest
  | setcc hDest hForm =>
      rw [Form.read_setByte hForm, Option.some.injEq, Prod.mk.injEq] at hHere
      rw [← hHere.1]
      refine ⟨?_, fun displacement rest => ?_⟩
      · rw [Form.address?_of_setByte hForm, ← Place.displacement?_machine]
        rfl
      · rw [Form.read_setByte (Form.setByte_withDisplacement hForm displacement) rest,
          Place.machine_withDisplacement]
        rfl
  | cmpps hFound hType hRegister hSrc hForm =>
      rw [Form.read_compareLanes hForm .quad, Option.some.injEq, Prod.mk.injEq] at hHere
      rw [← hHere.1]
      refine ⟨?_, fun displacement rest => ?_⟩
      · rw [Form.address?_of_compareLanes hForm, ← Place.displacement?_machine .quad]
        rfl
      · have hOther := Form.compareLanes_withDisplacement hForm displacement
        rw [Form.read_compareLanes hOther .quad rest, Place.machine_withDisplacement]
        rfl

end Amd64
