import Amd64.Proofs.Assembler.Fragment
import Amd64.Proofs.Instruction.Relocation

/-!
Where an instruction is written makes no difference to what is written. Every
step that finds the form of an instruction does behind some code what it does
on its own, up to the number of a fixup, and so does writing the form. Only a
jump depends on its place: `Instruction.encode_appends`.
-/

namespace Amd64

/-! Places and forms mention a fixup where they hold an address. -/

def Place.behind (a : Assembler) : Place → Place
  | memory address => .memory (address.behind a)
  | place => place

def RegisterOrMemory.behind (a : Assembler) : RegisterOrMemory → RegisterOrMemory
  | memory address => .memory (address.behind a)
  | other => other

def Form.behind (a : Assembler) (form : Form) : Form :=
  { form with other := form.other.behind a }

variable {f : Function} {a : Assembler}

/-- The address of a slot mentions no fixup, so that it is the same behind any
code. -/
theorem Function.slotAddress_map_behind (displacement : Int32) :
    (f.slotAddress displacement).map (.behind a) = f.slotAddress displacement := by
  rw [slotAddress_eq]
  rfl

theorem Function.stackAddress_map_behind (id : VariableId) :
    (f.stackAddress id).map (.behind a) = f.stackAddress id := by
  unfold stackAddress
  cases f.lookup id with
  | error cause => rfl
  | ok found =>
      dsimp only
      cases found.register with
      | some register => rfl
      | none => exact slotAddress_map_behind found.stackOffset

theorem SlotHalf.toAddress_map_behind (part : SlotHalf) :
    (part.toAddress f).map (.behind a) = part.toAddress f := by
  unfold toAddress
  cases part.displacement f with
  | error cause => rfl
  | ok displacement => exact Function.slotAddress_map_behind displacement

namespace MemoryOperand

variable (operand : MemoryOperand)

/-- The fixup of an address is passed through, so that it may be renumbered
before or after. -/
theorem addressWith_behind (displacement : Int32) (fixup : Option FixupRef) :
    operand.addressWith f displacement (fixup.map (.behind a)) =
      (operand.addressWith f displacement fixup).map (.behind a) := by
  unfold addressWith
  cases operand.baseNumber f with
  | error cause => rfl
  | ok base =>
      cases operand.scaledIndex f with
      | error cause => rfl
      | ok index => exact Address.make_behind base index displacement fixup

/-- The next fixup of a fragment is the next one of the whole code. Its number
moves by the number of fixups before it. -/
theorem requestFixup_follows :
    operand.requestFixup.Follows a (Option.map (.behind a)) operand.requestFixup := by
  intro fragment
  have hUnplaced : ∀ fixup ∈ operand.requested, fixup.position = none := by
    simp [requested]
  rw [requestFixup_apply, requestFixup_apply, a.append_withFixups fragment hUnplaced]
  simp only [carried, Assembler.nextFixup_append, Outcome.behind, Option.map_map]
  rfl

/-- Translating an operand behind some code is translating it in a fragment,
with the fixup renumbered. -/
theorem toAddress_follows :
    (operand.toAddress f).Follows a (.behind a) (operand.toAddress f) := by
  refine .bind_ofFaulty _ fun displacement => ?_
  refine .bind_ofFaulty _ fun _ => ?_
  refine .bind operand.requestFixup_follows fun fixup => ?_
  rw [operand.addressWith_behind]
  exact .ofFaulty _ _

end MemoryOperand

/-- An operand is at the same place behind any code, up to the number of its
fixup. -/
theorem Operand.locate_follows (mnemonic : String) (operand : Operand) :
    (operand.locate f mnemonic).Follows a (.behind a) (operand.locate f mnemonic) := by
  cases operand with
  | var id =>
      refine .bind_ofFaulty _ fun found => ?_
      split
      · exact .refuse _
      · split
        · exact .pure (Place.register _)
        · exact .bind (.ofFaulty_of_map_eq (f.stackAddress_map_behind id)) fun address =>
            .pure (Place.memory address)
  | constant value =>
      cases value with
      | integer value => exact .pure (Place.immediate value)
      | relocatable target => exact .refuse _
  | memory operand =>
      exact .bind operand.toAddress_follows fun address => .pure (Place.memory address)
  | half part =>
      exact .bind (.ofFaulty_of_map_eq part.toAddress_map_behind) fun address =>
        .pure (Place.memory address)

namespace Form

/-! A form is chosen without regard to fixups. -/

/-- No choice of a form looks at the number of a fixup. This and the next
lemmas say so for each of them. -/
theorem moveXmm_behind (type : ValueType) (dest src : Place) :
    moveXmm type (dest.behind a) (src.behind a) = (moveXmm type dest src).map (.behind a) := by
  rcases dest with (d | d) | address | value <;> rcases src with (s | s) | other | immediate <;> rfl

theorem moveInteger_behind (access : Access) (dest src : Place) :
    moveInteger access (dest.behind a) (src.behind a) =
      (moveInteger access dest src).map (.behind a) := by
  rcases dest with (d | d) | address | value <;> rcases src with (s | s) | other | immediate <;> rfl

theorem move_behind (type : ValueType) (dest src : Place) :
    move type (dest.behind a) (src.behind a) = (move type dest src).map (.behind a) := by
  unfold move
  split
  · exact moveXmm_behind type dest src
  · split
    · exact moveInteger_behind _ dest src
    · rfl

theorem setByte_behind (condition : Condition) (dest : Place) :
    setByte condition (dest.behind a) = (setByte condition dest).map (.behind a) := by
  rcases dest with (d | d) | address | value <;> rfl

theorem compareLanes_behind (predicate : Predicate) (dest : Fin 16) (src : Place) :
    compareLanes predicate dest (src.behind a) =
      (compareLanes predicate dest src).map (.behind a) := by
  rcases src with (s | s) | address | value <;> rfl

end Form

namespace Instruction

theorem destinationRegister_follows (mnemonic : String) (dest : VariableId) :
    (destinationRegister f mnemonic dest).Follows a id (destinationRegister f mnemonic dest) := by
  refine .bind_ofFaulty _ fun found => ?_
  split
  · exact .pure _
  · exact .refuse _

/-- The result of an instruction is looked up in the function and not in the
code. -/
theorem addressTarget_follows (dest : VariableId) :
    (addressTarget f dest).Follows a id (addressTarget f dest) := by
  rw [addressTarget_eq]
  refine .bind_ofFaulty _ fun found => ?_
  refine .bind_ofRefusable _ fun wide => ?_
  refine .bind (destinationRegister_follows "lea" dest) fun register => ?_
  exact .bind_ofRefusable _ fun number => .pure _

theorem comparisonTarget_follows (dest : VariableId) :
    (comparisonTarget f dest).Follows a id (comparisonTarget f dest) := by
  refine .bind_ofFaulty _ fun found => ?_
  split
  · refine .bind (destinationRegister_follows "cmpps" dest) fun register => ?_
    show (Assembly.ofRefusable (requireXmm "cmpps" register)).Follows a id
      (Assembly.ofRefusable (requireXmm "cmpps" register))
    rw [← bind_pure (Assembly.ofRefusable _)]
    exact .bind_ofRefusable _ fun number => .pure number
  · exact .refuse _

/-- Behind any code an instruction has the same form, up to the number of its
fixup. If it is refused, it is refused for the same reason. -/
theorem form?_follows {instruction : Instruction} {find : Assembly Form}
    (h : instruction.form? f = some find) : find.Follows a (.behind a) find := by
  cases instruction with
  | mov type dest src =>
      cases h
      refine .bind (dest.locate_follows "mov") fun d => ?_
      refine .bind (src.locate_follows "mov") fun s => ?_
      rw [Form.move_behind]
      exact .ofRefusable _ _
  | lea dest src =>
      cases h
      refine .bind (addressTarget_follows dest) fun target => ?_
      exact .bind src.toAddress_follows fun address =>
        .pure (Form.loadAddress target.1 target.2 address)
  | jcc condition target => cases h
  | setcc condition dest =>
      cases h
      refine .bind (dest.locate_follows "setcc") fun d => ?_
      rw [Form.setByte_behind]
      exact .ofRefusable _ _
  | cmpps predicate dest src =>
      cases h
      refine .bind (comparisonTarget_follows dest) fun number => ?_
      refine .bind (src.locate_follows "cmpps") fun s => ?_
      rw [id, Form.compareLanes_behind]
      exact .ofRefusable _ _

end Instruction

/-- The bytes before the address of a form have nothing to do with its
fixup. -/
theorem Form.leading_behind (form : Form) : (form.behind a).leading = form.leading := by
  obtain ⟨selector, wide, force, opcode, reg, other, trailing⟩ := form
  cases other with
  | register number => rfl
  | memory address =>
      simp only [leading, rex, behind, RegisterOrMemory.behind, Address.encode_behind]
      rfl

/-- Writing a form behind some code is writing it into the fragment. -/
theorem Form.emit_append {form : Form} {fragment after : Assembler}
    (h : form.emit fragment = .done () after)
    (hRoom : a.fixups.length + fragment.fixups.length ≤ 4294967296) :
    (form.behind a).emit (a.append fragment) = .done () (a.append after) := by
  unfold emit at h ⊢
  rw [form.leading_behind]
  cases hOther : form.other with
  | register number =>
      have hBehind : (form.behind a).other = .register number := by rw [behind, hOther]; rfl
      simp only [hOther, Assembly.bind_eq_done_iff, Assembly.modify_apply, Outcome.done.injEq] at h
      obtain ⟨_, _, ⟨-, rfl⟩, _, _, ⟨-, rfl⟩, -, rfl⟩ := h
      simp only [hBehind, Assembly.bind_apply, Assembly.modify_apply, Assembler.append_emit]
      rfl
  | memory address =>
      have hBehind : (form.behind a).other = .memory (address.behind a) := by
        rw [behind, hOther]
        rfl
      simp only [hOther, Assembly.bind_eq_done_iff, Assembly.modify_apply, Outcome.done.injEq,
        Assembly.modifyFaulty_eq_done_iff] at h
      obtain ⟨_, _, ⟨-, rfl⟩, _, written, hAddress, -, rfl⟩ := h
      have hMoved := Assembler.emitAddress_append (a := a) hAddress hRoom
      simp only [hBehind, Assembly.bind_apply, Assembly.modify_apply, Assembler.append_emit,
        Assembly.modifyFaulty]
      have hReg : (form.behind a).reg = form.reg := rfl
      rw [hReg, hMoved]
      simp only [Assembler.append_emit]
      rfl

/-- A form is written if the fixup that it carries is there. It could carry
any; the forms of instructions carry the one just requested. -/
theorem Form.exists_emit {form : Form} {fragment : Assembler}
    (h : ∀ address ∈ form.other.address?, ∀ ref ∈ address.fixup,
      ref.number.toNat < fragment.fixups.length) :
    ∃ after, form.emit fragment = .done () after := by
  unfold emit
  cases hOther : form.other with
  | register number => exact ⟨_, rfl⟩
  | memory address =>
      have hAddress : ∃ after,
          (fragment.emit form.leading).emitAddress form.reg address = .ok after := by
        simp only [Assembler.emitAddress_eq_ok_iff]
        cases hFixup : address.fixup with
        | none => exact ⟨_, Or.inl ⟨rfl, rfl⟩⟩
        | some ref =>
            have hBound := h address (by simp [RegisterOrMemory.address?, hOther]) ref hFixup
            exact ⟨_, Or.inr ⟨ref, _, rfl, List.getElem?_eq_getElem hBound, rfl⟩⟩
      obtain ⟨after, hAfter⟩ := hAddress
      refine ⟨after.emit form.trailing, ?_⟩
      simp only [Assembly.bind_apply, Assembly.modify_apply, Assembly.modifyFaulty, hAfter]

namespace Instruction

variable {instruction : Instruction}

/-- An instruction that has a form is written: the fixup that its address
carries is there. -/
theorem FormedAs.emits {form : Form} {between : Assembler}
    (h : instruction.FormedAs f a form between) :
    between.fixups.length ≤ a.fixups.length + 1 ∧ ∃ after, form.emit between = .done () after := by
  obtain ⟨operand, place, hLocated, -, hOther⟩ := h.deciding
  rcases hLocated.relocation_cases with
    ⟨-, rfl, hUncarried⟩ | ⟨part, target, address, -, hSymbol, hPlace, hAddress⟩
  · refine ⟨Nat.le_succ _, Form.exists_emit ?_⟩
    intro address hMember ref hRef
    rw [hOther] at hMember
    rw [hUncarried address hMember] at hRef
    cases hRef
  · -- The address carries the fixup that was requested last.
    obtain ⟨_, -, -, hFixup, rfl⟩ := MemoryOperand.of_toAddress_of_symbol hSymbol hAddress
    refine ⟨by simp, Form.exists_emit ?_⟩
    intro other hMember ref hRef
    rw [hOther, hPlace] at hMember
    cases hMember
    rw [hFixup] at hRef
    cases hRef
    simp only [Assembler.nextFixup, UInt32.toNat_ofNat', Assembler.fixups_withFixups,
      List.length_append, List.length_singleton]
    omega

/-- An encoded instruction adds one fixup at most, so that the room that is
assumed for numbers is used up slowly. -/
theorem length_fixups_of_encode {after : Assembler}
    (h : instruction.encode f a = .done () after) :
    after.fixups.length ≤ a.fixups.length + 1 := by
  rcases (encode_eq_done_iff _ _ _ _).mp h with
    ⟨condition, target, rfl, hJump⟩ | ⟨form, between, hFormed, hEmit⟩
  · rw [Assembler.fixups_of_emitJump hJump]
    exact Nat.le_succ _
  · rw [(Form.emit_extends hEmit).2.2]
    exact hFormed.emits.1

/-- An instruction that is no jump ends behind any code as it ends on its own.
A jump looks at labels, which a fragment has not. -/
theorem encode_eq_behind {find : Assembly Form} (hFind : instruction.form? f = some find)
    (hRoom : a.fixups.length < 4294967295) :
    instruction.encode f a = (instruction.encode f .empty).behind a id := by
  have hFollows : find a = (find .empty).behind a (.behind a) := by
    simpa only [Assembler.append_empty] using form?_follows hFind .empty
  simp only [encode, Assembly.orRollback, write_eq_of_form? hFind, Assembly.bind_apply, hFollows]
  cases hOutcome : find .empty with
  | done form between =>
      have hFormed := (form?_eq_done_iff hFind _ _ _).mp hOutcome
      obtain ⟨hLength, after, hEmit⟩ := hFormed.emits
      have hBehind := Form.emit_append (a := a) hEmit (by
        simp only [Assembler.empty, List.length_nil] at hLength
        omega)
      simp only [Outcome.behind, hEmit, hBehind]
  | refused reason left =>
      -- Rolling back leaves the code of before in one run and no fragment in the other.
      have hUndone : (a.append left).rollback a.mark = a := a.rollback_of_append _ _
      have hEmpty : a.append (left.rollback Assembler.empty.mark) = a := by
        simp [Assembler.append, Assembler.rollback, Assembler.mark, Assembler.empty,
          Assembler.position]
      simp only [Outcome.behind, hUndone, hEmpty]
  | fault cause => rfl

end Instruction

/-- The labels after a jump. A target without a position waits for one field
more. -/
def Assembler.labelsAfterJump (a : Assembler) (target : Label) : LabelState → List LabelState
  | .bound _ => a.labels
  | .pending fields => a.labels.set target.number.toNat (.pending (fields ++ [a.position + 2]))

namespace Instruction

variable {instruction : Instruction}

/-- A jump to a label that exists adds its opcode and a distance. To a label
without a position the distance is zero, and the label remembers where it
is. -/
theorem encode_jcc {condition : Condition} {target : Label} {state : LabelState}
    (h : a.labels[target.number.toNat]? = some state) :
    (jcc condition target).encode f a =
      .done () ⟨a.bytes ++ ([0x0F, UInt8.ofNat (0x80 + condition.code)] ++
        LittleEndian.word (a.jumpDistance target)), a.fixups, a.labelsAfterJump target state⟩ := by
  have hJump : ∃ after, a.emitJump condition target = .ok after ∧
      after.labels = a.labelsAfterJump target state := by
    unfold Assembler.emitJump
    simp only [Assembler.emitDistance_eq_ok_iff]
    cases state with
    | bound position => exact ⟨_, Or.inl ⟨position, h, rfl⟩, rfl⟩
    | pending fields =>
        refine ⟨_, Or.inr ⟨fields, h, rfl⟩, ?_⟩
        simp [Assembler.labelsAfterJump, Assembler.withField, Assembler.setLabel, Assembler.emit,
          Assembler.position]
  obtain ⟨after, hAfter, hLabels⟩ := hJump
  rw [encode_eq_done_iff]
  refine Or.inl ⟨condition, target, rfl, ?_⟩
  rw [hAfter, ← Assembler.bytes_of_emitJump hAfter, ← Assembler.fixups_of_emitJump hAfter,
    ← hLabels]

/-- Encoding only appends, and what it appends does not depend on the code
before it. An instruction that is no jump ends in the same way behind any code
with room for its fixups: it adds the same bytes and the same fixup, if any, at
a position that counts from where it begins, or it is refused for the same
reason, or it ends in the same fault. A jump to a label that exists adds six
bytes, and a target without a position waits for the distance in them. -/
theorem encode_appends (f : Function) (instruction : Instruction) :
    ((∀ condition target, instruction ≠ .jcc condition target) →
      (∃ (code : List UInt8) (fixup : Option Fixup), ∀ a : Assembler,
        a.fixups.length < 4294967295 → instruction.encode f a =
          .done () ⟨a.bytes ++ code, a.fixups ++ fixup.toList.map (.shift a.position), a.labels⟩) ∨
      (∃ reason, ∀ a : Assembler, a.fixups.length < 4294967295 →
        instruction.encode f a = .refused reason a) ∨
      ∃ cause, ∀ a : Assembler, a.fixups.length < 4294967295 →
        instruction.encode f a = .fault cause) ∧
    ∀ condition target, instruction = .jcc condition target →
      ∀ (a : Assembler) (state : LabelState), a.labels[target.number.toNat]? = some state →
        ∃ code : List UInt8, code.length = 6 ∧
          code = [0x0F, UInt8.ofNat (0x80 + condition.code)] ++
            LittleEndian.word (a.jumpDistance target) ∧
          instruction.encode f a =
            .done () ⟨a.bytes ++ code, a.fixups, a.labelsAfterJump target state⟩ := by
  constructor
  · intro hJump
    cases hFind : instruction.form? f with
    | none =>
        obtain ⟨condition, target, rfl⟩ := (form?_eq_none_iff _ _).mp hFind
        exact absurd rfl (hJump condition target)
    | some find =>
        have hBehind {a : Assembler} (hRoom : a.fixups.length < 4294967295) :=
          encode_eq_behind hFind hRoom
        -- What the instruction does to no code at all decides what it does to any code.
        cases hOutcome : instruction.encode f .empty with
        | done _ fragment =>
            have hLength := length_fixups_of_encode hOutcome
            have hFixups : fragment.fixups = fragment.fixups.head?.toList := by
              match fragment.fixups, hLength with
              | [], _ => rfl
              | [_], _ => rfl
            refine Or.inl ⟨fragment.bytes, fragment.fixups.head?, fun a hRoom => ?_⟩
            rw [hBehind hRoom, hOutcome, ← hFixups]
            rfl
        | refused reason left =>
            refine Or.inr (Or.inl ⟨reason, fun a hRoom => ?_⟩)
            rw [hBehind hRoom, hOutcome, eq_of_encode_refused hOutcome, Outcome.behind,
              Assembler.append_empty]
        | fault cause =>
            refine Or.inr (Or.inr ⟨cause, fun a hRoom => ?_⟩)
            rw [hBehind hRoom, hOutcome, Outcome.behind]
  · rintro condition target rfl a state hState
    exact ⟨_, by simp, rfl, encode_jcc hState⟩

/-- A load of a symbol, on its own and behind a jump that waits for its target,
and the jump. -/
theorem encode_appends_load :
    let f : Function := ⟨"f", .initial, #[⟨"d", .i64, some (.general ⟨0, by decide⟩), 0, false⟩]⟩
    let load : Instruction :=
      .mov .i64 (.var ⟨0⟩)
        (.memory (.ofParts .i64 (some ⟨0⟩) none (some (.relocatable ⟨"g", 4⟩)) .one))
    let code : List UInt8 := [0x48, 0x8B, 0x80, 0x04, 0x00, 0x00, 0x00]
    let jump : Instruction := .jcc .e ⟨0⟩
    let start : Assembler := ⟨[0x90], [⟨.signed32, "h", some 0⟩], [.pending []]⟩
    let jumped : Assembler :=
      ⟨[0x90, 0x0F, 0x84, 0, 0, 0, 0], [⟨.signed32, "h", some 0⟩], [.pending [3]]⟩
    load.encode f .empty = .done () ⟨code, [⟨.signed32, "g", some 3⟩], []⟩ ∧
      load.encode f jumped = .done () ⟨jumped.bytes ++ code,
        jumped.fixups ++ [⟨.signed32, "g", some 10⟩], jumped.labels⟩ ∧
      (∀ condition target, load ≠ .jcc condition target) ∧
      jumped.fixups.length < 4294967295 ∧
      (∃ (code : List UInt8) (fixup : Option Fixup), ∀ a : Assembler,
        a.fixups.length < 4294967295 → load.encode f a =
          .done () ⟨a.bytes ++ code, a.fixups ++ fixup.toList.map (.shift a.position), a.labels⟩) ∧
      start.labels[0]? = some (.pending []) ∧ jump.encode f start = .done () jumped := by
  intro f load code jump start jumped
  have hAlone : load.encode f .empty = .done () ⟨code, [⟨.signed32, "g", some 3⟩], []⟩ := by
    dsimp only [f, load, code]
    rfl
  have hJump (condition : Condition) (target : Label) : load ≠ .jcc condition target := nofun
  refine ⟨hAlone, ?_, hJump, by decide, ?_, rfl, ?_⟩
  · dsimp only [f, load, code, jumped]
    rfl
  · rcases (encode_appends f load).1 hJump with hDone | ⟨reason, hRefused⟩ | ⟨cause, hFault⟩
    · exact hDone
    · cases hAlone.symm.trans (hRefused .empty (by decide))
    · cases hAlone.symm.trans (hFault .empty (by decide))
  · obtain ⟨_, -, rfl, hDone⟩ := (encode_appends f jump).2 .e ⟨0⟩ rfl start (.pending []) rfl
    refine hDone.trans ?_
    dsimp only [start, jumped]
    rfl

end Instruction

end Amd64
