import Amd64.Proofs.Instruction.Agreement
import Amd64.Proofs.Instruction.Appending
import Amd64.Proofs.Operand.Addressable

/-!
Faults are avoidable. An instruction whose variables and label exist, whose
memory operands have addresses and whose halves are in memory is encoded or
refused: `Instruction.faults_avoidable`.
-/

namespace Amd64

variable {f : Function} {a : Assembler}

/-- Nothing that the place of an operand depends on is missing. -/
def Operand.Locatable (f : Function) : Operand → Prop
  | var id => ∃ found, f.lookup id = .ok found
  | constant _ => True
  | memory operand => ¬ operand.Unaddressable f
  | half part => ∃ found, f.lookup part.slot = .ok found ∧ found.register = none

/-- An operand that can be located is located or refused. A refusal is no
fault: the operand is all right and the instruction has no use for it. -/
theorem Operand.locate_faultFree {operand : Operand} (mnemonic : String)
    (h : operand.Locatable f) : (operand.locate f mnemonic).FaultFree a := by
  cases operand with
  | var id =>
      obtain ⟨found, hFound⟩ := h
      refine .bind_ofFaulty hFound ?_
      split
      · exact .refuse _
      · cases hRegister : found.register with
        | some register => exact .pure _
        | none =>
            have hAddress := (f.stackAddress_eq_ok_iff id _).mpr ⟨found, hFound, hRegister, rfl⟩
            exact .bind_ofFaulty hAddress (.pure _)
  | constant value =>
      cases value with
      | integer value => exact .pure _
      | relocatable target => exact .refuse _
  | memory operand => exact .bind (operand.toAddress_faultFree h) fun _ _ _ => .pure _
  | half part =>
      obtain ⟨found, hFound, hNone⟩ := h
      have hAddress := (part.toAddress_eq_ok_iff f _).mpr ⟨found, hFound, hNone, rfl⟩
      exact .bind_ofFaulty hAddress (.pure _)

namespace Instruction

/-- Everything that an instruction asks for was provided: its variables exist,
its label exists, its memory operands have addresses, and only variables in
memory have halves. -/
structure Provided (f : Function) (a : Assembler) (instruction : Instruction) : Prop where
  named : ∀ id ∈ instruction.named, id.number.toNat < f.locals.size
  target : ∀ condition target, instruction = .jcc condition target →
    target.number.toNat < a.labels.length
  addressable : ∀ part, .memory part ∈ instruction.operands → ¬ part.Unaddressable f
  halves : ∀ part, .half part ∈ instruction.operands →
    ∀ found, f.lookup part.slot = .ok found → found.register = none

namespace Provided

variable {instruction : Instruction}

/-- The variables that an instruction names are those in the use lists of its
operands and the one that it computes into. -/
theorem exists_lookup (h : instruction.Provided f a) {id : VariableId}
    (hId : id ∈ instruction.named) : ∃ found, f.lookup id = .ok found :=
  (f.exists_lookup_iff id).mpr (h.named id hId)

/-- Each operand of an instruction that is provided for can be located. The
lookup of a half needs its variable as well as that this is in memory. -/
theorem locatable (h : instruction.Provided f a) {operand : Operand}
    (hOperand : operand ∈ instruction.operands) : operand.Locatable f := by
  have hLookup {id : VariableId} (hId : id ∈ operand.uses.toList) :
      ∃ found, f.lookup id = .ok found :=
    h.exists_lookup (List.mem_append_right _ (List.mem_flatMap.mpr ⟨operand, hOperand, hId⟩))
  cases operand with
  | var id => exact hLookup (List.mem_singleton_self id)
  | constant value => trivial
  | memory part => exact h.addressable part hOperand
  | half part =>
      obtain ⟨found, hFound⟩ := hLookup (List.mem_singleton_self part.slot)
      exact ⟨found, hFound, h.halves part hOperand found hFound⟩

end Provided

/-- A variable that exists is in a register or it is refused; only one that
does not exist is a fault. -/
theorem destinationRegister_faultFree (mnemonic : String) {dest : VariableId}
    (h : ∃ found, f.lookup dest = .ok found) :
    (destinationRegister f mnemonic dest).FaultFree a := by
  obtain ⟨found, hFound⟩ := h
  refine .bind_ofFaulty hFound ?_
  split
  · exact .pure _
  · exact .refuse _

theorem addressTarget_faultFree {dest : VariableId} (h : ∃ found, f.lookup dest = .ok found) :
    (addressTarget f dest).FaultFree a := by
  rw [addressTarget_eq]
  obtain ⟨found, hFound⟩ := h
  refine .bind_ofFaulty hFound (.bind (.ofRefusable _) fun wide _ _ => ?_)
  refine .bind (destinationRegister_faultFree "lea" ⟨found, hFound⟩) fun register _ _ => ?_
  exact .bind (.ofRefusable _) fun number _ _ => .pure _

theorem comparisonTarget_faultFree {dest : VariableId} (h : ∃ found, f.lookup dest = .ok found) :
    (comparisonTarget f dest).FaultFree a := by
  obtain ⟨found, hFound⟩ := h
  refine .bind_ofFaulty hFound ?_
  split
  · exact .bind (destinationRegister_faultFree "cmpps" ⟨found, hFound⟩) fun _ _ _ => .ofRefusable _
  · exact .refuse _

/-- The form of an instruction that is provided for is found or refused. The
cases are those of the instruction, and in each the operands come in the order
in which they are located. -/
theorem form?_faultFree {instruction : Instruction} {find : Assembly Form}
    (hFind : instruction.form? f = some find) (h : instruction.Provided f a) :
    find.FaultFree a := by
  cases instruction with
  | mov type dest src =>
      cases hFind
      refine .bind (dest.locate_faultFree "mov" (h.locatable (.head _))) fun d _ _ => ?_
      refine .bind (src.locate_faultFree "mov" (h.locatable (.tail _ (.head _)))) fun s _ _ => ?_
      exact .ofRefusable _
  | lea dest src =>
      cases hFind
      have hDest := h.exists_lookup (.head _)
      refine .bind (addressTarget_faultFree hDest) fun target _ _ => ?_
      exact .bind (src.toAddress_faultFree (h.addressable src (.head _))) fun address _ _ => .pure _
  | jcc condition target => cases hFind
  | setcc condition dest =>
      cases hFind
      refine .bind (dest.locate_faultFree "setcc" (h.locatable (.head _))) fun d _ _ => ?_
      exact .ofRefusable _
  | cmpps predicate dest src =>
      cases hFind
      have hDest := h.exists_lookup (.head _)
      refine .bind (comparisonTarget_faultFree hDest) fun number _ _ => ?_
      refine .bind (src.locate_faultFree "cmpps" (h.locatable (.head _))) fun s _ _ => ?_
      exact .ofRefusable _

/-- Once there is a form, writing it meets no fault either, because the fixup
of its address was requested on the way. -/
theorem encode_faultFree {instruction : Instruction} (h : instruction.Provided f a) :
    (instruction.encode f).FaultFree a := by
  cases hFind : instruction.form? f with
  | none =>
      obtain ⟨condition, target, rfl⟩ := (form?_eq_none_iff _ _).mp hFind
      have hState := List.getElem?_eq_getElem (h.target condition target rfl)
      exact .of_done (encode_jcc hState)
  | some find =>
      rw [encode, Assembly.FaultFree.orRollback_iff, write_eq_of_form? hFind]
      refine .bind (form?_faultFree hFind h) fun form between hForm => ?_
      obtain ⟨-, after, hEmit⟩ := ((form?_eq_done_iff hFind _ _ _).mp hForm).emits
      exact .of_done hEmit

/-- A memory operand is a fault exactly if something keeps it from having an
address. Encoding an instruction for which everything was provided succeeds or
is refused. -/
theorem faults_avoidable :
    (∀ (f : Function) (operand : MemoryOperand) (a : Assembler),
      (∃ cause, operand.toAddress f a = .fault cause) ↔ operand.Unaddressable f) ∧
    ∀ (f : Function) (a : Assembler) (instruction : Instruction), instruction.Provided f a →
      (∃ after, instruction.encode f a = .done () after) ∨
        ∃ reason after, instruction.encode f a = .refused reason after := by
  refine ⟨MemoryOperand.toAddress_eq_fault_iff, fun f a instruction h => ?_⟩
  rcases (Assembly.faultFree_iff _ _).mp (encode_faultFree h) with ⟨_, after, hDone⟩ | hRefused
  · exact Or.inl ⟨after, hDone⟩
  · exact Or.inr hRefused

/-- A copy through a rematerializable base into a half, which no machine form
covers: it is refused and is no fault. -/
theorem faults_avoidable_copy :
    let f : Function := ⟨"f", ⟨true, 16⟩,
      #[⟨"p", .i64, some .rbp, 8, true⟩, ⟨"s", .i64, none, 24, false⟩]⟩
    let part : MemoryOperand := .ofParts .i32 (some ⟨0⟩) none (some (.integer 4)) .one
    let copy : Instruction := .mov .i32 (.half (.natural ⟨1⟩ .high)) (.memory part)
    (¬ ∃ cause, part.toAddress f .empty = .fault cause) ∧ copy.Provided f .empty ∧
      (∀ after, copy.encode f .empty ≠ .done () after) ∧
      ∃ reason after, copy.encode f .empty = .refused reason after := by
  intro f part copy
  have hAddressable : ¬ part.Unaddressable f := by
    rw [MemoryOperand.unaddressable_iff, Classical.not_not]
    exact ⟨⟨some ⟨5⟩, none, 28, none⟩, rfl⟩
  have hTarget (condition : Condition) (target : Label) : copy ≠ .jcc condition target := by
    simp [copy]
  have hProvided : copy.Provided f .empty := by
    refine ⟨by decide, fun condition target hJump => absurd hJump (hTarget condition target),
      fun other hOther => ?_, fun other hOther found hFound => ?_⟩
    · have hPart : other = part := by simpa [copy, operands] using hOther
      rwa [hPart]
    · have hHalf : other = .natural ⟨1⟩ .high := by simpa [copy, operands] using hOther
      subst hHalf
      cases hFound
      rfl
  have hNotDone (after : Assembler) : copy.encode f .empty ≠ .done () after := by
    intro hDone
    cases hDone
  refine ⟨fun hFault => hAddressable ((faults_avoidable.1 f part .empty).mp hFault), hProvided,
    hNotDone, ?_⟩
  rcases faults_avoidable.2 f .empty copy hProvided with ⟨after, hDone⟩ | hRefused
  · exact absurd hDone (hNotDone after)
  · exact hRefused

end Instruction

end Amd64
