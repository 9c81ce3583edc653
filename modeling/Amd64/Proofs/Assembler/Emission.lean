import Amd64.Instruction.Form
import Amd64.Proofs.Assembler.Ending

/-!
What writing an address and writing a machine form do to the code. Both append
bytes and may place one fixup; neither looks at what stands before them, and
neither is ever refused.
-/

namespace Amd64

/-- A fixup is only ever carried by four bytes. The short form of a
displacement would leave the linker no room. -/
theorem Address.displacement_encode_of_fixup {address : Address} (reg : Nat)
    (h : address.fixup.isSome = true) :
    (address.encode reg).displacement = .word address.displacement := by
  obtain ⟨base, index, displacement, fixup⟩ := address
  cases base with
  | none => cases index <;> rfl
  | some base =>
      have hWord (needsField : Bool) :
          Displacement.choose displacement fixup.isSome needsField = .word displacement := by
        simp [Displacement.choose, h]
      cases index with
      | none =>
          simp only [Address.encode, hWord]
          split <;> rfl
      | some scaled => simp only [Address.encode, hWord]

namespace Assembler

/-- The code with a new position for one of its fixups. -/
def withPlace (a : Assembler) (ref : FixupRef) (found : Fixup) (position : Nat) : Assembler :=
  { a with
    fixups := a.fixups.set ref.number.toNat { found with position := some position } }

/-- Writing an address appends its bytes. A fixup that it carries gets the
place of the displacement, and a fixup that does not exist is a fault. -/
theorem emitAddress_eq_ok_iff (a after : Assembler) (reg : Nat) (address : Address) :
    a.emitAddress reg address = .ok after ↔
      (address.fixup = none ∧ after = a.emit (address.encode reg).bytes) ∨
        ∃ ref found, address.fixup = some ref ∧ a.fixups[ref.number.toNat]? = some found ∧
          after = (a.emit (address.encode reg).bytes).withPlace ref found
            (a.position + (address.encode reg).displacementStart) := by
  cases hFixup : address.fixup with
  | none =>
      have hWritten : a.emitAddress reg address = .ok (a.emit (address.encode reg).bytes) := by
        simp only [emitAddress, AddressEncoding.writeTo, hFixup]
        rfl
      rw [hWritten]
      simp [eq_comm]
  | some ref =>
      have hWord := address.displacement_encode_of_fixup reg (by simp [hFixup])
      have hPlaced : a.emitAddress reg address =
          (a.emit (address.encode reg).bytes).placeFixup ref
            (a.position + (address.encode reg).displacementStart) := by
        simp only [emitAddress, AddressEncoding.writeTo, hFixup, hWord, Displacement.isEmpty,
          Bool.false_eq_true, if_false]
        rfl
      have hFixups : (a.emit (address.encode reg).bytes).fixups = a.fixups := rfl
      rw [hPlaced, placeFixup, Assembler.fixup, hFixups]
      cases hFound : a.fixups[ref.number.toNat]? with
      | none => simp [hFound]
      | some found =>
          constructor
          · rintro h
            cases h
            exact Or.inr ⟨ref, found, rfl, hFound, rfl⟩
          · rintro (⟨hNone, -⟩ | ⟨_, _, hRef, hSame, rfl⟩)
            · cases hNone
            · cases hRef
              cases hFound.symm.trans hSame
              rfl

/-- Whatever becomes of the fixups, only the bytes of the address are added to
the code. No label changes, and no fixup is added. -/
theorem emitAddress_extends {a after : Assembler} {reg : Nat} {address : Address}
    (h : a.emitAddress reg address = .ok after) :
    after.bytes = a.bytes ++ (address.encode reg).bytes ∧ after.labels = a.labels ∧
      after.fixups.length = a.fixups.length := by
  rcases (emitAddress_eq_ok_iff _ _ _ _).mp h with ⟨-, rfl⟩ | ⟨ref, found, -, -, rfl⟩
  · exact ⟨rfl, rfl, rfl⟩
  · exact ⟨rfl, rfl, by simp [withPlace, emit]⟩

end Assembler

namespace Form

def operandBytes (form : Form) : List UInt8 :=
  match form.other with
  | .register number => [packFields 3 form.reg number]
  | .memory address => (address.encode form.reg).bytes

def bytes (form : Form) : List UInt8 :=
  form.leading ++ form.operandBytes ++ form.trailing

/-- A form that is written is written with all its bytes, at the end. Nothing
before it changes, and fixups are placed but never added. -/
theorem emit_extends {form : Form} {a after : Assembler} (h : form.emit a = .done () after) :
    after.bytes = a.bytes ++ form.bytes ∧ after.labels = a.labels ∧
      after.fixups.length = a.fixups.length := by
  unfold emit at h
  cases hOther : form.other with
  | register number =>
      simp only [hOther, Assembly.bind_eq_done_iff, Assembly.modify_apply, Outcome.done.injEq] at h
      obtain ⟨_, _, ⟨-, rfl⟩, _, _, ⟨-, rfl⟩, -, rfl⟩ := h
      simp [bytes, operandBytes, hOther, Assembler.emit]
  | memory address =>
      simp only [hOther, Assembly.bind_eq_done_iff, Assembly.modify_apply, Outcome.done.injEq,
        Assembly.modifyFaulty_eq_done_iff] at h
      obtain ⟨_, _, ⟨-, rfl⟩, _, _, hAddress, -, rfl⟩ := h
      obtain ⟨hBytes, hLabels, hFixups⟩ := Assembler.emitAddress_extends hAddress
      refine ⟨?_, hLabels, hFixups⟩
      simp [hBytes, bytes, operandBytes, hOther, Assembler.emit]

/-- A form that was found is written: everything that can be refused is refused
before the first byte. -/
theorem emit_neverRefused (form : Form) : form.emit.NeverRefused := by
  apply Assembly.NeverRefused.bind (.modify _)
  intro _
  cases form.other with
  | register number => exact .bind (.modify _) fun _ => .modify _
  | memory address => exact .bind (.modifyFaulty _) fun _ => .modify _

end Form

end Amd64
