import Amd64.Proofs.Assembler.Emission
import Amd64.Proofs.Assembler.Labels
import Amd64.Proofs.Operand.Translation
import Mathlib.Data.List.Perm.Subperm

/-!
The fields of code under construction. Four bytes wait for every distance that
is not known yet, and four bytes are left to the linker for every fixup that
has a place. `Assembler.WellPlaced` says that all of them lie inside the code
and that no two share a byte. Whatever only adds to the code keeps that, which
`Assembler.WellPlaced.grow` shows once.
-/

namespace Amd64

open scoped List

/-- The fields that wait for a label in this state. -/
def LabelState.fields : LabelState → List Nat
  | pending fields => fields
  | bound _ => []

/-- Two fields of four bytes share no byte. -/
def FieldsApart (first second : Nat) : Prop :=
  first + 4 ≤ second ∨ second + 4 ≤ first

theorem FieldsApart.symm {first second : Nat} (h : FieldsApart first second) :
    FieldsApart second first :=
  Or.symm h

/-- What one element of a list contributes can be told from what the others do,
in any order. This is how the fields of one label are exchanged while those of
the others stay. -/
theorem exists_perm_flatMap_set {α β : Type} (part : α → List β) {list : List α} {index : Nat}
    {old : α} (h : list[index]? = some old) :
    ∃ others, list.flatMap part ~ part old ++ others ∧
      ∀ new, (list.set index new).flatMap part ~ part new ++ others := by
  obtain ⟨hBound, rfl⟩ := List.getElem?_eq_some_iff.mp h
  have hSet (new : α) : (list.set index new).flatMap part ~
      part new ++ ((list.take index).flatMap part ++ (list.drop (index + 1)).flatMap part) := by
    rw [List.set_eq_take_append_cons_drop, if_pos hBound, List.flatMap_append, List.flatMap_cons]
    exact List.perm_append_comm_assoc _ _ _
  have hSame := hSet list[index]
  rw [List.set_getElem_self] at hSame
  exact ⟨_, hSame, hSet⟩

namespace Assembler

/-- The fields that wait for a label. -/
def openFields (a : Assembler) : List Nat :=
  a.labels.flatMap LabelState.fields

/-- The fields that are left to the linker. -/
def placedFields (a : Assembler) : List Nat :=
  a.fixups.flatMap fun fixup => fixup.position.toList

def fields (a : Assembler) : List Nat :=
  a.openFields ++ a.placedFields

/-- The four bytes of a field. -/
def wordAt (a : Assembler) (field : Nat) : List UInt8 :=
  (a.bytes.drop field).take 4

/-- Every field and every bound label is where it can be. -/
structure WellPlaced (a : Assembler) : Prop where
  inside : ∀ field ∈ a.fields, field + 4 ≤ a.position
  zero : ∀ field ∈ a.openFields, a.wordAt field = [0, 0, 0, 0]
  targets : ∀ target, .bound target ∈ a.labels → target ≤ a.position
  apart : a.fields.Pairwise FieldsApart

/-- No code has no fields, so that everything said about them is true of it. -/
theorem wellPlaced_empty : empty.WellPlaced where
  inside _ h := by cases h
  zero _ h := by cases h
  targets _ h := by cases h
  apart := .nil

variable {a after : Assembler}

/-- What is added behind a field does not change it. The field has to lie
inside the old code as a whole. -/
theorem wordAt_of_append {content : List UInt8} (hBytes : after.bytes = a.bytes ++ content)
    {field : Nat} (hInside : field + 4 ≤ a.position) : after.wordAt field = a.wordAt field := by
  have hStart : field ≤ a.bytes.length := Nat.le_trans (Nat.le_add_right _ _) hInside
  have hLength : 4 ≤ (a.bytes.drop field).length := by
    rw [List.length_drop]
    exact Nat.le_sub_of_add_le' hInside
  rw [wordAt, hBytes, List.drop_append_of_le_length hStart, List.take_append_of_le_length hLength,
    wordAt]

namespace WellPlaced

/-- Code that only grows stays well placed, if its new fields are among the
bytes that were added and those of them that wait for a label are zero. Old
fields may disappear. -/
theorem grow (h : a.WellPlaced) (added : List Nat) {content : List UInt8}
    (hBytes : after.bytes = a.bytes ++ content)
    (hAdded : ∀ field ∈ added, a.position ≤ field ∧ field + 4 ≤ after.position)
    (hAlone : added.Pairwise FieldsApart) (hFields : after.fields <+~ added ++ a.fields)
    (hOpen : ∀ field ∈ after.openFields,
      field ∈ a.openFields ∨ after.wordAt field = [0, 0, 0, 0])
    (hTargets : ∀ target, .bound target ∈ after.labels → .bound target ∈ a.labels) :
    after.WellPlaced := by
  have hForward : a.position ≤ after.position := by
    rw [Assembler.position, Assembler.position, hBytes, List.length_append]
    exact Nat.le_add_right _ _
  refine ⟨?inside, ?zero, ?targets, ?apart⟩
  case inside =>
    intro field hField
    rcases List.mem_append.mp (hFields.subset hField) with hNew | hOld
    · exact (hAdded field hNew).2
    · exact Nat.le_trans (h.inside field hOld) hForward
  case zero =>
    intro field hField
    rcases hOpen field hField with hOld | hZero
    · rw [wordAt_of_append hBytes (h.inside field (List.mem_append_left _ hOld))]
      exact h.zero field hOld
    · exact hZero
  case targets =>
    intro target hTarget
    exact Nat.le_trans (h.targets target (hTargets target hTarget)) hForward
  case apart =>
    -- New fields begin where the old code ends, so none of them meets an old one.
    have hAll : (added ++ a.fields).Pairwise FieldsApart := by
      refine List.pairwise_append.mpr ⟨hAlone, h.apart, ?_⟩
      intro new hNew old hOld
      exact Or.inr (Nat.le_trans (h.inside old hOld) (hAdded new hNew).1)
    obtain ⟨ordered, hPerm, hSublist⟩ := hFields
    exact (hPerm.pairwise_iff FieldsApart.symm).mp (hAll.sublist hSublist)

/-- Code that grows without new fields stays well placed. It may lose targets
but no field, and the bytes that are added can be any. -/
theorem extend (h : a.WellPlaced) {content : List UInt8}
    (hBytes : after.bytes = a.bytes ++ content) (hOpen : after.openFields = a.openFields)
    (hPlaced : after.placedFields = a.placedFields)
    (hTargets : ∀ target, .bound target ∈ after.labels → .bound target ∈ a.labels) :
    after.WellPlaced := by
  have hFields : after.fields = a.fields := by rw [fields, hOpen, hPlaced, fields]
  refine h.grow [] hBytes (fun _ hNew => by cases hNew) .nil ?_ ?_ hTargets
  · rw [hFields]
    exact List.Subperm.refl _
  · intro field hField
    rw [hOpen] at hField
    exact Or.inl hField

theorem emit (h : a.WellPlaced) (content : List UInt8) : (a.emit content).WellPlaced :=
  h.extend rfl rfl rfl fun _ hTarget => hTarget

theorem newLabel (h : a.WellPlaced) : a.newLabel.2.WellPlaced := by
  refine h.extend (List.append_nil _).symm ?_ rfl ?_
  · simp [openFields, Assembler.newLabel, LabelState.fields]
  · intro target hTarget
    simpa [Assembler.newLabel] using hTarget

/-- Fixups without a place have no field, so any number of them can be
requested. -/
theorem withFixups (h : a.WellPlaced) {fixups : List Fixup}
    (hUnplaced : ∀ fixup ∈ fixups, fixup.position = none) : (a.withFixups fixups).WellPlaced := by
  have hNone : (fixups.flatMap fun fixup => fixup.position.toList) = [] := by
    rw [List.flatMap_eq_nil_iff]
    intro fixup hFixup
    rw [hUnplaced fixup hFixup]
    rfl
  refine h.extend (List.append_nil _).symm rfl ?_ fun _ hTarget => hTarget
  rw [placedFields, fixups_withFixups, List.flatMap_append, hNone, List.append_nil, placedFields]

/-- A fixup gets a place among the bytes that are written, instead of any place
that it had. The new place is apart from all fields because it lies behind
them. -/
theorem emitAddress (h : a.WellPlaced) {reg : Nat} {address : Address}
    (hStep : a.emitAddress reg address = .ok after) : after.WellPlaced := by
  rcases (emitAddress_eq_ok_iff _ _ _ _).mp hStep with
    ⟨-, rfl⟩ | ⟨ref, found, hRef, hFound, rfl⟩
  · exact h.emit _
  · have hWord := address.displacement_encode_of_fixup reg (by rw [hRef]; rfl)
    have hLength : (address.encode reg).bytes.length =
        (address.encode reg).displacementStart + 4 := by
      rw [AddressEncoding.length_bytes, AddressEncoding.length, hWord, Displacement.length]
    obtain ⟨others, hOld, hNew⟩ :=
      exists_perm_flatMap_set (fun fixup : Fixup => fixup.position.toList) hFound
    refine h.grow [a.position + (address.encode reg).displacementStart] rfl ?_
      (List.pairwise_singleton _ _) ?_ (fun _ hOpen => Or.inl hOpen) fun _ hTarget => hTarget
    · intro field hField
      obtain rfl := List.mem_singleton.mp hField
      change _ ∧ _ ≤ (a.emit (address.encode reg).bytes).position
      rw [position_emit, hLength]
      omega
    · have hKept : others <+~ a.placedFields :=
        (List.sublist_append_right _ _).subperm.trans hOld.symm.subperm
      have hMoved (place : Nat) : a.openFields ++ ([place] ++ others) <+~ [place] ++ a.fields :=
        (List.perm_append_comm_assoc _ _ _).subperm.trans
          ((List.Subperm.refl _).append ((List.Subperm.refl _).append hKept))
      exact ((hNew _).append_left _).subperm.trans (hMoved _)

/-- A distance that is not known yet waits in a new field of zeros; one that is
known leaves four bytes that are no field. -/
theorem emitDistance (h : a.WellPlaced) {label : Label} (hStep : a.emitDistance label = .ok after) :
    after.WellPlaced := by
  rcases (emitDistance_eq_ok_iff _ _ _).mp hStep with ⟨target, -, rfl⟩ | ⟨fields, hPending, rfl⟩
  · exact h.emit _
  · obtain ⟨others, hOld, hNew⟩ := exists_perm_flatMap_set LabelState.fields hPending
    have hOpen : (a.withField label fields).openFields ~ [a.position] ++ a.openFields :=
      calc (a.withField label fields).openFields
        _ ~ (fields ++ [a.position]) ++ others := hNew (.pending (fields ++ [a.position]))
        _ ~ [a.position] ++ (fields ++ others) := by
          rw [List.append_assoc]
          exact List.perm_append_comm_assoc _ _ _
        _ ~ [a.position] ++ a.openFields := hOld.symm.append_left _
    have hPosition : (a.withField label fields).position = a.position + 4 := by
      rw [withField, position_emit]
      rfl
    have hBytes : (a.withField label fields).bytes = a.bytes ++ LittleEndian.word 0 := rfl
    refine h.grow [a.position] hBytes ?_
      (List.pairwise_singleton _ _) ?_ ?_ ?_
    · intro field hField
      obtain rfl := List.mem_singleton.mp hField
      exact ⟨Nat.le_refl _, Nat.le_of_eq hPosition.symm⟩
    · have hFields := hOpen.append_right a.placedFields
      rw [List.append_assoc] at hFields
      exact hFields.subperm
    · intro field hField
      rcases List.mem_append.mp (hOpen.subset hField) with hHere | hEarlier
      · obtain rfl := List.mem_singleton.mp hHere
        rw [wordAt, hBytes, Assembler.position, List.drop_left]
        exact Or.inr rfl
      · exact Or.inl hEarlier
    · intro target hTarget
      rcases List.mem_or_eq_of_mem_set hTarget with hEarlier | hHere
      · exact hEarlier
      · cases hHere

/-- The two bytes of the opcode come before the field, which is then the end of
the code. -/
theorem emitJump (h : a.WellPlaced) {condition : Condition} {label : Label}
    (hStep : a.emitJump condition label = .ok after) : after.WellPlaced :=
  (h.emit _).emitDistance hStep

/-- Writing a machine form adds bytes, and perhaps the place of a fixup. The
fixup is looked up by number and may be an old one. -/
theorem formEmit (h : a.WellPlaced) {form : Form} (hStep : form.emit a = .done () after) :
    after.WellPlaced := by
  unfold Form.emit at hStep
  cases hOther : form.other with
  | register number =>
      simp only [hOther, Assembly.bind_eq_done_iff, Assembly.modify_apply, Outcome.done.injEq]
        at hStep
      obtain ⟨_, _, ⟨-, rfl⟩, _, _, ⟨-, rfl⟩, -, rfl⟩ := hStep
      exact ((h.emit _).emit _).emit _
  | memory address =>
      simp only [hOther, Assembly.bind_eq_done_iff, Assembly.modify_apply, Outcome.done.injEq,
        Assembly.modifyFaulty_eq_done_iff] at hStep
      obtain ⟨_, _, ⟨-, rfl⟩, _, _, hAddress, -, rfl⟩ := hStep
      exact ((h.emit _).emitAddress hAddress).emit _

theorem requested (h : a.WellPlaced) (operand : MemoryOperand) :
    (a.withFixups operand.requested).WellPlaced :=
  h.withFixups (by simp [MemoryOperand.requested])

/-- Finding the place of an operand may request a fixup, and writes no byte. -/
theorem locatedAt (h : a.WellPlaced) {f : Function} {operand : Operand} {place : Place}
    (hLocated : operand.LocatedAt f a place after) : after.WellPlaced := by
  rw [hLocated.after_eq]
  cases operand with
  | memory operand => exact h.requested operand
  | var | constant | half => exact h.withFixups fun _ hFixup => by cases hFixup

end WellPlaced

end Assembler

end Amd64
