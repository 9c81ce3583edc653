import Amd64.Proofs.Assembler.Fields

/-!
Binding a label, field by field. A patch changes the four bytes of its field
and no other byte, and one inside the code does not move the end. So binding a
label of well-placed code gives every waiting field its distance, leaves every
other field as it was, and never reaches past the end:
`Assembler.WellPlaced.bindsInPlace`.
-/

namespace Amd64

open scoped List

namespace Assembler

/-- The bytes of a patched code, one by one: before the patch, inside it and
behind it. All of the patch has to lie inside the code. -/
theorem getElem?_patch {a : Assembler} {position : Nat} {content : List UInt8}
    (hInside : position + content.length ≤ a.position) (index : Nat) :
    (a.patch position content).bytes[index]? =
      if index < position then a.bytes[index]?
      else if index < position + content.length then content[index - position]?
      else a.bytes[index]? := by
  have hTake : (a.bytes.take position).length = position :=
    List.length_take_of_le (Nat.le_trans (Nat.le_add_right _ _) hInside)
  have hBefore : (a.bytes.take position ++ content).length = position + content.length := by
    rw [List.length_append, hTake]
  rw [patch]
  by_cases hLow : index < position
  · rw [if_pos hLow, List.getElem?_append_left (by omega), List.getElem?_append_left (by omega),
      List.getElem?_take_of_lt hLow]
  · rw [if_neg hLow]
    by_cases hHigh : index < position + content.length
    · rw [if_pos hHigh, List.getElem?_append_left (by omega),
        List.getElem?_append_right (by omega), hTake]
    · rw [if_neg hHigh, List.getElem?_append_right (by omega), hBefore, List.getElem?_drop]
      congr 1
      omega

variable {a after : Assembler}

/-- The word at a field is made of four bytes and of nothing else. -/
theorem wordAt_congr {field : Nat}
    (h : ∀ index, field ≤ index → index < field + 4 → after.bytes[index]? = a.bytes[index]?) :
    after.wordAt field = a.wordAt field := by
  refine List.ext_getElem? fun offset => ?_
  simp only [wordAt, List.getElem?_take, List.getElem?_drop]
  split
  · exact h _ (Nat.le_add_right _ _) (by omega)
  · rfl

/-- The field that is patched has the word that was written there, whatever
stood in it. -/
theorem wordAt_patch_self {field : Nat} (hInside : field + 4 ≤ a.position) (word : Int32) :
    (a.patch field (LittleEndian.word word)).wordAt field = LittleEndian.word word := by
  have hTake : (a.bytes.take field).length = field :=
    List.length_take_of_le (Nat.le_trans (Nat.le_add_right _ _) hInside)
  rw [wordAt, patch, List.append_assoc, List.drop_left' hTake,
    List.take_left' (LittleEndian.length_word word)]

section PatchWords

variable {word : Nat → Int32} {fields : List Nat}

/-- Patches inside the code do not move its end, in whatever order they come
and even where they overlap. -/
theorem position_patchWords (hInside : ∀ field ∈ fields, field + 4 ≤ a.position) :
    (a.patchWords word fields).position = a.position := by
  induction fields generalizing a with
  | nil => rfl
  | cons field rest ih =>
      obtain ⟨hHere, hRest⟩ := List.forall_mem_cons.mp hInside
      have hEnd := a.position_patch field (LittleEndian.word (word field)) hHere
      rw [patchWords_cons, ih (by rwa [hEnd]), hEnd]

/-- A byte in none of the fields stays what it was. Here the fields need not
lie apart. -/
theorem getElem?_patchWords (hInside : ∀ field ∈ fields, field + 4 ≤ a.position) {index : Nat}
    (hOutside : ∀ field ∈ fields, index < field ∨ field + 4 ≤ index) :
    (a.patchWords word fields).bytes[index]? = a.bytes[index]? := by
  induction fields generalizing a with
  | nil => rfl
  | cons field rest ih =>
      obtain ⟨hHere, hRest⟩ := List.forall_mem_cons.mp hInside
      obtain ⟨hIndex, hOthers⟩ := List.forall_mem_cons.mp hOutside
      have hEnd := a.position_patch field (LittleEndian.word (word field)) hHere
      rw [patchWords_cons, ih (by rwa [hEnd]) hOthers, getElem?_patch hHere,
        LittleEndian.length_word]
      split
      · rfl
      · rw [if_neg (by omega)]

/-- A field apart from all that are patched stays what it was, the fields of
fixups among them. -/
theorem wordAt_patchWords_of_apart (hInside : ∀ field ∈ fields, field + 4 ≤ a.position)
    {other : Nat} (hApart : ∀ field ∈ fields, FieldsApart field other) :
    (a.patchWords word fields).wordAt other = a.wordAt other := by
  refine wordAt_congr fun index hStart hStop => getElem?_patchWords hInside fun field hField => ?_
  rcases hApart field hField with hBefore | hBehind
  · exact Or.inr (Nat.le_trans hBefore hStart)
  · exact Or.inl (Nat.lt_of_lt_of_le hStop hBehind)

/-- Of fields that lie apart each one gets its word. Without that a later field
could overwrite an earlier one. -/
theorem wordAt_patchWords_of_mem (hInside : ∀ field ∈ fields, field + 4 ≤ a.position)
    (hApart : fields.Pairwise FieldsApart) {field : Nat} (hField : field ∈ fields) :
    (a.patchWords word fields).wordAt field = LittleEndian.word (word field) := by
  induction fields generalizing a with
  | nil => cases hField
  | cons first rest ih =>
      obtain ⟨hHere, hRest⟩ := List.forall_mem_cons.mp hInside
      obtain ⟨hFirst, hLater⟩ := List.pairwise_cons.mp hApart
      have hEnd := a.position_patch first (LittleEndian.word (word first)) hHere
      have hStill : ∀ field ∈ rest,
          field + 4 ≤ (a.patch first (LittleEndian.word (word first))).position := by
        rwa [hEnd]
      rw [patchWords_cons]
      rcases List.mem_cons.mp hField with rfl | hOther
      · rw [wordAt_patchWords_of_apart hStill fun field hField => (hFirst field hField).symm,
          wordAt_patch_self hHere]
      · exact ih hStill hLater hOther

end PatchWords

/-- Binding a label that these fields wait for does what it is meant to do, and
nothing else. -/
structure BindsInPlace (a : Assembler) (label : Label) (fields : List Nat) (after : Assembler) :
    Prop where
  /-- No patch reaches past the end of the code: that would be a fault. -/
  bound : a.bind label = .ok after
  inside : ∀ field ∈ fields, field + 4 ≤ a.position
  position : after.position = a.position
  /-- All fields but the ones that waited for the label stay fields. -/
  remaining : a.fields ~ fields ++ after.fields
  patched : ∀ field ∈ fields,
    after.wordAt field = LittleEndian.word (distance a.position field)
  apart : ∀ field ∈ fields, ∀ other ∈ after.fields, FieldsApart field other
  kept : ∀ other ∈ after.fields, after.wordAt other = a.wordAt other
  /-- A byte in none of the fields that waited is not touched. -/
  untouched : ∀ index, (∀ field ∈ fields, index < field ∨ field + 4 ≤ index) →
    after.bytes[index]? = a.bytes[index]?

section WithTarget

variable {label : Label} {fields : List Nat}

theorem placedFields_withTarget (a : Assembler) (label : Label) (fields : List Nat) :
    (a.withTarget label fields).placedFields = a.placedFields := by
  rw [placedFields, withTarget, fixups_patchWords]
  rfl

/-- Nothing waits for a label any more once it is bound, and for every other
label the same fields wait as before. The order of the fields is not
claimed. -/
theorem openFields_withTarget (hPending : a.labels[label.number.toNat]? = some (.pending fields)) :
    a.openFields ~ fields ++ (a.withTarget label fields).openFields := by
  obtain ⟨others, hOld, hNew⟩ := exists_perm_flatMap_set LabelState.fields hPending
  have hOpen : (a.withTarget label fields).openFields ~ others := by
    rw [openFields, withTarget, labels_patchWords]
    exact hNew (.bound a.position)
  exact hOld.trans (hOpen.symm.append_left _)

theorem fields_withTarget (hPending : a.labels[label.number.toNat]? = some (.pending fields)) :
    a.fields ~ fields ++ (a.withTarget label fields).fields := by
  rw [Assembler.fields, Assembler.fields, placedFields_withTarget, ← List.append_assoc]
  exact (openFields_withTarget hPending).append_right _

end WithTarget

namespace WellPlaced

variable {label : Label} {fields : List Nat}

/-- A label that is not bound in well-placed code is bound without a fault, and
all that is meant to happen to the bytes does. The invariant supplies what
patching asks for: fields inside the code, and apart. -/
theorem bindsInPlace (h : a.WellPlaced)
    (hPending : a.labels[label.number.toNat]? = some (.pending fields)) :
    a.BindsInPlace label fields (a.withTarget label fields) := by
  have hFields := fields_withTarget hPending
  have hInside : ∀ field ∈ fields,
      field + 4 ≤ (a.setLabel label (.bound a.position)).position := fun field hField =>
    h.inside field (hFields.symm.subset (List.mem_append_left _ hField))
  obtain ⟨hFirst, -, hApart⟩ := List.pairwise_append.mp
    ((hFields.pairwise_iff FieldsApart.symm).mp h.apart)
  exact {
    bound := (bind_eq_ok_iff _ _ _).mpr ⟨fields, hPending, hInside, rfl⟩
    inside := hInside
    position := position_patchWords hInside
    remaining := hFields
    patched := fun field hField => wordAt_patchWords_of_mem hInside hFirst hField
    apart := hApart
    kept := fun other hOther =>
      wordAt_patchWords_of_apart hInside fun field hField => hApart field hField other hOther
    untouched := fun index hOutside => getElem?_patchWords hInside hOutside }

/-- Binding a label takes its fields away and leaves all others where they are.
The target is the end of the code, which is inside it as targets are. -/
theorem bind (h : a.WellPlaced) (hStep : a.bind label = .ok after) : after.WellPlaced := by
  obtain ⟨fields, hPending, -, rfl⟩ := (bind_eq_ok_iff _ _ _).mp hStep
  have hBinds := h.bindsInPlace hPending
  refine ⟨?inside, ?zero, ?targets, ?apart⟩
  case inside =>
    intro field hField
    rw [hBinds.position]
    exact h.inside field (hBinds.remaining.symm.subset (List.mem_append_right _ hField))
  case zero =>
    intro field hField
    rw [hBinds.kept field (List.mem_append_left _ hField)]
    exact h.zero field
      ((openFields_withTarget hPending).symm.subset (List.mem_append_right _ hField))
  case targets =>
    intro target hTarget
    rw [hBinds.position]
    rw [withTarget, labels_patchWords] at hTarget
    rcases List.mem_or_eq_of_mem_set hTarget with hOld | hHere
    · exact h.targets target hOld
    · cases hHere
      exact Nat.le_refl _
  case apart =>
    have hAll := (hBinds.remaining.pairwise_iff FieldsApart.symm).mp h.apart
    exact (List.pairwise_append.mp hAll).2.1

end WellPlaced

end Assembler

end Amd64
