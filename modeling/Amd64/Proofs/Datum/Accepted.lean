import Amd64.Datum.Code
import Amd64.Instruction.Basic
import Amd64.Proofs.Operand.Shift
import Mathlib.Data.List.Forall2

/-!
What data is accepted. Whatever is read as a memory operand, alone or inside an
operand or an instruction, was made by the constructor from the fields that
stand there, so that no data makes an operand that the constructor refuses.
`MemoryOperand.load_eq_ok_iff` says so for one operand, and `ReadsOperands`
carries it to the values that contain operands.
-/

namespace Amd64

open Datum

/-- A type whose values are read from their own stored form and from nothing
else. -/
class ExactStorable (α : Type) [Storable α] : Prop where
  load_eq_ok_iff : ∀ (d : Datum) (value : α), load d = .ok value ↔ d = store value

namespace Datum

/-- Only an integer is read as a number, and only between the bounds. Text that
looks like one is not. -/
theorem integerIn_eq_ok_iff (low high : Int) (d : Datum) (n : Int) :
    d.integerIn low high = .ok n ↔ d = integer n ∧ low ≤ n ∧ n ≤ high := by
  cases d with
  | integer value =>
      rw [integerIn]
      split
      case isTrue hRange =>
        simp only [Except.ok.injEq, integer.injEq]
        constructor
        · rintro rfl
          exact ⟨rfl, hRange⟩
        · exact fun h => h.1
      case isFalse hRange =>
        simp only [reduceCtorEq, integer.injEq, false_iff]
        rintro ⟨rfl, hLow, hHigh⟩
        exact hRange ⟨hLow, hHigh⟩
  | null | boolean | fraction | string | array | object => simp [integerIn]

/-- A number that is not negative is read exactly from the integer that it is.
The bound is the largest number of the type. -/
theorem map_integerIn_eq_ok_iff {α : Type} {make : Nat → α} {number : α → Nat} (bound : Nat)
    (hMake : ∀ value, make (number value) = value)
    (hNumber : ∀ n ≤ bound, number (make n) = n) (hBound : ∀ value, number value ≤ bound)
    (d : Datum) (value : α) :
    (d.integerIn 0 bound).map (fun n => make n.toNat) = .ok value ↔ d = integer (number value) := by
  simp only [Except.map_eq_ok_iff, integerIn_eq_ok_iff]
  constructor
  · rintro ⟨n, ⟨rfl, hLow, hHigh⟩, rfl⟩
    rw [hNumber n.toNat (by omega), Int.toNat_of_nonneg hLow]
  · rintro rfl
    exact ⟨_, ⟨rfl, Int.natCast_nonneg _, Int.ofNat_le.mpr (hBound value)⟩, (hMake value).symm⟩

end Datum

instance : ExactStorable UInt16 where
  load_eq_ok_iff := map_integerIn_eq_ok_iff 65535 (fun _ => UInt16.ofNat_toNat)
    (fun n _ => UInt16.toNat_ofNat_of_lt' (show n < 65536 by omega))
    fun value => Nat.le_of_lt_succ value.toNat_lt

instance : ExactStorable UInt32 where
  load_eq_ok_iff := map_integerIn_eq_ok_iff 4294967295 (fun _ => UInt32.ofNat_toNat)
    (fun n _ => UInt32.toNat_ofNat_of_lt' (show n < 4294967296 by omega))
    fun value => Nat.le_of_lt_succ value.toNat_lt

instance : ExactStorable VariableId where
  load_eq_ok_iff d id := by
    change (load d).map VariableId.mk = .ok id ↔ d = store id.number
    rw [Except.map_eq_ok_iff, ← ExactStorable.load_eq_ok_iff]
    constructor
    · rintro ⟨number, hNumber, rfl⟩
      exact hNumber
    · intro hNumber
      exact ⟨id.number, hNumber, rfl⟩

instance {α : Type} [Storable α] [ExactStorable α] : ExactStorable (List α) where
  load_eq_ok_iff d values := by
    have hParts (parts : List Datum) (values : List α) :
        parts.mapM load = .ok values ↔ parts = values.map store := by
      induction parts generalizing values with
      | nil =>
          rw [List.nil_eq, List.map_eq_nil_iff]
          exact ⟨fun h => by cases h; rfl, fun h => by rw [h]; rfl⟩
      | cons part rest ih =>
          simp only [List.mapM_cons, Except.bind_eq_ok_iff, ih, ExactStorable.load_eq_ok_iff]
          constructor
          · rintro ⟨value, rfl, others, rfl, hEnd⟩
            cases hEnd
            rfl
          · intro hStored
            cases values with
            | nil => cases hStored
            | cons value others =>
                cases hStored
                exact ⟨value, rfl, others, rfl, rfl⟩
    change (d.elements >>= fun parts => parts.mapM load) = .ok values ↔ d = array (values.map store)
    simp only [Except.bind_eq_ok_iff, hParts]
    cases d with
    | array parts => simp [elements]
    | null | boolean | integer | fraction | string | object => simp [elements]

instance : ExactStorable UseList where
  load_eq_ok_iff d uses := by
    change (do
      let ids ← load d
      match UseList.ofList? ids with
      | some uses => .ok uses
      | none => .error (.tooManyUses ids.length)) = Except.ok uses ↔ d = store uses.toList
    rw [Except.bind_eq_ok_iff, ← ExactStorable.load_eq_ok_iff]
    constructor
    · rintro ⟨ids, hIds, hUses⟩
      have hFits : ids.length ≤ 2 := by
        by_cases hLength : ids.length ≤ 2
        · exact hLength
        · simp [UseList.ofList?, hLength] at hUses
      simp only [UseList.ofList?, hFits, dif_pos, Except.ok.injEq] at hUses
      rw [← hUses]
      exact hIds
    · intro hIds
      refine ⟨uses.toList, hIds, ?_⟩
      rw [UseList.ofList?_toList]

namespace Datum

theorem required_eq_ok_iff {α : Type} (value : Option α) (found : α) :
    required value = .ok found ↔ value = some found := by
  cases value <;> simp [required]

variable {α : Type} [Storable α] (entries : List (String × Datum)) (name : String)

/-- The field is there and is read as the value. -/
def HasField (value : α) : Prop :=
  ∃ part, entries.lookup name = some part ∧ load part = .ok value

/-- The field is read as the value, and is null if it is not there. -/
def HasOptionalField (value : Option α) : Prop :=
  (entries.lookup name = none ∧ value = none) ∨ HasField entries name value

variable {entries name}

/-- Looking for a field finds nothing if no entry has its name, and otherwise
what the entry says, provided that this can be read. -/
theorem field?_eq_ok_iff (value : Option α) :
    field? entries name = .ok value ↔
      (entries.lookup name = none ∧ value = none) ∨
        ∃ found, HasField entries name found ∧ value = some found := by
  unfold field? HasField
  cases entries.lookup name with
  | none => simp [eq_comm]
  | some part => simp [Except.map_eq_ok_iff]

/-- A field that may be left out is absent without an entry, and also if the
entry is null. -/
theorem optionalField_eq_ok_iff (value : Option α) :
    optionalField entries name = .ok value ↔ HasOptionalField entries name value := by
  simp only [optionalField, Except.map_eq_ok_iff, field?_eq_ok_iff, HasOptionalField]
  constructor
  · rintro ⟨_, ⟨hMissing, rfl⟩ | ⟨found, hFound, rfl⟩, rfl⟩
    · exact Or.inl ⟨hMissing, rfl⟩
    · exact Or.inr hFound
  · rintro (⟨hMissing, rfl⟩ | hFound)
    · exact ⟨none, Or.inl ⟨hMissing, rfl⟩, rfl⟩
    · exact ⟨some value, Or.inr ⟨value, hFound, rfl⟩, rfl⟩

end Datum

namespace MemoryFields

/-- These entries state the fields and nothing else. -/
structure StatedIn (entries : List (String × Datum)) (fields : MemoryFields) : Prop where
  known : ∀ entry ∈ entries, entry.1 ∈ MemoryOperand.fieldNames
  type : HasField entries "ty" fields.type
  base : HasOptionalField entries "base" fields.base
  index : HasOptionalField entries "index" fields.index
  offset : HasOptionalField entries "offset" fields.offset
  shift : entries.lookup "shift" = some (integer fields.shift.toNat)

end MemoryFields

/-- The operand is what the constructor makes of the fields that the data
states. -/
def MemoryOperand.MadeFrom (d : Datum) (operand : MemoryOperand) : Prop :=
  ∃ entries fields, d.recordFields fieldNames = .ok entries ∧
    MemoryFields.StatedIn entries fields ∧ fields.Makes operand

/-- A record is read as a memory operand exactly if the constructor makes it
from the fields that the record states. -/
theorem MemoryOperand.load_eq_ok_iff (d : Datum) (operand : MemoryOperand) :
    load d = .ok operand ↔ operand.MadeFrom d := by
  simp only [load]
  rw [Except.bind_eq_ok_iff]
  refine exists_congr fun entries => ?_
  have hKnown : (entries.all fun entry => MemoryOperand.fieldNames.contains entry.1) = true ↔
      ∀ entry ∈ entries, entry.1 ∈ MemoryOperand.fieldNames := by
    simp only [List.all_eq_true, List.contains_iff_mem]
  constructor
  · rintro ⟨hEntries, hRead⟩
    split at hRead
    case isFalse => cases hRead
    case isTrue hAll =>
      simp only [Except.bind_eq_ok_iff, optionalField_eq_ok_iff, field?_eq_ok_iff,
        required_eq_ok_iff] at hRead
      obtain ⟨base, hBase, index, hIndex, offset, hOffset, _, hShift, _, hType, shift, rfl, type,
        rfl, hMake⟩ := hRead
      obtain ⟨-, hNone⟩ | ⟨_, ⟨part, hPart, hLoad⟩, hFound⟩ := hShift
      · cases hNone
      obtain ⟨-, hNone⟩ | ⟨_, hTypeField, hFoundType⟩ := hType
      · cases hNone
      cases hFound
      cases hFoundType
      obtain rfl := (ExactStorable.load_eq_ok_iff _ _).mp hLoad
      refine ⟨⟨type, base, index, offset, shift⟩, hEntries,
        ⟨hKnown.mp hAll, hTypeField, hBase, hIndex, hOffset, hPart⟩,
        MemoryFields.makes_of_make ?_⟩
      rw [MemoryFields.make]
      cases hMade : MemoryOperand.make type base index offset shift with
      | ok made => simpa only [hMade, Except.ok.injEq] using hMake
      | error reason => simp only [hMade, reduceCtorEq] at hMake
  · rintro ⟨⟨type, base, index, offset, shift⟩, hEntries, hStated, hMakes⟩
    refine ⟨hEntries, ?_⟩
    rw [if_pos (hKnown.mpr hStated.known)]
    simp only [Except.bind_eq_ok_iff, optionalField_eq_ok_iff, field?_eq_ok_iff,
      required_eq_ok_iff]
    have hShift : HasField entries "shift" shift :=
      ⟨_, hStated.shift, (ExactStorable.load_eq_ok_iff _ _).mpr rfl⟩
    refine ⟨base, hStated.base, index, hStated.index, offset, hStated.offset, some shift,
      .inr ⟨shift, hShift, rfl⟩, some type, .inr ⟨type, hStated.type, rfl⟩, shift, rfl, type, rfl,
      ?_⟩
    have hMade := hMakes.made
    rw [MemoryFields.make] at hMade
    rw [hMade]

/-- The data states what no memory operand has: a field under another name, or
a shift that is none of a scale. -/
inductive Datum.Forged : Datum → Prop where
  | field {entries : List (String × Datum)} {entry : String × Datum} (hEntry : entry ∈ entries)
      (hUnknown : entry.1 ∉ MemoryOperand.fieldNames) : Forged (object entries)
  | shift {d : Datum} {entries : List (String × Datum)} {shift : Int}
      (hEntries : d.recordFields MemoryOperand.fieldNames = .ok entries)
      (hShift : entries.lookup "shift" = some (integer shift)) (hLarge : 3 < shift) : Forged d

/-- Nothing is made from forged data, because the constructor is not asked at
all or refuses the shift. -/
theorem Datum.Forged.not_madeFrom {d : Datum} (h : d.Forged) (operand : MemoryOperand) :
    ¬ operand.MadeFrom d := by
  rintro ⟨entries, fields, hEntries, hStated, hMakes⟩
  cases h with
  | field hEntry hUnknown =>
      cases hEntries
      exact hUnknown (hStated.known _ hEntry)
  | @shift _ _ shift hAgain hShift hLarge =>
      cases hEntries.symm.trans hAgain
      have hSame : shift = fields.shift.toNat := by
        have hNumber := hShift.symm.trans hStated.shift
        rwa [Option.some.injEq, integer.injEq] at hNumber
      have hLe := UInt16.le_iff_toNat_le.mp hMakes.shift_le
      change fields.shift.toNat ≤ 3 at hLe
      omega

/-- Values of a type are read so that each memory operand in them is made from
what stands at its place. The places are listed in the order of the
operands. -/
structure ReadsOperands (α : Type) [Storable α] (places : Datum → List Datum)
    (operands : α → List MemoryOperand) : Prop where
  made : ∀ (d : Datum) (value : α), load d = .ok value →
    List.Forall₂ MemoryOperand.MadeFrom (places d) (operands value)
  /-- Forged data at one of the places spoils everything around it. -/
  rejected : ∀ d, ∀ part ∈ places d, part.Forged →
    ∃ error, (load d : Except LoadError α) = .error error

/-- It is enough to know that operands are made from what stands at their
places. That forged data is refused follows, since nothing is made from it. -/
theorem ReadsOperands.of_made {α : Type} [Storable α] {places : Datum → List Datum}
    {operands : α → List MemoryOperand}
    (h : ∀ (d : Datum) (value : α), load d = .ok value →
      List.Forall₂ MemoryOperand.MadeFrom (places d) (operands value)) :
    ReadsOperands α places operands := by
  refine ⟨h, fun d part hPart hForged => ?_⟩
  cases hLoad : (load d : Except LoadError α) with
  | error error => exact ⟨error, rfl⟩
  | ok value =>
      obtain ⟨index, hIndex, rfl⟩ := List.mem_iff_getElem.mp hPart
      have hAll := h d value hLoad
      have hMade := hAll.get hIndex (hAll.length_eq ▸ hIndex)
      exact absurd hMade (hForged.not_madeFrom _)

/-! Where memory operands stand in the data of operands and instructions. -/

theorem Datum.asCaseOf_eq_ok_iff (d : Datum) (name : String) (content : Datum) :
    d.asCaseOf = .ok (name, content) ↔ d = object [(name, content)] := by
  unfold asCaseOf asCase
  constructor
  · intro h
    split at h
    case h_1 hCase =>
      split at hCase
      · cases hCase
      · cases hCase
        cases h
        rfl
      · cases hCase
    case h_2 => cases h
    case h_3 => cases h
  · rintro rfl
    rfl

theorem Datum.fields_eq_ok_iff (d : Datum) (entries : List (String × Datum)) :
    d.fields = .ok entries ↔ d = object entries := by
  cases d <;> simp [fields]

theorem Datum.HasField.of_required {α : Type} [Storable α] {entries : List (String × Datum)}
    {name : String} {found : Option α} {value : α} (hField : field? entries name = .ok found)
    (hRequired : required found = .ok value) : HasField entries name value := by
  rw [required_eq_ok_iff] at hRequired
  subst hRequired
  obtain ⟨-, hNone⟩ | ⟨_, hHas, hSame⟩ := (field?_eq_ok_iff _).mp hField
  · cases hNone
  · cases hSame
    exact hHas

namespace Operand

def memoryOperands : Operand → List MemoryOperand
  | memory operand => [operand]
  | _ => []

/-- The stored memory operand in the data of an operand. -/
def memoryPlaces : Datum → List Datum
  | object [("Mem", content)] => [content]
  | _ => []

/-- A memory operand in an operand stands in the content of its case, and the
other cases have none. -/
theorem readsOperands : ReadsOperands Operand memoryPlaces memoryOperands := by
  refine .of_made fun d operand hLoad => ?_
  obtain ⟨⟨name, content⟩, hCase, hRead⟩ := (Except.bind_eq_ok_iff _ _ _).mp hLoad
  obtain rfl := (asCaseOf_eq_ok_iff _ _ _).mp hCase
  split at hRead
  case h_1 hName =>
    cases hName
    obtain ⟨id, -, rfl⟩ := (Except.map_eq_ok_iff _ _ _).mp hRead
    exact .nil
  case h_2 hName =>
    cases hName
    obtain ⟨value, -, rfl⟩ := (Except.map_eq_ok_iff _ _ _).mp hRead
    exact .nil
  case h_3 hName =>
    cases hName
    obtain ⟨operand, hOperand, rfl⟩ := (Except.map_eq_ok_iff _ _ _).mp hRead
    exact .cons ((MemoryOperand.load_eq_ok_iff _ _).mp hOperand) .nil
  case h_4 hName =>
    cases hName
    obtain ⟨part, -, rfl⟩ := (Except.map_eq_ok_iff _ _ _).mp hRead
    exact .nil
  case h_5 => cases hRead

end Operand

namespace Instruction

def memoryOperands (instruction : Instruction) : List MemoryOperand :=
  instruction.operands.flatMap Operand.memoryOperands

/-- The stored memory operand in a field that holds an operand. -/
def fieldPlaces (entries : List (String × Datum)) (name : String) : List Datum :=
  (entries.lookup name).toList.flatMap Operand.memoryPlaces

/-- The stored memory operands in the data of an instruction. -/
def memoryPlaces : Datum → List Datum
  | object [("Mov", object entries)] => fieldPlaces entries "dest" ++ fieldPlaces entries "src"
  | object [("Lea", object entries)] => (entries.lookup "src").toList
  | object [("Setcc", object entries)] => fieldPlaces entries "dest"
  | object [("Cmpps", object entries)] => fieldPlaces entries "src"
  | _ => []

theorem made_of_hasField {entries : List (String × Datum)} {name : String} {operand : Operand}
    (h : HasField entries name operand) :
    List.Forall₂ MemoryOperand.MadeFrom (fieldPlaces entries name) operand.memoryOperands := by
  obtain ⟨part, hPart, hLoad⟩ := h
  rw [fieldPlaces, hPart]
  simpa using Operand.readsOperands.made part operand hLoad

/-- The memory operands of an instruction stand in its fields, in the order of
the operands. Instructions without an operand have no such places. -/
theorem readsOperands : ReadsOperands Instruction memoryPlaces memoryOperands := by
  refine .of_made fun d instruction hLoad => ?_
  obtain ⟨⟨name, content⟩, hCase, hRead⟩ := (Except.bind_eq_ok_iff _ _ _).mp hLoad
  obtain rfl := (asCaseOf_eq_ok_iff _ _ _).mp hCase
  simp only at hRead
  split at hRead
  case h_1 =>
    simp only [Except.bind_eq_ok_iff, fields_eq_ok_iff] at hRead
    obtain ⟨entries, rfl, _, hDestField, _, hSrcField, _, -, type, -, dest, hDest, src, hSrc,
      hEnd⟩ := hRead
    cases hEnd
    have hDestMade := made_of_hasField (.of_required hDestField hDest)
    have hSrcMade := made_of_hasField (.of_required hSrcField hSrc)
    simpa [memoryPlaces, memoryOperands, operands] using List.rel_append hDestMade hSrcMade
  case h_2 =>
    simp only [Except.bind_eq_ok_iff, fields_eq_ok_iff] at hRead
    obtain ⟨entries, rfl, _, -, _, hSrcField, dest, -, src, hSrc, hEnd⟩ := hRead
    cases hEnd
    obtain ⟨part, hPart, hSrcLoad⟩ := HasField.of_required hSrcField hSrc
    simp only [memoryPlaces, hPart]
    exact .cons ((MemoryOperand.load_eq_ok_iff _ _).mp hSrcLoad) .nil
  case h_3 =>
    simp only [Except.bind_eq_ok_iff, fields_eq_ok_iff] at hRead
    obtain ⟨entries, rfl, _, -, _, -, condition, -, target, -, hEnd⟩ := hRead
    cases hEnd
    exact .nil
  case h_4 =>
    simp only [Except.bind_eq_ok_iff, fields_eq_ok_iff] at hRead
    obtain ⟨entries, rfl, _, -, _, hDestField, condition, -, dest, hDest, hEnd⟩ := hRead
    cases hEnd
    have hDestMade := made_of_hasField (.of_required hDestField hDest)
    simpa [memoryPlaces, memoryOperands, operands] using hDestMade
  case h_5 =>
    simp only [Except.bind_eq_ok_iff, fields_eq_ok_iff] at hRead
    obtain ⟨entries, rfl, _, -, _, -, _, hSrcField, predicate, -, dest, -, src, hSrc, hEnd⟩ := hRead
    cases hEnd
    have hSrcMade := made_of_hasField (.of_required hSrcField hSrc)
    simpa [memoryPlaces, memoryOperands, operands] using hSrcMade
  case h_6 => cases hRead

end Instruction

/-- Data cannot forge an operand. Each memory operand that is read, alone or
inside an operand or an instruction, is made by the constructor from the fields
at its place, so that its shift is one of a scale, its uses are the base and
the index, and translating it cannot stumble over the shift. Data with another
field or a larger shift at any of the places is not read. A use list is read
exactly from an array of at most two numbers of 32 bits, in their order. -/
theorem data_forges_no_operand :
    ReadsOperands MemoryOperand (fun d => [d]) (fun operand => [operand]) ∧
    ReadsOperands Operand Operand.memoryPlaces Operand.memoryOperands ∧
    ReadsOperands Instruction Instruction.memoryPlaces Instruction.memoryOperands ∧
    (∀ (d : Datum) (uses : UseList),
      load d = .ok uses ↔ d = array (uses.toList.map fun id => integer id.number.toNat)) ∧
    ∀ d : Datum, (∃ uses : UseList, load d = .ok uses) ↔
      ∃ numbers : List UInt32, numbers.length ≤ 2 ∧
        d = array (numbers.map fun number => integer number.toNat) := by
  refine ⟨?operand, Operand.readsOperands, Instruction.readsOperands,
    ExactStorable.load_eq_ok_iff, ?uses⟩
  case operand =>
    exact .of_made fun d operand hLoad =>
      .cons ((MemoryOperand.load_eq_ok_iff d operand).mp hLoad) .nil
  case uses =>
    intro d
    simp only [ExactStorable.load_eq_ok_iff]
    constructor
    · rintro ⟨uses, rfl⟩
      refine ⟨uses.toList.map VariableId.number, ?_, ?_⟩
      · rw [List.length_map]
        exact uses.length_le
      · rw [List.map_map]
        rfl
    · rintro ⟨numbers, hLength, rfl⟩
      refine ⟨⟨numbers.map VariableId.mk, by rwa [List.length_map]⟩, ?_⟩
      change _ = array ((numbers.map VariableId.mk).map store)
      rw [List.map_map]
      rfl

/-- A copy between two stored memory operands, one of them an array. With a use
list of its own in one of them, or with a shift of seven in the other, the copy
is not read. -/
theorem data_forges_no_operand_copy :
    let copy (dest src : Datum) : Datum := object [("Mov", object [("src", object [("Mem", src)]),
      ("note", null), ("ty", string "I32"), ("dest", object [("Mem", dest)])])]
    let dest (more : List (String × Datum)) : Datum := object (("shift", integer 0) ::
      ("ty", string "I32") :: ("base", integer 4294967295) :: more)
    let src (shift : Int) : Datum :=
      array [string "I32", integer 1, integer 0, null, integer shift]
    let forgedUses : Datum := object [("items", array [null, null]), ("len", integer 9)]
    let instruction : Instruction := .mov .i32
      (.memory (.ofParts .i32 (some ⟨4294967295⟩) none none .one))
      (.memory (.ofParts .i32 (some ⟨1⟩) (some ⟨0⟩) none .eight))
    load (copy (dest []) (src 3)) = .ok instruction ∧
      List.Forall₂ MemoryOperand.MadeFrom [dest [], src 3] instruction.memoryOperands ∧
      (∃ error, (load (copy (dest [("vars", forgedUses)]) (src 3)) : Except LoadError Instruction) =
        .error error) ∧
      (∃ error, (load (copy (dest []) (src 7)) : Except LoadError Instruction) = .error error) ∧
      ∃ uses : UseList, load (array [integer 7, integer 7]) = .ok uses := by
  intro copy dest src forgedUses instruction
  obtain ⟨-, -, hInstruction, -, hUses⟩ := data_forges_no_operand
  have hLoad : load (copy (dest []) (src 3)) = .ok instruction := by rfl
  refine ⟨hLoad, hInstruction.made _ _ hLoad, ?_, ?_, (hUses _).mpr ⟨[7, 7], by decide, rfl⟩⟩
  · refine hInstruction.rejected _ (dest [("vars", forgedUses)]) (.head _) ?_
    have hEntry : ("vars", forgedUses) ∈ ("shift", integer 0) :: ("ty", string "I32") ::
        ("base", integer 4294967295) :: [("vars", forgedUses)] := by simp
    exact .field hEntry (by decide)
  · exact hInstruction.rejected _ (src 7) (.tail _ (.head _)) (.shift rfl rfl (by decide))

end Amd64
