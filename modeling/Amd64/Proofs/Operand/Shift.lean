import Amd64.Proofs.Operand.Translation

/-!
Shifts that were never checked. A memory operand has a scale, which the
constructor makes from a shift. `MemoryFields.toAddress` translates fields that
no constructor has seen, and `MemoryFields.toAddress_eq_scaleShift_iff` says
when the shift in them is a fault. It never is in fields that the constructor
accepts: `MemoryFields.makes_of_make`.
-/

namespace Amd64

/-- The parts of a memory operand with a shift that may be none of a scale. -/
structure MemoryFields where
  type : ValueType
  base : Option VariableId
  index : Option VariableId
  offset : Option Constant
  shift : UInt16

/-- The constructor keeps what it is given, and takes the shifts of scales
only. It has no other condition. -/
theorem MemoryOperand.make_eq_ok_iff (type : ValueType) (base index : Option VariableId)
    (offset : Option Constant) (shift : UInt16) (operand : MemoryOperand) :
    make type base index offset shift = .ok operand ↔
      operand = ofParts type base index offset operand.scale ∧
        operand.scale.shift = shift.toNat := by
  rw [make]
  constructor
  · intro hMake
    cases hScale : Scale.ofShift? shift.toNat with
    | none => simp [hScale] at hMake
    | some scale =>
        simp only [hScale, Except.ok.injEq] at hMake
        subst hMake
        exact ⟨rfl, Scale.shift_of_ofShift? hScale⟩
  · rintro ⟨hParts, hShift⟩
    rw [← hShift, Scale.ofShift?_shift]
    exact congrArg Except.ok hParts.symm

/-- The result is not the fault of a scale that does not exist. -/
def NoScaleFault {α : Type} (result : Except Fault α) : Prop :=
  ∀ shift, result ≠ .error (.scaleShift shift)

namespace NoScaleFault

variable {α β : Type} {result : Except Fault α}

/-- A value is no fault. The lemmas that follow show by shape that nothing
before the scale complains of a shift. -/
theorem ok (value : α) : NoScaleFault (.ok value) := by
  intro shift
  simp

theorem map (h : NoScaleFault result) (change : α → β) : NoScaleFault (result.map change) := by
  intro shift
  cases result with
  | ok value => simp [Except.map]
  | error cause => simpa [Except.map] using h shift

/-- A fault about the scale would have to come from one of the two parts of a
sequence. -/
theorem bind {next : α → Except Fault β} (h : NoScaleFault result)
    (hNext : ∀ value, NoScaleFault (next value)) : NoScaleFault (result >>= next) := by
  intro shift
  cases result with
  | ok value => exact hNext value shift
  | error cause => simpa [Bind.bind, Except.bind] using h shift

end NoScaleFault

/-- A lookup can only complain of a number out of range. -/
theorem Function.lookup_noScaleFault (f : Function) (id : VariableId) :
    NoScaleFault (f.lookup id) := by
  intro shift
  unfold lookup
  split <;> simp

theorem Function.addressNumber_noScaleFault (f : Function) (id : VariableId) :
    NoScaleFault (f.addressNumber id) := by
  intro shift
  have hLookup := f.lookup_noScaleFault id shift
  unfold addressNumber addressRegister
  cases hFound : f.lookup id with
  | error cause => simpa [hFound] using hLookup
  | ok found =>
      rcases hRegister : found.register with _ | number | number <;>
        simp [hRegister, Register.generalNumber]

theorem FrameLayout.rematerialize_noScaleFault (layout : FrameLayout) (var : Variable) :
    NoScaleFault (layout.rematerialize var) := by
  intro shift
  unfold rematerialize
  split
  · split
    · simp
    · split <;> simp
  · simp

namespace MemoryOperand

variable (f : Function) (operand : MemoryOperand)

theorem baseDisplacement_noScaleFault : NoScaleFault (operand.baseDisplacement f) := by
  intro shift
  unfold baseDisplacement rematerializableBase
  cases operand.base with
  | none => simp
  | some id =>
      have hLookup := f.lookup_noScaleFault id shift
      cases hFound : f.lookup id with
      | error cause => simpa [hFound] using hLookup
      | ok found =>
          cases hStored : found.rematerializable with
          | true =>
              simpa [hFound, hStored] using f.frame.layout.rematerialize_noScaleFault found shift
          | false => simp [hFound, hStored]

theorem checkIndex_noScaleFault : NoScaleFault (operand.checkIndex f) := by
  intro shift
  unfold checkIndex
  cases operand.index with
  | none => simp
  | some id =>
      have hLookup := f.lookup_noScaleFault id shift
      cases hFound : f.lookup id with
      | error cause => simpa [hFound] using hLookup
      | ok found =>
          simp only [hFound]
          split <;> simp

/-- An address can only complain of registers, once its scale is a scale. -/
theorem addressWith_noScaleFault (displacement : Int32) (fixup : Option FixupRef) :
    NoScaleFault (operand.addressWith f displacement fixup) := by
  refine .bind ?base fun base => .bind ?index fun index shift => ?_
  case base =>
    unfold baseNumber
    cases operand.base with
    | none => exact .ok none
    | some id => exact (f.addressNumber_noScaleFault id).map some
  case index =>
    unfold scaledIndex
    cases operand.index with
    | none => exact .ok none
    | some id => exact (f.addressNumber_noScaleFault id).map _
  cases index with
  | none => simp [Address.make]
  | some scaled =>
      simp only [Address.make]
      split <;> simp

end MemoryOperand

/-- As a step of a sequence a lookup has the fault that it has on its own. -/
theorem Assembly.ofFaulty_eq_fault_iff {α : Type} (result : Except Fault α) (cause : Fault)
    (a : Assembler) : ofFaulty result a = .fault cause ↔ result = .error cause := by
  cases result <;> simp [ofFaulty]

namespace MemoryFields

def make (fields : MemoryFields) : Except Refusal MemoryOperand :=
  MemoryOperand.make fields.type fields.base fields.index fields.offset fields.shift

/-- The operand with these fields and a scale in place of the shift. -/
def withScale (fields : MemoryFields) (scale : Scale) : MemoryOperand :=
  .ofParts fields.type fields.base fields.index fields.offset scale

/-- The address of an operand with these fields, if nothing has checked the
shift before: it becomes a scale after a fixup is requested and before any
register is looked at. -/
def toAddress (f : Function) (fields : MemoryFields) : Assembly Address := do
  let operand := fields.withScale .one
  let displacement ← Assembly.ofFaulty (operand.baseDisplacement f)
  Assembly.ofFaulty (operand.checkIndex f)
  let fixup ← operand.requestFixup
  let scale ← Assembly.ofFaulty (Scale.ofShift fields.shift.toUInt8)
  Assembly.ofFaulty
    ((fields.withScale scale).addressWith f (displacement + operand.offsetValue) fixup)

/-- With a shift that a scale has, fields that were never checked are
translated like the operand that they make. -/
theorem toAddress_of_ofShift {fields : MemoryFields} {scale : Scale}
    (h : Scale.ofShift fields.shift.toUInt8 = .ok scale) (f : Function) :
    fields.toAddress f = (fields.withScale scale).toAddress f := by
  unfold toAddress
  simp only [Assembly.ofFaulty_bind h]
  rfl

/-- The shift is looked at once the displacement of the base and the index are
found to be right, in the code that has the fixup. What comes before it does
not depend on the shift. -/
theorem toAddress_of_checked {f : Function} {fields : MemoryFields} {displacement : Int32}
    (hDisplacement : (fields.withScale .one).baseDisplacement f = .ok displacement)
    (hCheck : (fields.withScale .one).checkIndex f = .ok ()) (a : Assembler) :
    fields.toAddress f a =
      (Assembly.ofFaulty (Scale.ofShift fields.shift.toUInt8) >>= fun scale =>
        Assembly.ofFaulty ((fields.withScale scale).addressWith f
          (displacement + (fields.withScale .one).offsetValue)
          ((fields.withScale .one).carried a)))
        (a.withFixups (fields.withScale .one).requested) := by
  simp only [toAddress, Assembly.ofFaulty_bind hDisplacement, Assembly.ofFaulty_bind hCheck]
  rw [Assembly.bind_apply, MemoryOperand.requestFixup_apply]

/-- A shift that was never checked is a fault of its own where it is looked at.
A fault of the base or of the index comes first and hides it. -/
theorem toAddress_eq_scaleShift_iff (f : Function) (fields : MemoryFields) (a : Assembler)
    (shift : UInt8) :
    fields.toAddress f a = .fault (.scaleShift shift) ↔
      shift = fields.shift.toUInt8 ∧ 3 < shift.toNat ∧
        (∃ displacement, (fields.withScale .one).baseDisplacement f = .ok displacement) ∧
        (fields.withScale .one).checkIndex f = .ok () := by
  cases hDisplacement : (fields.withScale .one).baseDisplacement f with
  | error cause =>
      have hOther := (fields.withScale .one).baseDisplacement_noScaleFault f shift
      simpa [toAddress, Assembly.ofFaulty, hDisplacement] using hOther
  | ok displacement =>
      cases hCheck : (fields.withScale .one).checkIndex f with
      | error cause =>
          have hOther := (fields.withScale .one).checkIndex_noScaleFault f shift
          simpa [toAddress, Assembly.ofFaulty, hDisplacement, hCheck] using hOther
      | ok checked =>
          -- Neither check depends on the scale, so that any scale may stand in for the right one.
          rw [toAddress_of_checked hDisplacement hCheck]
          cases hScale : Scale.ofShift? fields.shift.toUInt8.toNat with
          | some scale =>
              have hLe := Scale.shift_of_ofShift? hScale ▸ scale.shift_le
              have hOther := (fields.withScale scale).addressWith_noScaleFault f
                (displacement + (fields.withScale .one).offsetValue)
                ((fields.withScale .one).carried a) shift
              rw [Scale.ofShift, hScale, Assembly.ofFaulty_bind rfl, Assembly.ofFaulty_eq_fault_iff]
              refine iff_of_false hOther ?_
              rintro ⟨rfl, hLarge, -⟩
              exact Nat.not_le_of_lt hLarge hLe
          | none =>
              have hLarge := (Scale.ofShift?_eq_none_iff _).mp hScale
              have hFault : Scale.ofShift fields.shift.toUInt8 =
                  .error (.scaleShift fields.shift.toUInt8) := by rw [Scale.ofShift, hScale]
              rw [Assembly.bind_apply, hFault]
              constructor
              · intro hSame
                cases hSame
                exact ⟨rfl, hLarge, ⟨displacement, rfl⟩, rfl⟩
              · rintro ⟨rfl, -⟩
                rfl

/-- What the constructor makes of fields that it accepts. -/
structure Makes (fields : MemoryFields) (operand : MemoryOperand) : Prop where
  made : fields.make = .ok operand
  shift_le : fields.shift ≤ 3
  shift : operand.scale.shift = fields.shift.toNat
  /-- The uses are the base and then the index, whichever are present. -/
  uses : operand.uses.toList = fields.base.toList ++ fields.index.toList
  collected : MemoryOperand.collectUses fields.base fields.index = .ok operand.uses
  /-- Looking at the shift again makes no difference to the address. -/
  address : ∀ f, fields.toAddress f = operand.toAddress f
  inRange : ∀ f a shift, operand.toAddress f a ≠ .fault (.scaleShift shift)

/-- An operand that the constructor makes has a shift in range, the use list
that is collected from its base and its index, and the address that its fields
have. -/
theorem makes_of_make {fields : MemoryFields} {operand : MemoryOperand}
    (h : fields.make = .ok operand) : fields.Makes operand := by
  obtain ⟨hParts, hShift⟩ := (MemoryOperand.make_eq_ok_iff _ _ _ _ _ _).mp h
  have hLe : fields.shift ≤ 3 := by
    rw [UInt16.le_iff_toNat_le, ← hShift]
    exact operand.scale.shift_le
  have hSmall : fields.shift.toUInt8.toNat = fields.shift.toNat := by
    rw [UInt16.toNat_toUInt8, Nat.mod_eq_of_lt]
    exact Nat.lt_of_le_of_lt (UInt16.le_iff_toNat_le.mp hLe) (by decide)
  have hScale : Scale.ofShift fields.shift.toUInt8 = .ok operand.scale := by
    rw [Scale.ofShift, hSmall, ← hShift, Scale.ofShift?_shift]
  have hOperand : fields.withScale operand.scale = operand := hParts.symm
  have hAddress (f : Function) : fields.toAddress f = operand.toAddress f := by
    rw [toAddress_of_ofShift hScale, hOperand]
  refine ⟨h, hLe, hShift, ?_, ?_, hAddress, ?_⟩
  · rw [operand.toList_uses, hParts]
    rfl
  · rw [← operand.collected, hParts]
    rfl
  · intro f a shift hFault
    rw [← hAddress, toAddress_eq_scaleShift_iff] at hFault
    obtain ⟨rfl, hLarge, -⟩ := hFault
    rw [hSmall] at hLarge
    exact Nat.not_le_of_lt hLarge (UInt16.le_iff_toNat_le.mp hLe)

end MemoryFields

end Amd64
