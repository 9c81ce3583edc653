import Amd64.Datum.Code
import Amd64.Proofs.Assembler.Ending

/-!
What is stored is read back as what it was. `LawfulStorable` says so of every
value of a type, and the types that are made of others inherit it field by
field. The one number that is not limited by its type is the position of a
fixup, which is stored in 64 bits.
-/

namespace Amd64

open Datum

/-- Storing a value loses nothing of it. -/
class LawfulStorable (α : Type) [Storable α] : Prop where
  load_store : ∀ value : α, load (store value) = .ok value

export LawfulStorable (load_store)

attribute [simp] load_store

/-- Values that are never stored as null, so that null is left for their
absence. -/
class NeverNull (α : Type) [Storable α] : Prop where
  store_ne_null : ∀ value : α, store value ≠ null

/-! Numbers, texts and names. -/

theorem Datum.integerIn_integer {low high n : Int} (hLow : low ≤ n) (hHigh : n ≤ high) :
    integerIn low high (integer n) = .ok n := by
  rw [integerIn, if_pos ⟨hLow, hHigh⟩]

/-- A number that is not negative is read back through its size, as long as it
is not above the bound. -/
theorem Datum.map_integerIn_natCast {α : Type} (make : Nat → α) (bound : Nat) {n : Nat}
    (h : n ≤ bound) :
    (integerIn 0 bound (integer n)).map (fun number => make number.toNat) = .ok (make n) := by
  rw [integerIn_integer (Int.natCast_nonneg _) (Int.ofNat_le.mpr h)]
  rfl

/-- A name alone is read as the value that it names. -/
theorem Datum.loadTag_string {α : Type} {ofTag? : String → Option α} {tag : String} {value : α}
    (h : ofTag? tag = some value) : loadTag ofTag? (string tag) = .ok value := by
  simp only [loadTag, asCase, h]

instance : LawfulStorable Bool where
  load_store _ := rfl

instance : LawfulStorable String where
  load_store _ := rfl

instance : LawfulStorable UInt8 where
  load_store value := by
    have hHigh := value.toNat_lt
    exact (map_integerIn_natCast UInt8.ofNat 255 (by omega)).trans (by rw [UInt8.ofNat_toNat])

instance : LawfulStorable UInt32 where
  load_store value := by
    have hHigh := value.toNat_lt
    exact (map_integerIn_natCast UInt32.ofNat 4294967295 (by omega)).trans
      (by rw [UInt32.ofNat_toNat])

instance : LawfulStorable Int32 where
  load_store value := by
    have hLow := value.le_toInt
    have hHigh := value.toInt_lt
    change (integerIn (-2147483648) 2147483647 (integer value.toInt)).map Int32.ofInt = .ok value
    rw [integerIn_integer (by omega) (by omega), Except.map, Int32.ofInt_toInt]

/-- A number of 64 bits is read back. Larger ones do not occur in data that was
stored. -/
theorem load_store_of_lt {n : Nat} (h : n < 18446744073709551616) : load (store n) = .ok n :=
  map_integerIn_natCast id 18446744073709551615 (by omega)

instance : LawfulStorable ValueType where
  load_store type := loadTag_string type.ofTag?_tag

instance : LawfulStorable Register where
  load_store register := loadTag_string register.ofTag?_tag

instance : LawfulStorable Condition where
  load_store condition := loadTag_string condition.ofTag?_tag

instance : LawfulStorable Predicate where
  load_store predicate := loadTag_string predicate.ofTag?_tag

instance : LawfulStorable Scale where
  load_store scale := loadTag_string scale.ofTag?_tag

instance : LawfulStorable Half where
  load_store half := loadTag_string half.ofTag?_tag

instance : LawfulStorable FixupKind where
  load_store kind := loadTag_string kind.ofTag?_tag

instance : LawfulStorable VariableId where
  load_store id := by
    change (load (store id.number)).map VariableId.mk = .ok id
    rw [load_store]
    rfl

instance : LawfulStorable Label where
  load_store label := by
    change (load (store label.number)).map Label.mk = .ok label
    rw [load_store]
    rfl

instance : LawfulStorable FixupRef where
  load_store ref := by
    change (load (store ref.number)).map FixupRef.mk = .ok ref
    rw [load_store]
    rfl

instance : LawfulStorable RegisterNumber where
  load_store register := by
    change (load (store register.value)).map RegisterNumber.mk = .ok register
    rw [load_store]
    rfl

/-! Optional values and lists. -/

instance : NeverNull Nat where
  store_ne_null _ := Datum.noConfusion

instance : NeverNull Register where
  store_ne_null _ := Datum.noConfusion

instance : NeverNull VariableId where
  store_ne_null _ := Datum.noConfusion

instance : NeverNull FixupRef where
  store_ne_null _ := Datum.noConfusion

instance : NeverNull Constant where
  store_ne_null value := by cases value <;> exact Datum.noConfusion

section

variable {α : Type} [Storable α]

/-- An optional value is read back if it is absent or read back itself. Null
stands for its absence, and so may not stand for a value. -/
theorem load_store_option [NeverNull α] {value : Option α}
    (h : ∀ found ∈ value, load (store found) = .ok found) : load (store value) = .ok value := by
  cases value with
  | none => rfl
  | some found =>
      have hFound : load (store found) = .ok found := h found rfl
      have hPresent := NeverNull.store_ne_null found
      change load (α := Option α) (store found) = _
      cases hStored : store found with
      | null => exact absurd hStored hPresent
      | boolean | integer | fraction | string | array | object =>
          rw [hStored] at hFound
          change (load (α := α) _).map some = _
          rw [hFound]
          rfl

instance [NeverNull α] [LawfulStorable α] : LawfulStorable (Option α) where
  load_store _ := load_store_option fun found _ => load_store found

/-- A list is read back if each of its elements is. The order is that of the
array. -/
theorem load_store_list {values : List α} (h : ∀ value ∈ values, load (store value) = .ok value) :
    load (store values) = .ok values := by
  change (values.map store).mapM load = .ok values
  induction values with
  | nil => rfl
  | cons value rest ih =>
      rw [List.map_cons, List.mapM_cons, h value (.head _),
        ih fun other hOther => h other (.tail _ hOther)]
      rfl

instance [LawfulStorable α] : LawfulStorable (List α) where
  load_store _ := load_store_list fun value _ => load_store value

end

instance : LawfulStorable UseList where
  load_store uses := by
    refine (Except.bind_eq_ok_iff _ _ _).mpr ⟨uses.toList, load_store _, ?_⟩
    simp only [UseList.ofList?_toList]

/-! Records. -/

instance : LawfulStorable Relocatable where
  load_store target := by
    change (do
      let addend ← (load (store target.addend)).map some
      let symbol ← (load (store target.symbol)).map some
      return (⟨← required symbol, ← required addend⟩ : Relocatable)) = .ok target
    simp only [load_store]
    rfl

instance : LawfulStorable Constant where
  load_store
    | .integer value => by
        change (load (store value)).map Constant.integer = _
        rw [load_store]
        rfl
    | .relocatable target => by
        change (load (store target)).map Constant.relocatable = _
        rw [load_store]
        rfl

instance : LawfulStorable FrameConfig where
  load_store frame := by
    change (do
      let allocaOffset ← (load (store frame.allocaOffset)).map some
      let usesFramePointer ← (load (store frame.usesFramePointer)).map some
      return (⟨← required usesFramePointer, ← required allocaOffset⟩ : FrameConfig)) = .ok frame
    simp only [load_store]
    rfl

instance : LawfulStorable Variable where
  load_store var := by
    change (do
      let name ← (load (store var.name)).map some
      let register ← ((load (store var.register)).map some).map Option.join
      let rematerializable ← (load (store var.rematerializable)).map some
      let stackOffset ← (load (store var.stackOffset)).map some
      let type ← (load (store var.type)).map some
      return (⟨← required name, ← required type, register, ← required stackOffset,
        ← required rematerializable⟩ : Variable)) = .ok var
    simp only [load_store]
    rfl

instance : LawfulStorable SlotHalf where
  load_store part := by
    change (do
      let offset ← (load (store part.offset)).map some
      let half ← (load (store part.half)).map some
      let slot ← (load (store part.slot)).map some
      return (⟨← required slot, ← required half, ← required offset⟩ : SlotHalf)) = .ok part
    simp only [load_store]
    rfl

/-- A scale is stored as a shift, and the shift is read as a number of its own
type, which has room for more than the shifts of scales. -/
theorem Scale.load_shift (scale : Scale) :
    load (store scale.shift) = .ok (UInt16.ofNat scale.shift) := by
  have hShift := scale.shift_le
  exact map_integerIn_natCast UInt16.ofNat 65535 (Nat.le_trans hShift (by decide))

/-- The shift of a scale makes that scale again. So a stored operand passes the
check that operands made from data have to pass. -/
theorem MemoryOperand.make_shift (operand : MemoryOperand) :
    make operand.type operand.base operand.index operand.offset
      (UInt16.ofNat operand.scale.shift) = .ok operand := by
  have hScale : Scale.ofShift? (UInt16.ofNat operand.scale.shift).toNat = some operand.scale := by
    cases operand.scale <;> rfl
  rw [make, hScale]
  exact congrArg Except.ok operand.ofParts_self

instance : LawfulStorable MemoryOperand where
  load_store operand := by
    change (do
      let base ← ((load (store operand.base)).map some).map Option.join
      let index ← ((load (store operand.index)).map some).map Option.join
      let offset ← ((load (store operand.offset)).map some).map Option.join
      let shift ← (load (store operand.scale.shift)).map some
      let type ← (load (store operand.type)).map some
      let shift ← required shift
      let type ← required type
      match MemoryOperand.make type base index offset shift with
      | .ok operand => .ok operand
      | .error reason => .error (.refused reason)) = Except.ok operand
    simp only [load_store, Scale.load_shift]
    change (match MemoryOperand.make operand.type operand.base operand.index operand.offset
        (UInt16.ofNat operand.scale.shift) with
      | .ok operand => Except.ok operand
      | .error reason => .error (LoadError.refused reason)) = Except.ok operand
    rw [MemoryOperand.make_shift]

instance : LawfulStorable Operand where
  load_store
    | .var id => by
        change (load (store id)).map Operand.var = _
        rw [load_store]
        rfl
    | .constant value => by
        change (load (store value)).map Operand.constant = _
        rw [load_store]
        rfl
    | .memory operand => by
        change (load (store operand)).map Operand.memory = _
        rw [load_store]
        rfl
    | .half part => by
        change (load (store part)).map Operand.half = _
        rw [load_store]
        rfl

instance : LawfulStorable Instruction where
  load_store
    | .mov type dest src => by
        change (do
          let dest ← (load (store dest)).map some
          let src ← (load (store src)).map some
          let type ← (load (store type)).map some
          return Instruction.mov (← required type) (← required dest) (← required src)) = _
        simp only [load_store]
        rfl
    | .lea dest src => by
        change (do
          let dest ← (load (store dest)).map some
          let src ← (load (store src)).map some
          return Instruction.lea (← required dest) (← required src)) = _
        simp only [load_store]
        rfl
    | .jcc condition target => by
        change (do
          let condition ← (load (store condition)).map some
          let target ← (load (store target)).map some
          return Instruction.jcc (← required condition) (← required target)) = _
        simp only [load_store]
        rfl
    | .setcc condition dest => by
        change (do
          let condition ← (load (store condition)).map some
          let dest ← (load (store dest)).map some
          return Instruction.setcc (← required condition) (← required dest)) = _
        simp only [load_store]
        rfl
    | .cmpps predicate dest src => by
        change (do
          let dest ← (load (store dest)).map some
          let predicate ← (load (store predicate)).map some
          let src ← (load (store src)).map some
          return Instruction.cmpps (← required predicate) (← required dest) (← required src)) = _
        simp only [load_store]
        rfl

/-- A field that was stored is found under its name. The other entries do not
matter. -/
theorem Datum.field?_of_lookup {α : Type} [Storable α] [LawfulStorable α]
    {entries : List (String × Datum)} {name : String} {value : α}
    (h : entries.lookup name = some (store value)) : field? entries name = .ok (some value) := by
  rw [field?, h]
  change (load (store value)).map some = _
  rw [load_store]
  rfl

namespace Address

/-- What is stored of an address beside the name of its form. -/
def storedFields (address : Address) : List (String × Datum) :=
  address.base.toList.map (fun register => ("base", store register)) ++
    address.index.toList.flatMap (fun scaled =>
      [("index", store scaled.register), ("scale", store scaled.scale)]) ++
    [("disp", store address.displacement), ("fixup", store address.fixup)]

/-- The name of a form says which registers to look for. Nothing else in a
stored address does. -/
theorem formParts?_formName (address : Address) :
    formParts? address.formName = some (address.base.isSome, address.index.isSome) := by
  obtain ⟨base, index, displacement, fixup⟩ := address
  cases base <;> cases index <;> rfl

theorem loadBase_storedFields (address : Address) :
    loadBase address.base.isSome address.storedFields = .ok address.base := by
  obtain ⟨base, index, displacement, fixup⟩ := address
  cases base with
  | none => rfl
  | some register =>
      have hRegister : field? (storedFields ⟨some register, index, displacement, fixup⟩) "base" =
          .ok (some register) := field?_of_lookup rfl
      change (do
        let found ← field? (storedFields ⟨some register, index, displacement, fixup⟩) "base"
        return some (← required found)) = Except.ok (some register)
      rw [hRegister]
      rfl

theorem loadIndex_storedFields (address : Address) :
    loadIndex address.index.isSome address.storedFields = .ok address.index := by
  obtain ⟨base, index, displacement, fixup⟩ := address
  cases index with
  | none => rfl
  | some scaled =>
      have hRegister : field? (storedFields ⟨base, some scaled, displacement, fixup⟩) "index" =
          .ok (some scaled.register) := field?_of_lookup (by cases base <;> rfl)
      have hScale : field? (storedFields ⟨base, some scaled, displacement, fixup⟩) "scale" =
          .ok (some scaled.scale) := field?_of_lookup (by cases base <;> rfl)
      change (do
        let register ← field? (storedFields ⟨base, some scaled, displacement, fixup⟩) "index"
        let scale ← field? (storedFields ⟨base, some scaled, displacement, fixup⟩) "scale"
        return some ⟨← required register, ← required scale⟩) = Except.ok (some scaled)
      rw [hRegister, hScale]
      rfl

theorem displacement_storedFields (address : Address) :
    field? address.storedFields "disp" = .ok (some address.displacement) := by
  obtain ⟨base, index, displacement, fixup⟩ := address
  exact field?_of_lookup (by cases base <;> cases index <;> rfl)

theorem fixup_storedFields (address : Address) :
    optionalField address.storedFields "fixup" = .ok address.fixup := by
  have hFixup : field? address.storedFields "fixup" = .ok (some address.fixup) := by
    obtain ⟨base, index, displacement, fixup⟩ := address
    exact field?_of_lookup (by cases base <;> cases index <;> rfl)
  rw [optionalField, hFixup]
  rfl

end Address

instance : LawfulStorable Address where
  load_store address := by
    change (do
      let (hasBase, hasIndex) ← required (Address.formParts? address.formName)
      let base ← Address.loadBase hasBase address.storedFields
      let displacement ← field? address.storedFields "disp"
      let fixup ← optionalField address.storedFields "fixup"
      let index ← Address.loadIndex hasIndex address.storedFields
      return (⟨base, index, ← required displacement, fixup⟩ : Address)) = .ok address
    rw [address.formParts?_formName]
    change (do
      let base ← Address.loadBase address.base.isSome address.storedFields
      let displacement ← field? address.storedFields "disp"
      let fixup ← optionalField address.storedFields "fixup"
      let index ← Address.loadIndex address.index.isSome address.storedFields
      return (⟨base, index, ← required displacement, fixup⟩ : Address)) = .ok address
    rw [address.loadBase_storedFields, address.displacement_storedFields,
      address.fixup_storedFields, address.loadIndex_storedFields]
    rfl

/-- The place of the fixup, if it has one, has a number of 64 bits. -/
def Fixup.Addressable (fixup : Fixup) : Prop :=
  ∀ p ∈ fixup.position, p < 18446744073709551616

theorem load_store_fixup {fixup : Fixup} (h : fixup.Addressable) :
    load (store fixup) = .ok fixup := by
  have hPosition : load (store fixup.position) = .ok fixup.position :=
    load_store_option fun p hp => load_store_of_lt (h p hp)
  change (do
    let kind ← (load (store fixup.kind)).map some
    let position ← ((load (store fixup.position)).map some).map Option.join
    let symbol ← (load (store fixup.symbol)).map some
    return (⟨← required kind, ← required symbol, position⟩ : Fixup)) = .ok fixup
  simp only [load_store, hPosition]
  rfl

/-- Finished code is read back with all its fixups, placed or not. -/
theorem load_store_code {code : AssembledCode}
    (h : ∀ fixup ∈ code.fixups, fixup.Addressable) :
    load (store code) = .ok code := by
  have hFixups : load (store code.fixups) = .ok code.fixups :=
    load_store_list fun fixup hFixup => load_store_fixup (h fixup hFixup)
  change (do
    let bytes ← (load (store code.bytes)).map some
    let fixups ← (load (store code.fixups)).map some
    return (⟨← required bytes, ← required fixups⟩ : AssembledCode)) = .ok code
  simp only [load_store, hFixups]
  rfl

/-- Whatever is stored is read back as what it was. The uses of a memory
operand are not stored: the record has the five other fields, and the uses are
collected again from the base and the index. The position of a fixup is a
number of 64 bits. -/
theorem stored_values_return :
    (∀ instruction : Instruction, load (store instruction) = .ok instruction) ∧
    (∀ operand : Operand, load (store operand) = .ok operand) ∧
    (∀ operand : MemoryOperand, load (store operand) = .ok operand ∧
      (∃ entries, store operand = object entries ∧
        entries.map Prod.fst = ["ty", "base", "index", "offset", "shift"]) ∧
      MemoryOperand.collectUses operand.base operand.index = .ok operand.uses) ∧
    (∀ part : SlotHalf, load (store part) = .ok part) ∧
    (∀ constant : Constant, load (store constant) = .ok constant) ∧
    (∀ target : Relocatable, load (store target) = .ok target) ∧
    (∀ address : Address, load (store address) = .ok address) ∧
    (∀ fixup : Fixup, fixup.Addressable → load (store fixup) = .ok fixup) ∧
    (∀ var : Variable, load (store var) = .ok var) ∧
    (∀ frame : FrameConfig, load (store frame) = .ok frame) ∧
    (∀ uses : UseList, load (store uses) = .ok uses) ∧
    ∀ code : AssembledCode, (∀ fixup ∈ code.fixups, fixup.Addressable) →
      load (store code) = .ok code :=
  ⟨load_store, load_store, fun operand => ⟨load_store operand, ⟨_, rfl, rfl⟩, operand.collected⟩,
    load_store, load_store, load_store, load_store, fun _ => load_store_fixup, load_store,
    load_store, load_store, fun _ => load_store_code⟩

/-- Code with a fixup whose position is the largest that there is, and one that
was never placed. -/
theorem stored_values_return_code :
    let placed : Fixup := ⟨.signed32, "g\u0000é", some 18446744073709551615⟩
    let code : AssembledCode := ⟨[0x8B, 0xFF], [placed, ⟨.signed32, "", none⟩]⟩
    placed.Addressable ∧ load (store placed) = .ok placed ∧
      (∀ fixup ∈ code.fixups, fixup.Addressable) ∧
      load (store code) = .ok code := by
  intro placed code
  have hPlaced : placed.Addressable := by
    rintro _ ⟨⟩
    decide
  have hCode : ∀ fixup ∈ code.fixups, fixup.Addressable := by
    intro fixup hFixup
    simp only [code, List.mem_cons, List.not_mem_nil, or_false] at hFixup
    rcases hFixup with rfl | rfl
    · exact hPlaced
    · rintro _ ⟨⟩
  obtain ⟨-, -, -, -, -, -, -, hLoadFixup, -, -, -, hLoadCode⟩ := stored_values_return
  exact ⟨hPlaced, hLoadFixup placed hPlaced, hCode, hLoadCode code hCode⟩

end Amd64
