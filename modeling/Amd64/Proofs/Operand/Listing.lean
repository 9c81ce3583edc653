import Amd64.Operand.Listing
import Amd64.Proofs.Operand.Reading
import Amd64.Proofs.Operand.Value
import Amd64.Proofs.Rendering.Propagation
import Amd64.Proofs.Rendering.Shown

/-!
The listing of an operand in memory and the address that it is translated to.
The two fold rematerialization and offsets separately; the text is read back as
the address, symbol included: `Operand.read_listing_of_translatesTo`.
-/

namespace Amd64

open Rendering AddressText

/-- The address that a text states, with this fixup for its symbol. -/
def AddressText.address (parsed : AddressText) (fixup : Option FixupRef) : Address :=
  ⟨parsed.base.map .ofFin, parsed.index.map fun (number, scale) => ⟨.ofFin number, scale⟩,
    Int32.ofInt parsed.displacement, fixup⟩

theorem toList_ofWord_ne_nil (word : Int32) : (Decimal.ofWord word).toList ≠ [] := by
  unfold Decimal.ofWord
  cases word.toInt with
  | ofNat n => exact toList_ofNat_ne_nil n
  | negSucc n => simp [Decimal.ofInt]

/-- A word is written as the signed number that it stands for. -/
theorem writesNumber_ofWord (word : Int32) : WritesNumber (Decimal.ofWord word) word.toInt :=
  .plain word.toInt

/-- An addend is a number with a sign, and no text if it is zero. The sign
keeps it apart from the symbol before it. -/
theorem writesNumber_addend (word : Int32) :
    WritesNumber (Decimal.addend word) word.toInt ∧
      EndsBefore continuesSymbol (Decimal.addend word).toList := by
  unfold Decimal.addend Decimal.ofWord
  by_cases hZero : word = 0
  · rw [if_pos hZero, hZero]
    exact ⟨.absent, endsBefore_nil _⟩
  · rw [if_neg hZero]
    by_cases hPositive : 0 < word
    · have hValue : 0 < word.toInt := Int32.lt_iff_toInt_lt.mp hPositive
      obtain ⟨n, hn⟩ := Int.eq_ofNat_of_zero_le (Int.le_of_lt hValue)
      rw [if_pos hPositive, hn, String.toList_append]
      exact ⟨.plus n, endsBefore_cons _ (by decide)⟩
    · have hValue : word.toInt < 0 := by
        have hNot : ¬ 0 < word.toInt := fun h => hPositive (Int32.lt_iff_toInt_lt.mpr h)
        have hNonzero : word.toInt ≠ 0 := fun h => hZero (Int32.toInt_inj.mp h)
        omega
      obtain ⟨n, hn⟩ := Int.eq_negSucc_of_lt_zero hValue
      rw [if_neg hPositive, hn]
      refine ⟨.plain _, ?_⟩
      rw [Decimal.ofInt, String.toList_append]
      exact endsBefore_cons _ (by decide)

/-- A symbol is shown as it is, with its addend right behind it. -/
theorem Relocatable.shows_text_iff (target : Relocatable) (text : String) :
    target.text.Shows text ↔ text = target.symbol ++ Decimal.addend target.addend := by
  simp [Relocatable.text, shows_append_iff]

namespace Function

/-- The register inside an address is shown under its full name, whatever the
width of the variable in it. -/
theorem shows_listAddressRegister {f : Function} {id : VariableId} {register : RegisterNumber}
    (h : f.addressNumber id = .ok register) :
    ∃ number, register = .ofFin number ∧
      (f.listAddressRegister id).Shows (registerText number) := by
  obtain ⟨found, number, hFound, hRegister, rfl⟩ := (f.addressNumber_eq_ok_iff _ _).mp h
  refine ⟨number, rfl, ?_⟩
  simp [listAddressRegister, addressRegister, hFound, hRegister, withValue, registerText]

/-- A slot is shown as a number and one register, and the number is left out
when it is zero. -/
theorem shows_listSlot (f : Function) (displacement : Int32) :
    ∃ number, WritesNumber number displacement.toInt ∧
      (f.listSlot displacement).Shows (number ++ registersText (some f.slotNumber) none) := by
  have hRegisters : "(%" ++ f.slotBase.name ++ ")" = registersText (some f.slotNumber) none := by
    rw [slotBase_eq, ← String.toList_inj]
    simp [registersText, baseText, indexText, registerText]
  unfold listSlot
  rw [hRegisters]
  by_cases hZero : displacement = 0
  · exact ⟨"", hZero ▸ .absent, by simp [hZero]⟩
  · exact ⟨_, writesNumber_ofWord displacement, by simp [shows_append_iff, hZero]⟩

/-- A variable without a register is shown as its slot, unless it has none. A
rematerializable variable is the one that has none. -/
theorem shows_listVariable_iff {f : Function} {id : VariableId} {found : Variable}
    (hFound : f.lookup id = .ok found) (hNone : found.register = none) (text : String) :
    (f.listVariable id).Shows text ↔
      found.rematerializable = false ∧ (f.listSlot found.stackOffset).Shows text := by
  simp only [listVariable, hFound, withValue, hNone]
  cases found.rematerializable <;> simp

/-- A variable in a register is shown under the name for its type, so that the
width can be told from the text. -/
theorem shows_listVariable_of_register_iff {f : Function} {id : VariableId} {found : Variable}
    {register : Register} (hFound : f.lookup id = .ok found)
    (hRegister : found.register = some register) (text : String) :
    (f.listVariable id).Shows text ↔
      found.rematerializable = false ∧ text = "%" ++ register.nameFor found.type := by
  simp only [listVariable, hFound, withValue, hRegister]
  cases found.rematerializable <;> simp

end Function

/-- A half is shown like a slot, at the sum of the two offsets. -/
theorem SlotHalf.listing_eq {f : Function} {part : SlotHalf} {found : Variable}
    (hFound : f.lookup part.slot = .ok found) (hNone : found.register = none) :
    part.listing f = f.listSlot (found.stackOffset + part.offset) := by
  simp [listing, displacement, hFound, hNone, withValue]

namespace MemoryOperand

variable {f : Function} {operand : MemoryOperand}

/-- Once the displacement of the base is known, nothing but an event stands
before what follows. -/
theorem run_withBaseDisplacement {displacement : Int32}
    (h : operand.baseDisplacement f = .ok displacement) (next : Int32 → Rendering)
    [(next displacement).Propagates] :
    (operand.withBaseDisplacement f next).run =
      { (next displacement).run with
        events := operand.baseEvents f ++ (next displacement).run.events } := by
  simp only [withBaseDisplacement, h, withValue]
  rw [run_append, run_note, Rendered.append_of_complete rfl, String.empty_append]

theorem shows_withBaseDisplacement_iff {displacement : Int32}
    (h : operand.baseDisplacement f = .ok displacement) (next : Int32 → Rendering)
    [(next displacement).Propagates] (text : String) :
    (operand.withBaseDisplacement f next).Shows text ↔ (next displacement).Shows text := by
  rw [Shows, run_withBaseDisplacement h]
  rfl

/-- Once base and index have a meaning, the listing is the number and then the
registers. Until then nothing is written at all. -/
theorem shows_listing_iff {displacement : Int32}
    (hBase : operand.baseDisplacement f = .ok displacement)
    (hIndex : operand.checkIndex f = .ok ()) (text : String) :
    (operand.listing f).Shows text ↔
      ∃ offset registers, (operand.listOffset displacement).Shows offset ∧
        (operand.listRegisters f).Shows registers ∧ text = offset ++ registers := by
  rw [listing, shows_withBaseDisplacement_iff hBase, hIndex]
  exact shows_append_iff _ _ _

/-- The number is the displacement of the address, unless a symbol stands
beside the displacement of a rematerializable base. Behind a symbol it comes
with a sign or not at all. -/
theorem shows_listOffset {displacement : Int32} (h : operand.symbol? = none ∨ displacement = 0) :
    ∃ number, (operand.listOffset displacement).Shows
        ((operand.symbol?.map Relocatable.symbol).getD "" ++ number) ∧
      WritesNumber number (displacement + operand.offsetValue).toInt ∧
      (operand.symbol?.isSome = true → EndsBefore continuesSymbol number.toList) := by
  unfold listOffset symbol? offsetValue
  unfold symbol? at h
  rcases hOffset : operand.offset with _ | value | target
  · simp only [Int32.add_zero]
    by_cases hZero : displacement = 0
    · exact ⟨"", by simp [hZero], hZero ▸ .absent, by simp⟩
    · exact ⟨_, by simp [hZero], writesNumber_ofWord displacement, by simp⟩
  · simp only [Int32.add_comm displacement]
    by_cases hZero : (operand.base.isSome && value = 0 && displacement = 0) = true
    · obtain ⟨⟨-, rfl⟩, rfl⟩ : (operand.base.isSome = true ∧ value = 0) ∧ displacement = 0 := by
        simpa using hZero
      rw [if_pos hZero]
      exact ⟨"", by simp, .absent, by simp⟩
    · rw [if_neg hZero]
      exact ⟨_, by simp, writesNumber_ofWord (value + displacement), by simp⟩
  · have hDisplacement : displacement = 0 := by simpa [hOffset] using h
    obtain ⟨hNumber, hSigned⟩ := writesNumber_addend target.addend
    subst hDisplacement
    refine ⟨_, ?_, by simpa using hNumber, fun _ => hSigned⟩
    simp [Relocatable.shows_text_iff]

/-- A symbol beside the displacement of a rematerializable base cannot be
shown, since the text has one place for both. -/
theorem listOffset_of_symbol {target : Relocatable} {displacement : Int32}
    (hSymbol : operand.symbol? = some target) (hDisplacement : displacement ≠ 0) :
    operand.listOffset displacement = stop (.rematerializedSymbol target.symbol displacement) := by
  unfold symbol? at hSymbol
  unfold listOffset
  split at hSymbol
  · rename_i other hOffset
    cases hSymbol
    simp [hOffset, hDisplacement]
  · cases hSymbol

/-- What a listing shows of the base is the register that is in the address.
Without a base both show nothing. -/
theorem shows_baseNumber {base : Option RegisterNumber} (h : operand.baseNumber f = .ok base) :
    ∃ number, base = Option.map .ofFin number ∧ number.isSome = operand.base.isSome ∧
      (withOption operand.base f.listAddressRegister).Shows (baseText number) := by
  unfold baseNumber at h
  cases hId : operand.base with
  | none =>
      rw [hId] at h
      cases h
      exact ⟨none, rfl, rfl, by simp [withOption, baseText]⟩
  | some id =>
      rw [hId] at h
      obtain ⟨register, hNumber, rfl⟩ := (Except.map_eq_ok_iff _ _ _).mp h
      obtain ⟨number, rfl, hShows⟩ := Function.shows_listAddressRegister hNumber
      exact ⟨some number, rfl, rfl, hShows⟩

/-- What a listing shows of the index is the register in the address and its
scale, unless that is one. -/
theorem shows_scaledIndex {index : Option ScaledIndex} (h : operand.scaledIndex f = .ok index) :
    ∃ scaled, index = Option.map (fun (number, scale) => ⟨.ofFin number, scale⟩) scaled ∧
      scaled.isSome = operand.index.isSome ∧
      (withOption operand.index (f.listScaled operand.scale)).Shows (indexText scaled) := by
  unfold scaledIndex at h
  cases hId : operand.index with
  | none =>
      rw [hId] at h
      cases h
      exact ⟨none, rfl, rfl, by simp [withOption, indexText]⟩
  | some id =>
      rw [hId] at h
      obtain ⟨register, hNumber, rfl⟩ := (Except.map_eq_ok_iff _ _ _).mp h
      obtain ⟨number, rfl, hShows⟩ := Function.shows_listAddressRegister hNumber
      refine ⟨some (number, operand.scale), rfl, rfl, ?_⟩
      have hScale : (if 0 < operand.scale.shift then
          ofText ("," ++ Decimal.ofNat operand.scale.factor) else done).Shows
            (scaleText operand.scale) := by
        unfold scaleText
        split <;> simp
      rw [withOption, Function.listScaled, shows_append_iff]
      refine ⟨"," ++ registerText number, _, ?_, hScale, rfl⟩
      rw [shows_append_iff]
      exact ⟨",", _, by simp, hShows, rfl⟩

/-- The registers of the text are those of the address, and they are there
exactly where the operand has a base or an index. -/
theorem shows_listRegisters {base : Option RegisterNumber} {index : Option ScaledIndex}
    (hBase : operand.baseNumber f = .ok base) (hIndex : operand.scaledIndex f = .ok index) :
    ∃ number scaled, base = Option.map .ofFin number ∧
      index = Option.map (fun (number, scale) => ⟨.ofFin number, scale⟩) scaled ∧
      number.isSome = operand.base.isSome ∧ scaled.isSome = operand.index.isSome ∧
      (operand.listRegisters f).Shows (registersText number scaled) := by
  obtain ⟨number, hNumber, hBaseSome, hBaseText⟩ := shows_baseNumber hBase
  obtain ⟨scaled, hScaled, hIndexSome, hIndexText⟩ := shows_scaledIndex hIndex
  refine ⟨number, scaled, hNumber, hScaled, hBaseSome, hIndexSome, ?_⟩
  unfold listRegisters
  by_cases hNone : (operand.base.isNone && operand.index.isNone) = true
  · rw [if_pos hNone]
    simp only [Bool.and_eq_true, Option.isNone_iff_eq_none] at hNone
    have hNumberNone : number = none := by simpa [hNone.1] using hBaseSome
    have hScaledNone : scaled = none := by simpa [hNone.2] using hIndexSome
    rw [hNumberNone, hScaledNone]
    simp [registersText]
  · rw [if_neg hNone]
    have hText : registersText number scaled =
        "(" ++ baseText number ++ indexText scaled ++ ")" := by
      cases number <;> cases scaled
      · simp_all
      all_goals rfl
    rw [hText]
    simp only [shows_append_iff]
    exact ⟨_, ")", ⟨_, _, ⟨"(", _, by simp, hBaseText, rfl⟩, hIndexText, rfl⟩, by simp, rfl⟩

/-- The parts of the text of an operand are the parts of its address. The text
is there unless a symbol stands beside the displacement of a rematerializable
base. -/
theorem writes_of_toAddress {a after : Assembler} {address : Address}
    (h : operand.toAddress f a = .done address after) :
    ∃ (displacement : Int32) (parsed : AddressText),
      operand.baseDisplacement f = .ok displacement ∧
      address = parsed.address (operand.carried a) ∧
      parsed.displacement = address.displacement.toInt ∧
      parsed.symbol = operand.symbol?.map Relocatable.symbol ∧
      parsed.base.isSome = operand.base.isSome ∧ parsed.index.isSome = operand.index.isSome ∧
      (operand.symbol? = none ∨ displacement = 0 →
        ∃ text, (operand.listing f).Shows text ∧ parsed.Writes text) := by
  obtain ⟨_, hResolved, rfl, -⟩ := (toAddress_eq_done_iff _ _ _ _ _).mp h
  obtain ⟨displacement, _, _, hDisplacement, hCheck, hBase, hIndex, rfl, -⟩ :=
    (resolve_eq_ok_iff _ _ _).mp hResolved
  obtain ⟨number, scaled, rfl, rfl, hBaseSome, hIndexSome, hRegisters⟩ :=
    shows_listRegisters hBase hIndex
  refine ⟨displacement, ⟨operand.symbol?.map Relocatable.symbol,
    (displacement + operand.offsetValue).toInt, number, scaled⟩, hDisplacement, ?_, rfl, rfl,
    hBaseSome, hIndexSome, ?_⟩
  · simp only [AddressText.address, Int32.ofInt_toInt]
  · intro hShown
    obtain ⟨digits, hOffset, hNumber, hSigned⟩ := shows_listOffset hShown
    refine ⟨_, (shows_listing_iff hDisplacement hCheck _).mpr ⟨_, _, hOffset, hRegisters, rfl⟩,
      digits, rfl, hNumber, ?_⟩
    simpa using hSigned

/-- Beside a symbol a rematerializable base that has a displacement stops the
listing, although the operand has an address. -/
theorem stops_listing_of_symbol {a after : Assembler} {address : Address} {target : Relocatable}
    {displacement : Int32} (h : operand.toAddress f a = .done address after)
    (hSymbol : operand.symbol? = some target)
    (hDisplacement : operand.baseDisplacement f = .ok displacement) (hNonzero : displacement ≠ 0) :
    (operand.listing f).Stops (.rematerializedSymbol target.symbol displacement) := by
  obtain ⟨_, hResolved, -, -⟩ := (toAddress_eq_done_iff _ _ _ _ _).mp h
  obtain ⟨_, _, _, -, hCheck, -⟩ := (resolve_eq_ok_iff _ _ _).mp hResolved
  rw [Stops, listing, run_withBaseDisplacement hDisplacement, hCheck]
  simp only [withValue, listOffset_of_symbol hSymbol hNonzero, stop_append, run_stop]

/-- Without registers nothing at all is shown exactly if there is no offset
either. A zero would be written. -/
theorem shows_empty_listOffset_iff (hBase : operand.base = none)
    (hSymbol : ∀ target ∈ operand.symbol?, target.symbol ≠ "") :
    (operand.listOffset 0).Shows "" ↔ operand.offset = none := by
  unfold listOffset
  unfold symbol? at hSymbol
  rcases hOffset : operand.offset with _ | value | target
  · simp
  · have hText : "" ≠ Decimal.ofWord (value + 0) := by
      intro h
      exact toList_ofWord_ne_nil (value + 0) (by rw [← h]; rfl)
    rw [hBase]
    simp only [Option.isSome_none, Bool.false_and, Bool.false_eq_true, if_false,
      shows_ofText_iff, hText, reduceCtorEq]
  · rw [hOffset] at hSymbol
    have hText : "" ≠ target.symbol ++ Decimal.addend target.addend := by
      intro h
      exact hSymbol target rfl (String.append_eq_empty_iff.mp h.symm).1
    simp [Relocatable.shows_text_iff, hText]

end MemoryOperand

namespace Operand

variable {f : Function} {operand : Operand} {a after : Assembler} {address : Address}
  {text : String}

/-- A place beside the register of the slots is written as its address, without
a symbol and without an index. -/
theorem writes_of_listSlot {displacement : Int32} (h : (f.listSlot displacement).Shows text) :
    ∃ parsed : AddressText, parsed.Writes text ∧ parsed.displacement = displacement.toInt ∧
      parsed.symbol = none ∧
      parsed.address none = .based (.ofFin f.slotNumber) displacement none := by
  obtain ⟨number, hNumber, hShows⟩ := f.shows_listSlot displacement
  refine ⟨⟨none, displacement.toInt, some f.slotNumber, none⟩, ⟨number, ?_, hNumber, by simp⟩,
    rfl, rfl, ?_⟩
  · rw [h.unique hShows]
    simp
  · simp only [AddressText.address, Int32.ofInt_toInt]
    rfl

/-- The parts of the text of an operand in memory are the parts of its address,
and a symbol is shown if a fixup is requested for it. -/
theorem TranslatesTo.writes (h : operand.TranslatesTo f a address after)
    (hText : (operand.listing f).Shows text) :
    ∃ parsed : AddressText, parsed.Writes text ∧ address = parsed.address address.fixup ∧
      parsed.displacement = address.displacement.toInt ∧
      address.fixup = parsed.symbol.map (fun _ => a.nextFixup) ∧
      operand.requested = parsed.symbol.toList.map fun symbol => ⟨.signed32, symbol, none⟩ := by
  cases h with
  | slot h =>
      obtain ⟨found, hFound, hNone, rfl⟩ := (f.stackAddress_eq_ok_iff _ _).mp h
      obtain ⟨-, hSlot⟩ := (Function.shows_listVariable_iff hFound hNone text).mp hText
      obtain ⟨parsed, hWrites, hNumber, hSymbol, hAddress⟩ := writes_of_listSlot hSlot
      exact ⟨parsed, hWrites, hAddress.symm, hNumber, by rw [hSymbol]; rfl, by rw [hSymbol]; rfl⟩
  | half h =>
      obtain ⟨found, hFound, hNone, rfl⟩ := (SlotHalf.toAddress_eq_ok_iff _ _ _).mp h
      rw [listing, SlotHalf.listing_eq hFound hNone] at hText
      obtain ⟨parsed, hWrites, hNumber, hSymbol, hAddress⟩ := writes_of_listSlot hText
      exact ⟨parsed, hWrites, hAddress.symm, hNumber, by rw [hSymbol]; rfl, by rw [hSymbol]; rfl⟩
  | @memory operand address _ h =>
      obtain ⟨displacement, parsed, hDisplacement, hAddress, hNumber, hSymbol, -, -, hShown⟩ :=
        MemoryOperand.writes_of_toAddress h
      have hFixup : address.fixup = operand.carried a := by
        rw [hAddress]
        rfl
      -- A symbol beside a displacement of the base would have stopped the listing.
      have hListed : operand.symbol? = none ∨ displacement = 0 := by
        cases hTarget : operand.symbol? with
        | none => exact Or.inl rfl
        | some target =>
            refine Or.inr (Decidable.byContradiction fun hNonzero => ?_)
            have hStops :=
              MemoryOperand.stops_listing_of_symbol h hTarget hDisplacement hNonzero
            cases hText.2.symm.trans hStops
      obtain ⟨_, hShows, hWrites⟩ := hShown hListed
      obtain rfl := hText.unique hShows
      refine ⟨parsed, hWrites, by rw [hFixup]; exact hAddress, hNumber, ?_, ?_⟩
      · rw [hFixup, hSymbol, MemoryOperand.carried, Option.map_map]
        rfl
      · rw [hSymbol]
        show operand.requested = _
        rw [MemoryOperand.requested]
        cases operand.symbol? <;> rfl

theorem ne_empty_of_listSlot {displacement : Int32} (h : (f.listSlot displacement).Shows text) :
    text ≠ "" := by
  obtain ⟨number, -, hShows⟩ := f.shows_listSlot displacement
  rw [h.unique hShows]
  intro hEmpty
  have hRegisters := (String.append_eq_empty_iff.mp hEmpty).2
  cases ((registersText_eq_empty_iff _ _).mp hRegisters).1

/-- An operand in memory is shown without any text exactly if it has no base,
no index and no offset. Slots and their halves always show their register. -/
theorem TranslatesTo.text_eq_empty_iff (h : operand.TranslatesTo f a address after)
    (hText : (operand.listing f).Shows text)
    (hSymbol : ∀ fixup ∈ operand.requested, fixup.symbol ≠ "") :
    text = "" ↔ ∃ part : MemoryOperand, operand = .memory part ∧ part.base = none ∧
      part.index = none ∧ part.offset = none := by
  cases h with
  | slot h =>
      obtain ⟨found, hFound, hNone, -⟩ := (f.stackAddress_eq_ok_iff _ _).mp h
      obtain ⟨-, hSlot⟩ := (Function.shows_listVariable_iff hFound hNone text).mp hText
      simp [ne_empty_of_listSlot hSlot]
  | half h =>
      obtain ⟨found, hFound, hNone, -⟩ := (SlotHalf.toAddress_eq_ok_iff _ _ _).mp h
      rw [listing, SlotHalf.listing_eq hFound hNone] at hText
      simp [ne_empty_of_listSlot hText]
  | @memory operand address _ h =>
      obtain ⟨_, hResolved, -, -⟩ := (MemoryOperand.toAddress_eq_done_iff _ _ _ _ _).mp h
      obtain ⟨displacement, _, _, hDisplacement, hCheck, hBase, hIndex, -, -⟩ :=
        (MemoryOperand.resolve_eq_ok_iff _ _ _).mp hResolved
      obtain ⟨number, scaled, -, -, hBaseSome, hIndexSome, hShown⟩ :=
        MemoryOperand.shows_listRegisters hBase hIndex
      obtain ⟨offset, registers, hOffset, hRegisters, rfl⟩ :=
        (MemoryOperand.shows_listing_iff hDisplacement hCheck text).mp hText
      have hAbsent : registers = "" ↔ operand.base = none ∧ operand.index = none := by
        rw [hRegisters.unique hShown, registersText_eq_empty_iff, ← Option.isNone_iff_eq_none,
          ← Option.isNone_iff_eq_none, ← Option.not_isSome, ← Option.not_isSome, hBaseSome,
          hIndexSome]
        simp
      have hZero (hNone : operand.base = none) : displacement = 0 := by
        rw [MemoryOperand.baseDisplacement, MemoryOperand.rematerializableBase, hNone]
          at hDisplacement
        cases hDisplacement
        rfl
      have hTarget : ∀ target ∈ operand.symbol?, target.symbol ≠ "" := by
        intro target hTarget
        exact hSymbol ⟨.signed32, target.symbol, none⟩
          (by simp [requested, MemoryOperand.requested, Option.mem_def.mp hTarget])
      rw [String.append_eq_empty_iff, hAbsent]
      constructor
      · rintro ⟨rfl, hBaseNone, hIndexNone⟩
        rw [hZero hBaseNone] at hOffset
        exact ⟨operand, rfl, hBaseNone, hIndexNone,
          (MemoryOperand.shows_empty_listOffset_iff hBaseNone hTarget).mp hOffset⟩
      · rintro ⟨_, ⟨⟩, hBaseNone, hIndexNone, hOffsetNone⟩
        rw [hZero hBaseNone] at hOffset
        exact ⟨hOffset.unique
          ((MemoryOperand.shows_empty_listOffset_iff hBaseNone hTarget).mpr hOffsetNone),
          hBaseNone, hIndexNone⟩

/-- Text and address agree. Where an operand is in memory and has a listing,
the listing is read back as the address, with its base, its scaled index and
its displacement, the addend included. A symbol is there exactly if the address
carries a fixup, and it is the symbol of that fixup, which is the one that the
translation adds to the code. Nothing is written only for an operand without
any part, whose address is zero. -/
theorem read_listing_of_translatesTo (h : operand.TranslatesTo f a address after)
    (hText : (operand.listing f).Shows text)
    (hSymbol : ∀ fixup ∈ operand.requested, isSymbol fixup.symbol = true) :
    ∃ parsed, AddressText.read text.toList = some parsed ∧
      address = parsed.address address.fixup ∧
      parsed.displacement = address.displacement.toInt ∧
      (parsed.symbol.isSome = true ↔ address.fixup.isSome = true) ∧
      (∀ ref ∈ address.fixup, ∃ fixup, after.fixups = a.fixups ++ [fixup] ∧
        parsed.symbol = some fixup.symbol ∧
        (a.fixups.length < 4294967296 → after.fixup ref = .ok fixup)) ∧
      (text = "" ↔ ∃ part : MemoryOperand, operand = .memory part ∧ part.base = none ∧
        part.index = none ∧ part.offset = none) ∧
      (text = "" → address = .absolute 0 none) := by
  obtain ⟨parsed, hWrites, hAddress, hNumber, hFixup, hRequested⟩ := h.writes hText
  have hSymbols : ∀ symbol ∈ parsed.symbol, isSymbol symbol = true := by
    intro symbol hMember
    refine hSymbol ⟨.signed32, symbol, none⟩ ?_
    rw [hRequested, Option.mem_def.mp hMember]
    exact List.mem_singleton_self _
  have hRead := hWrites.read hSymbols
  refine ⟨parsed, hRead, hAddress, hNumber, by rw [hFixup]; simp, ?_, ?_, ?_⟩
  · intro ref hRef
    cases hParsed : parsed.symbol with
    | none =>
        rw [hFixup, hParsed] at hRef
        cases hRef
    | some symbol =>
        rw [hParsed] at hRequested
        refine ⟨⟨.signed32, symbol, none⟩, ?_, rfl, ?_⟩
        · rw [h.after_eq, hRequested]
          rfl
        · intro hRoom
          obtain ⟨fixup, hMember, hFound⟩ := h.fixup_eq_ok hRoom hRef
          rw [hRequested] at hMember
          rw [hFound, List.mem_singleton.mp hMember]
  · refine h.text_eq_empty_iff hText ?_
    intro fixup hMember hEmpty
    have hNonempty := hSymbol fixup hMember
    rw [hEmpty] at hNonempty
    cases hNonempty
  · rintro rfl
    cases hRead
    rw [hAddress, hFixup]
    rfl

/-- A rematerializable base whose two contributions cancel, so that there is
room for a symbol. -/
theorem read_listing_of_translatesTo_rematerializable :
    let f : Function := ⟨"f", ⟨true, 8⟩,
      #[⟨"p", .i64, some .rbp, -8, true⟩, ⟨"i", .i64, some (.general ⟨12, by decide⟩), 0, false⟩]⟩
    let operand : Operand :=
      .memory (.ofParts .i32 (some ⟨0⟩) (some ⟨1⟩) (some (.relocatable ⟨"tab_1", -4⟩)) .eight)
    let address : Address := ⟨some ⟨5⟩, some ⟨⟨12⟩, .eight⟩, -8 + 8 + -4, some ⟨0⟩⟩
    let after : Assembler := ⟨[], [⟨.signed32, "tab_1", none⟩], []⟩
    operand.TranslatesTo f .empty address after ∧
      (operand.listing f).Shows "tab_1-4(%rbp,%r12,8)" ∧
      (∀ fixup ∈ operand.requested, isSymbol fixup.symbol = true) ∧
      ∃ parsed, AddressText.read "tab_1-4(%rbp,%r12,8)".toList = some parsed ∧
        address = parsed.address address.fixup := by
  intro f operand address after
  have hTranslates : operand.TranslatesTo f .empty address after := .memory rfl
  have hText : (operand.listing f).Shows "tab_1-4(%rbp,%r12,8)" := by decide
  have hSymbol : ∀ fixup ∈ operand.requested, isSymbol fixup.symbol = true := by
    decide
  obtain ⟨parsed, hRead, hAddress, -⟩ := read_listing_of_translatesTo hTranslates hText hSymbol
  exact ⟨hTranslates, hText, hSymbol, parsed, hRead, hAddress⟩

end Operand

end Amd64
