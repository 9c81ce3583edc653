import Amd64.Operand.Dump
import Amd64.Proofs.Operand.Addressable
import Amd64.Proofs.Operand.Listing
import Amd64.Proofs.Operand.Sum
import Amd64.Proofs.Rendering.Shown

/-!
The debug text of memory operands, before allocation and after it. The text is
the sum of the parts of the operand, each with the sign that it has, and the
numbers in it add up to the displacement of the address:
`MemoryOperand.dump_isSum`.
-/

namespace Amd64

open Rendering

/-- What is shown of a variable after the percent sign. -/
def Variable.shown (var : Variable) : String :=
  match var.register with
  | some register => register.nameFor var.type
  | none => var.name

/-- A variable is shown behind a percent sign, under the name of its register
or, before it has one, under its own. -/
theorem Variable.shows_dump_iff (var : Variable) (text : String) :
    var.dump.Shows text ↔ text = "%" ++ var.shown := by
  unfold dump shown
  cases var.register <;> simp

/-- All names of registers are symbols, so that registers need no assumption
where names do. -/
theorem Register.isSymbol_nameFor (register : Register) (type : ValueType) :
    AddressText.isSymbol (register.nameFor type) = true := by
  have hAt (access : Access) : AddressText.isSymbol (register.names.at access) = true := by
    revert register
    rintro (n | n) <;> revert n <;> cases access <;> decide
  exact hAt type.access

/-- A register shows a name of letters and digits. So a name has to be a symbol
only as long as it is what is shown. -/
theorem Variable.isSymbol_shown {var : Variable} (h : AddressText.isSymbol var.name = true) :
    AddressText.isSymbol var.shown = true := by
  unfold shown
  cases var.register with
  | none => exact h
  | some register => exact register.isSymbol_nameFor var.type

/-- The debug text of the variable is this name after a percent sign. -/
def Function.ShowsAs (f : Function) (id : VariableId) (name : String) : Prop :=
  (f.dumpVariable id).Shows ("%" ++ name)

/-- What a variable is shown as can be looked up, and only one name is
possible. -/
theorem Function.showsAs_iff (f : Function) (id : VariableId) (name : String) :
    f.ShowsAs id name ↔ ∃ found, f.lookup id = .ok found ∧ name = found.shown := by
  rw [ShowsAs, dumpVariable, shows_withValue_iff]
  refine exists_congr fun found => and_congr_right fun _ => ?_
  rw [found.shows_dump_iff, ← String.toList_inj, String.toList_append, String.toList_append,
    List.append_cancel_left_eq, String.toList_inj]

/-- A variable that is there and whose name is a symbol is shown as a symbol,
in a register or not. -/
theorem Function.ShowsAs.isSymbol {f : Function} {id : VariableId} {name : String}
    (h : f.ShowsAs id name)
    (hName : ∀ found, f.lookup id = .ok found → AddressText.isSymbol found.name = true) :
    AddressText.isSymbol name = true := by
  obtain ⟨found, hFound, rfl⟩ := (f.showsAs_iff id name).mp h
  exact found.isSymbol_shown (hName found hFound)

/-- The word as a term, which is left out when it is zero. -/
def wordTerms (word : Int32) : List SumTerm :=
  if word = 0 then [] else [.number word.toInt]

def Relocatable.terms (target : Relocatable) : List SumTerm :=
  .symbol target.symbol :: wordTerms target.addend

/-- A word that is not zero is written with its sign. For a negative one that
is its own. -/
theorem signedText_number (word : Int32) :
    SumTerm.signedText [.number word.toInt] =
      if word < 0 then Decimal.ofWord word else "+" ++ Decimal.ofWord word := by
  have hNegative : word < 0 ↔ word.toInt < 0 := Int32.lt_iff_toInt_lt
  simp only [SumTerm.signedText, SumTerm.sign_number, SumTerm.text, String.append_empty,
    Decimal.ofWord, hNegative]
  split
  · rw [String.empty_append]
  · rfl

/-- The addend of a text is the term of a sum, or no term when it is zero. -/
theorem signedText_wordTerms (word : Int32) :
    SumTerm.signedText (wordTerms word) = Decimal.addend word := by
  unfold wordTerms Decimal.addend
  by_cases hZero : word = 0
  · rw [if_pos hZero, if_pos hZero]
    rfl
  · rw [if_neg hZero, if_neg hZero, signedText_number]
    have hNonzero : word.toInt ≠ 0 := fun h => hZero (Int32.toInt_inj.mp h)
    have hSigns : word < 0 ↔ ¬ 0 < word := by
      rw [Int32.lt_iff_toInt_lt, Int32.lt_iff_toInt_lt]
      change word.toInt < 0 ↔ ¬ 0 < word.toInt
      omega
    by_cases hPositive : 0 < word
    · rw [if_pos hPositive, if_neg (fun h => hSigns.mp h hPositive)]
    · rw [if_neg hPositive, if_pos (hSigns.mpr hPositive)]

/-- Leaving out a zero does not change what the numbers add up to. -/
theorem numbers_wordTerms (word : Int32) : SumTerm.numbers (wordTerms word) = word.toInt := by
  unfold wordTerms
  split
  case isTrue hZero =>
    rw [hZero]
    rfl
  case isFalse => simp [SumTerm.numbers]

/-- The terms of an offset. -/
def Constant.terms : Constant → List SumTerm
  | integer value => wordTerms value
  | relocatable target => target.terms

/-- A sum without terms is written as zero. -/
def orZero (terms : List SumTerm) : List SumTerm :=
  if terms = [] then [.number 0] else terms

namespace MemoryOperand

/-- The names that an operand shows, the index with its factor. -/
def nameTerms (operand : MemoryOperand) (base index : Option String) : List SumTerm :=
  base.toList.map (.name 1) ++ index.toList.map (.name operand.scale.factor)

/-- The terms that an operand shows beside the displacement of its base. -/
def sumTerms (operand : MemoryOperand) (base index : Option String) (displacement : Int32) :
    List SumTerm :=
  operand.nameTerms base index ++ wordTerms displacement ++
    operand.offset.toList.flatMap Constant.terms

/-- The terms of the debug text, at least one. -/
def shownTerms (operand : MemoryOperand) (base index : Option String) (displacement : Int32) :
    List SumTerm :=
  orZero (operand.sumTerms base index displacement)

/-- The names under which the debug text shows the base and the index. -/
structure ShowsNames (f : Function) (operand : MemoryOperand) (base index : Option String) :
    Prop where
  base : Option.Rel f.ShowsAs operand.base base
  index : Option.Rel f.ShowsAs operand.index index

variable {f : Function} {operand : MemoryOperand} {base index : Option String}

/-- No name is shown exactly where the operand has neither a base nor an
index. -/
theorem ShowsNames.nameTerms_eq_nil_iff (h : operand.ShowsNames f base index) :
    operand.nameTerms base index = [] ↔ operand.base = none ∧ operand.index = none := by
  obtain ⟨hBase, hIndex⟩ := h
  generalize operand.base = named at hBase
  generalize operand.index = other at hIndex
  cases hBase <;> cases hIndex <;> simp [nameTerms]

/-- A factor of one is not shown, and any other stands before the name. -/
theorem shows_scaled {id : VariableId} {name : String} (h : f.ShowsAs id name) (scale : Scale) :
    (f.dumpScaled scale id).Shows (SumTerm.name scale.factor name).text := by
  rw [Function.dumpScaled, shows_append_iff]
  refine ⟨if scale.factor = 1 then "" else Decimal.ofNat scale.factor ++ "*", _, ?_, h, ?_⟩
  · cases scale <;> simp [Scale.shift, Scale.factor]
  · rw [SumTerm.text, String.append_assoc]

/-- The names are shown as the terms of a sum, the index with its factor and
behind a plus sign if there is a base. -/
theorem ShowsNames.shows_dumpVariables (h : operand.ShowsNames f base index) :
    (operand.dumpVariables f).Shows (SumTerm.sumText (operand.nameTerms base index)) := by
  obtain ⟨hBase, hIndex⟩ := h
  obtain ⟨type, named, other, offset, scale, uses, hUses⟩ := operand
  cases hBase with
  | none =>
      cases hIndex with
      | none => simp [dumpVariables, nameTerms, SumTerm.sumText]
      | some hOther =>
          have hScaled := shows_scaled hOther scale
          simpa [dumpVariables, nameTerms, SumTerm.sumText, SumTerm.signedText] using hScaled
  | @some id name hNamed =>
      have hName : (SumTerm.name 1 name).text = "%" ++ name := by simp [SumTerm.text]
      have hShown : (f.dumpVariable id).Shows ("%" ++ name) := hNamed
      cases hIndex with
      | none =>
          simpa [dumpVariables, nameTerms, SumTerm.sumText, SumTerm.signedText, hName] using hShown
      | some hOther =>
          have hSigned := (shows_append_iff (ofText "+") _ _).mpr
            ⟨"+", _, by simp, shows_scaled hOther scale, rfl⟩
          have hBoth := (shows_append_iff _ _ _).mpr ⟨_, _, hShown, hSigned, rfl⟩
          simpa [dumpVariables, nameTerms, SumTerm.sumText, SumTerm.signedText, SumTerm.sign, hName,
            append_assoc] using hBoth

/-- After other terms the offset comes with its sign, and zero is left out. A
symbol and its addend are two terms. -/
theorem shows_dumpOffset (offset : Option Constant) :
    (dumpOffset offset false).Shows
      (SumTerm.signedText (offset.toList.flatMap Constant.terms)) := by
  rcases offset with _ | value | target
  · simp [dumpOffset, SumTerm.signedText]
  · simp only [dumpOffset, Option.toList_some, List.flatMap_singleton, Constant.terms, wordTerms]
    by_cases hZero : value = 0
    · simp [hZero, SumTerm.signedText]
    · rw [if_neg hZero, if_neg hZero, signedText_number]
      split
      · simp
      · simp [shows_append_iff]
  · have hTarget : target.dump.Shows ("@" ++ (target.symbol ++ Decimal.addend target.addend)) := by
      simp [Relocatable.dump, shows_append_iff, Relocatable.shows_text_iff]
    refine (shows_append_iff _ _ _).mpr ⟨"+", _, by simp, hTarget, ?_⟩
    simp [Constant.terms, Relocatable.terms, SumTerm.signedText, SumTerm.sign, SumTerm.text,
      signedText_wordTerms, String.append_assoc]

/-- Alone the offset is a sum of its own. Here zero is shown, so that there is
always a term. -/
theorem shows_dumpOffset_alone (offset : Option Constant) :
    (dumpOffset offset true).Shows
      (SumTerm.sumText (orZero (offset.toList.flatMap Constant.terms))) := by
  rcases offset with _ | value | target
  · have hZero : Decimal.ofInt 0 = "0" := by decide
    simp [dumpOffset, orZero, SumTerm.sumText, SumTerm.signedText, SumTerm.text, hZero]
  · by_cases hZero : value = 0
    · simp [dumpOffset, Constant.dump, Constant.terms, wordTerms, hZero, orZero, SumTerm.sumText,
        SumTerm.signedText, SumTerm.text, Decimal.ofWord]
    · simp [dumpOffset, Constant.dump, Constant.terms, wordTerms, hZero, orZero, SumTerm.sumText,
        SumTerm.signedText, SumTerm.text, Decimal.ofWord]
  · simp [dumpOffset, Constant.dump, Relocatable.dump, Constant.terms, Relocatable.terms, orZero,
      SumTerm.sumText, SumTerm.text, signedText_wordTerms, shows_append_iff,
      Relocatable.shows_text_iff, String.append_assoc]

/-- Only a base can have a displacement of its own. -/
theorem baseDisplacement_of_base_eq_none {displacement : Int32} (hBase : operand.base = none)
    (h : operand.baseDisplacement f = .ok displacement) : displacement = 0 := by
  rw [baseDisplacement, rematerializableBase, hBase] at h
  cases h
  rfl

/-- Once the displacement is known, the debug text is what the operand shows
between brackets. The bracket is written before the base is looked at. -/
theorem shows_dump_iff {displacement : Int32}
    (hDisplacement : operand.baseDisplacement f = .ok displacement) (text : String) :
    (operand.dump f).Shows text ↔
      ∃ names offset, (operand.dumpVariables f).Shows names ∧
        (dumpOffset operand.offset
          (operand.base.isNone && operand.index.isNone && displacement = 0)).Shows offset ∧
        text = "[" ++ (names ++ Decimal.addend displacement ++ offset) ++ "]" := by
  simp only [dump, shows_append_iff, shows_ofText_iff,
    shows_withBaseDisplacement_iff hDisplacement]
  constructor
  · rintro ⟨_, _, rfl, ⟨_, _, ⟨_, offset, ⟨names, _, hNames, rfl, rfl⟩, hOffset, rfl⟩, rfl, rfl⟩,
      rfl⟩
    exact ⟨names, offset, hNames, hOffset, by simp only [String.append_assoc]⟩
  · rintro ⟨names, offset, hNames, hOffset, rfl⟩
    exact ⟨_, _, rfl, ⟨_, _, ⟨_, offset, ⟨names, _, hNames, rfl, rfl⟩, hOffset, rfl⟩, rfl, rfl⟩,
      by simp only [String.append_assoc]⟩

/-- The debug text is the sum of the terms that the operand shows. They are
terms of the operand and not of an address: registers need not be assigned. -/
theorem ShowsNames.shows_dump (h : operand.ShowsNames f base index) {displacement : Int32}
    (hDisplacement : operand.baseDisplacement f = .ok displacement) :
    (operand.dump f).Shows
      ("[" ++ SumTerm.sumText (operand.shownTerms base index displacement) ++ "]") := by
  have hNames := h.shows_dumpVariables
  rw [shows_dump_iff hDisplacement]
  -- Without a base there is no displacement either, so the offset begins the sum.
  by_cases hAlone : operand.base = none ∧ operand.index = none
  · obtain rfl := baseDisplacement_of_base_eq_none hAlone.1 hDisplacement
    have hNone := h.nameTerms_eq_nil_iff.mpr hAlone
    have hTerms : operand.sumTerms base index 0 = operand.offset.toList.flatMap Constant.terms := by
      rw [sumTerms, hNone]
      rfl
    have hOffset : (dumpOffset operand.offset
        (operand.base.isNone && operand.index.isNone && (0 : Int32) = 0)).Shows
          (SumTerm.sumText (orZero (operand.offset.toList.flatMap Constant.terms))) := by
      simpa [hAlone] using shows_dumpOffset_alone operand.offset
    refine ⟨_, _, hNames, hOffset, ?_⟩
    rw [shownTerms, hTerms, hNone]
    simp [SumTerm.sumText, Decimal.addend]
  · have hSome : operand.nameTerms base index ≠ [] := mt h.nameTerms_eq_nil_iff.mp hAlone
    have hShown : (operand.base.isNone && operand.index.isNone && displacement = 0) = false := by
      rw [Bool.eq_false_iff]
      intro hTrue
      simp only [Bool.and_eq_true, Option.isNone_iff_eq_none] at hTrue
      exact hAlone hTrue.1
    have hOffset := shows_dumpOffset operand.offset
    rw [← hShown] at hOffset
    have hTerms : operand.sumTerms base index displacement ≠ [] := by simp [sumTerms, hSome]
    refine ⟨_, _, hNames, hOffset, ?_⟩
    rw [shownTerms, orZero, if_neg hTerms, sumTerms, List.append_assoc,
      SumTerm.sumText_append hSome, SumTerm.signedText_append, signedText_wordTerms]
    simp only [String.append_assoc]

/-- A text that is complete has the displacement in it, so the base had one. -/
theorem exists_baseDisplacement_of_shows {text : String} (h : (operand.dump f).Shows text) :
    ∃ displacement, operand.baseDisplacement f = .ok displacement := by
  obtain ⟨_, _, -, hSum, -⟩ := (shows_append_iff _ _ _).mp h
  obtain ⟨displacement, hDisplacement, -⟩ := (shows_withValue_iff _ _ _).mp hSum
  exact ⟨displacement, hDisplacement⟩

/-- Variables that exist are shown under some name. Neither a register nor a
fitting type is asked of them. -/
theorem exists_showsNames
    (hIds : ∀ id, id ∈ operand.base ∨ id ∈ operand.index → ∃ found, f.lookup id = .ok found) :
    ∃ base index, operand.ShowsNames f base index := by
  have hShown (id? : Option VariableId) (hId : ∀ id ∈ id?, ∃ found, f.lookup id = .ok found) :
      ∃ name?, Option.Rel f.ShowsAs id? name? := by
    cases id? with
    | none => exact ⟨none, .none⟩
    | some id =>
        obtain ⟨found, hFound⟩ := hId id rfl
        exact ⟨some found.shown, .some ((f.showsAs_iff id _).mpr ⟨found, hFound, rfl⟩)⟩
  obtain ⟨base, hBase⟩ := hShown operand.base fun id hId => hIds id (.inl hId)
  obtain ⟨index, hIndex⟩ := hShown operand.index fun id hId => hIds id (.inr hId)
  exact ⟨base, index, hBase, hIndex⟩

theorem isSymbol_of_rel {id? : Option VariableId} {name? : Option String}
    (hRel : Option.Rel f.ShowsAs id? name?)
    (hNames : ∀ id ∈ id?, ∀ found, f.lookup id = .ok found →
      AddressText.isSymbol found.name = true) :
    ∀ name ∈ name?, AddressText.isSymbol name = true := by
  cases hRel with
  | none =>
      intro name hName
      cases hName
  | @some id name hShows =>
      rintro _ ⟨⟩
      exact hShows.isSymbol (hNames id rfl)

theorem wellNamed_wordTerms (word : Int32) : ∀ term ∈ wordTerms word, term.WellNamed := by
  intro term hTerm
  unfold wordTerms at hTerm
  split at hTerm
  · cases hTerm
  · obtain rfl := List.mem_singleton.mp hTerm
    trivial

/-- If names and symbols are symbols, no term has a sign inside it. Numbers
need no assumption. -/
theorem wellNamed_shownTerms {displacement : Int32}
    (hBase : ∀ shown ∈ base, AddressText.isSymbol shown = true)
    (hIndex : ∀ shown ∈ index, AddressText.isSymbol shown = true)
    (hSymbol : ∀ target ∈ operand.symbol?, AddressText.isSymbol target.symbol = true) :
    ∀ term ∈ operand.shownTerms base index displacement, term.WellNamed := by
  have hNamed (factor : Nat) (shown? : Option String)
      (h : ∀ shown ∈ shown?, AddressText.isSymbol shown = true) :
      ∀ term ∈ shown?.toList.map (SumTerm.name factor), SumTerm.WellNamed term := by
    intro term hTerm
    obtain ⟨shown, hShown, rfl⟩ := List.mem_map.mp hTerm
    exact SumTerm.noSigns_of_isSymbol (h shown (Option.mem_toList.mp hShown))
  have hOffset : ∀ term ∈ operand.offset.toList.flatMap Constant.terms, term.WellNamed := by
    intro term hTerm
    unfold symbol? at hSymbol
    rcases hConstant : operand.offset with _ | value | target <;> rw [hConstant] at hTerm hSymbol
    · cases hTerm
    · exact wellNamed_wordTerms value term (by simpa [Constant.terms] using hTerm)
    · have hTarget : term ∈ target.terms := by simpa [Constant.terms] using hTerm
      rcases List.mem_cons.mp hTarget with rfl | hAddend
      · exact SumTerm.noSigns_of_isSymbol (hSymbol target rfl)
      · exact wellNamed_wordTerms target.addend term hAddend
  intro term hTerm
  unfold shownTerms orZero at hTerm
  split at hTerm
  · obtain rfl := List.mem_singleton.mp hTerm
    trivial
  · simp only [sumTerms, nameTerms, List.mem_append] at hTerm
    rcases hTerm with ((hName | hName) | hWord) | hConstant
    · exact hNamed 1 base hBase term hName
    · exact hNamed _ index hIndex term hName
    · exact wellNamed_wordTerms displacement term hWord
    · exact hOffset term hConstant

/-- The numbers in the sum are the displacement of the base and the number in
the offset. They are added up as integers here and wrap around only later. -/
theorem numbers_shownTerms (base index : Option String) (displacement : Int32) :
    SumTerm.numbers (operand.shownTerms base index displacement) =
      displacement.toInt + operand.offsetValue.toInt := by
  have hZero (terms : List SumTerm) : SumTerm.numbers (orZero terms) = SumTerm.numbers terms := by
    unfold orZero
    split
    case isTrue hEmpty =>
      rw [hEmpty]
      rfl
    case isFalse => rfl
  have hNames : SumTerm.numbers (operand.nameTerms base index) = 0 := by
    cases base <;> cases index <;> rfl
  have hOffset : SumTerm.numbers (operand.offset.toList.flatMap Constant.terms) =
      operand.offsetValue.toInt := by
    unfold offsetValue
    rcases operand.offset with _ | value | target
    · rfl
    · simpa [Constant.terms] using numbers_wordTerms value
    · simpa [Constant.terms, Relocatable.terms, SumTerm.numbers] using
        numbers_wordTerms target.addend
  rw [shownTerms, hZero, sumTerms, SumTerm.numbers_append, SumTerm.numbers_append, hNames,
    numbers_wordTerms, hOffset, Int.zero_add]

/-- The terms are the names, then numbers, and then the symbol with its addend.
The order is that of the text. -/
theorem shownTerms_parts (operand : MemoryOperand) (base index : Option String)
    (displacement : Int32) :
    ∃ integers : List Int, operand.shownTerms base index displacement =
      base.toList.map (.name 1) ++ index.toList.map (.name (1 <<< operand.scale.shift)) ++
        integers.map .number ++ operand.symbol?.toList.flatMap Relocatable.terms := by
  have hNames : operand.nameTerms base index =
      base.toList.map (.name 1) ++ index.toList.map (.name (1 <<< operand.scale.shift)) := by
    rw [nameTerms, Scale.factor_eq_shiftLeft]
    rfl
  have hWord (word : Int32) : ∃ integers : List Int, wordTerms word = integers.map .number := by
    unfold wordTerms
    split
    · exact ⟨[], rfl⟩
    · exact ⟨[word.toInt], rfl⟩
  have hOffset : ∃ integers : List Int, operand.offset.toList.flatMap Constant.terms =
      integers.map .number ++ operand.symbol?.toList.flatMap Relocatable.terms := by
    unfold symbol?
    rcases operand.offset with _ | value | target
    · exact ⟨[], rfl⟩
    · obtain ⟨integers, hIntegers⟩ := hWord value
      exact ⟨integers, by simp [Constant.terms, hIntegers]⟩
    · exact ⟨[], by simp [Constant.terms]⟩
  obtain ⟨first, hFirst⟩ := hWord displacement
  obtain ⟨second, hSecond⟩ := hOffset
  have hTerms : operand.sumTerms base index displacement = operand.nameTerms base index ++
      (first ++ second).map .number ++ operand.symbol?.toList.flatMap Relocatable.terms := by
    rw [sumTerms, hFirst, hSecond, List.map_append]
    simp only [List.append_assoc]
  rw [← hNames]
  unfold shownTerms orZero
  split
  case isTrue hEmpty =>
    rw [hTerms, List.append_eq_nil_iff, List.append_eq_nil_iff] at hEmpty
    obtain ⟨⟨hNone, -⟩, hNoSymbol⟩ := hEmpty
    exact ⟨[0], by rw [hNone, hNoSymbol]; rfl⟩
  case isFalse => exact ⟨first ++ second, hTerms⟩

/-- The text between brackets is a sum of the parts of the operand, and of no
others. -/
structure IsSum (f : Function) (operand : MemoryOperand) (text : String) (terms : List SumTerm) :
    Prop where
  bracketed : text = "[" ++ SumTerm.sumText terms ++ "]"
  nonempty : SumTerm.sumText terms ≠ ""
  wellNamed : ∀ term ∈ terms, term.WellNamed
  read : SumTerm.readSum text.toList = some terms
  /-- No other terms have this text, even if their names are not symbols. -/
  unique : ∀ others : List SumTerm, (∀ term ∈ others, term.WellNamed) →
    SumTerm.sumText others = SumTerm.sumText terms → others = terms
  plusSigns : SumTerm.PlusSigns (SumTerm.sumText terms).toList
  /-- A symbol and its addend are there exactly if the offset is
  relocatable. -/
  parts : ∃ (base index : Option String) (integers : List Int), operand.ShowsNames f base index ∧
    terms = base.toList.map (.name 1) ++ index.toList.map (.name (1 <<< operand.scale.shift)) ++
      integers.map .number ++ operand.symbol?.toList.flatMap Relocatable.terms
  /-- The numbers are taken modulo two to the power of 32, as addresses take
  them. -/
  total : ∃ displacement, operand.baseDisplacement f = .ok displacement ∧
    Int32.ofInt (SumTerm.numbers terms) = displacement + operand.offsetValue
  address : ∀ (a after : Assembler) (address : Address),
    operand.toAddress f a = .done address after →
      address.displacement = Int32.ofInt (SumTerm.numbers terms)

/-- All that is claimed of the text, put together: how it is read, that it is
read in no other way, and what its numbers add up to. -/
theorem ShowsNames.isSum (h : operand.ShowsNames f base index) {displacement : Int32}
    (hDisplacement : operand.baseDisplacement f = .ok displacement)
    (hNamed : ∀ term ∈ operand.shownTerms base index displacement, term.WellNamed) :
    operand.IsSum f ("[" ++ SumTerm.sumText (operand.shownTerms base index displacement) ++ "]")
      (operand.shownTerms base index displacement) := by
  have hNonempty : operand.shownTerms base index displacement ≠ [] := by
    unfold shownTerms orZero
    split
    · exact List.cons_ne_nil _ _
    · assumption
  have hTotal : Int32.ofInt (SumTerm.numbers (operand.shownTerms base index displacement)) =
      displacement + operand.offsetValue := by
    rw [numbers_shownTerms, Int32.ofInt_add, Int32.ofInt_toInt, Int32.ofInt_toInt]
  obtain ⟨integers, hParts⟩ := operand.shownTerms_parts base index displacement
  exact {
    bracketed := rfl
    nonempty := SumTerm.sumText_ne_empty hNonempty hNamed
    wellNamed := hNamed
    read := SumTerm.readSum_sumText hNonempty hNamed
    unique := fun _ hOthers hSame => SumTerm.sumText_injective hNonempty hNamed hOthers hSame
    plusSigns := SumTerm.plusSigns_sumText hNonempty hNamed
    parts := ⟨base, index, integers, h, hParts⟩
    total := ⟨displacement, hDisplacement, hTotal⟩
    address := by
      intro a after address hAddress
      obtain ⟨_, hResolved, rfl, -⟩ := (toAddress_eq_done_iff _ _ _ _ _).mp hAddress
      obtain ⟨_, _, _, hAgain, -, -, -, rfl, -⟩ := (resolve_eq_ok_iff _ _ _).mp hResolved
      cases hDisplacement.symm.trans hAgain
      exact hTotal.symm }

/-- The debug text of a memory operand whose variables exist, before allocation
or after it, is cut short exactly by a rematerializable base outside the frame
pointer and the stack pointer. Otherwise, if names and symbols are symbols, the
text is the sum of the parts of the operand: it is read as these terms and as
no others, and its numbers add up to the displacement of the address. -/
theorem dump_isSum (f : Function) (operand : MemoryOperand)
    (hIds : ∀ id, id ∈ operand.base ∨ id ∈ operand.index → id.number.toNat < f.locals.size) :
    ((∃ cause, (operand.dump f).Stops cause) ↔
      ∃ id ∈ operand.base, ∃ found, f.lookup id = .ok found ∧ found.rematerializable = true ∧
        found.register ≠ some .rbp ∧ found.register ≠ some .rsp) ∧
    ∀ text, (operand.dump f).Shows text →
      (∀ id, id ∈ operand.base ∨ id ∈ operand.index → ∀ found, f.lookup id = .ok found →
        AddressText.isSymbol found.name = true) →
      (∀ target ∈ operand.symbol?, AddressText.isSymbol target.symbol = true) →
        ∃ terms, operand.IsSum f text terms := by
  have hFound (id : VariableId) (hId : id ∈ operand.base ∨ id ∈ operand.index) :
      ∃ found, f.lookup id = .ok found := (f.exists_lookup_iff id).mpr (hIds id hId)
  obtain ⟨base, index, hNames⟩ := exists_showsNames hFound
  refine ⟨?stops, ?shows⟩
  case stops =>
    constructor
    · rintro ⟨cause, hStops⟩
      have hNone : ¬ ∃ displacement, operand.baseDisplacement f = .ok displacement := by
        rintro ⟨displacement, hDisplacement⟩
        exact hStops.not_shows _ (hNames.shows_dump hDisplacement)
      rw [exists_baseDisplacement_iff] at hNone
      push Not at hNone
      obtain ⟨id, hId, hStray⟩ := hNone
      obtain ⟨found, hLookup⟩ := hFound id (.inl hId)
      exact ⟨id, hId, found, hLookup, hStray found hLookup⟩
    · rintro ⟨id, hId, found, hLookup, hRematerializable, hFrame, hStack⟩
      -- A dump that is shown has found the displacement of its base, and there is none here.
      refine (operand.dump f).shows_or_stops.resolve_left ?_
      rintro ⟨text, hText⟩
      obtain ⟨_, hAgain, hPointer⟩ := exists_baseDisplacement_iff.mp
        (exists_baseDisplacement_of_shows hText) id hId
      cases hLookup.symm.trans hAgain
      exact (hPointer hRematerializable).elim hFrame hStack
  case shows =>
    intro text hText hVariables hSymbol
    obtain ⟨displacement, hDisplacement⟩ := exists_baseDisplacement_of_shows hText
    obtain rfl := hText.unique (hNames.shows_dump hDisplacement)
    have hBase := isSymbol_of_rel hNames.base fun id hId => hVariables id (.inl hId)
    have hIndex := isSymbol_of_rel hNames.index fun id hId => hVariables id (.inr hId)
    exact ⟨_, hNames.isSum hDisplacement (wellNamed_shownTerms hBase hIndex hSymbol)⟩

/-- A base that stands for the stack pointer, an index that has no register
yet, and a symbol. -/
theorem dump_isSum_rematerialized :
    let f : Function := ⟨"f", ⟨true, 8⟩,
      #[⟨"p", .i64, some .rsp, 24, true⟩, ⟨"i", .i64, none, 0, false⟩]⟩
    let operand : MemoryOperand :=
      .ofParts .i32 (some ⟨0⟩) (some ⟨1⟩) (some (.relocatable ⟨"g", -4⟩)) .four
    (∀ id, id ∈ operand.base ∨ id ∈ operand.index → id.number.toNat < f.locals.size) ∧
      (operand.dump f).Shows "[%rsp+4*%i+24+@g-4]" ∧
      ∃ terms, operand.IsSum f "[%rsp+4*%i+24+@g-4]" terms := by
  intro f operand
  have hIds : ∀ id, id ∈ operand.base ∨ id ∈ operand.index → id.number.toNat < f.locals.size := by
    rintro id (hId | hId) <;> obtain rfl := Option.some.inj hId <;> decide
  have hText : (operand.dump f).Shows "[%rsp+4*%i+24+@g-4]" := by decide
  refine ⟨hIds, hText, (dump_isSum f operand hIds).2 _ hText ?_ ?_⟩
  · rintro id (hId | hId) found hFound <;> obtain rfl := Option.some.inj hId <;>
      obtain rfl := Except.ok.inj hFound <;> decide
  · rintro _ ⟨⟩
    decide

end MemoryOperand

end Amd64
