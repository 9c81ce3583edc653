import Amd64.Proofs.Instruction.Listing

/-!
Which encoded instructions have a listing. An address has room for one
displacement, in which the addend of a symbol and the displacement of a
rematerializable base are added up; a listing shows the symbol there, and has
no place for the other. That is the only obstacle:
`Instruction.shows_listing_iff_of_encode`.
-/

namespace Amd64

open Rendering

namespace Operand

/-- The offset of an operand is a symbol, and its base is a rematerializable
variable that stands for a displacement. The one place before the registers
cannot show both. -/
def Clashes (f : Function) (operand : Operand) (cause : Fault) : Prop :=
  ∃ part target displacement, operand.relocation? = some (part, target) ∧
    part.baseDisplacement f = .ok displacement ∧ displacement ≠ 0 ∧
    cause = .rematerializedSymbol target.symbol displacement

/-- Without a symbol there is nothing that could clash. -/
theorem not_clashes_of_relocation?_eq_none {f : Function} {operand : Operand}
    (h : operand.relocation? = none) (cause : Fault) : ¬ operand.Clashes f cause := by
  rintro ⟨_, _, _, hSome, -⟩
  rw [h] at hSome
  cases hSome

theorem stops_listing_memory_iff {f : Function} {part : MemoryOperand} {a after : Assembler}
    {address : Address} (h : part.toAddress f a = .done address after) (cause : Fault) :
    (part.listing f).Stops cause ↔ (memory part).Clashes f cause := by
  obtain ⟨displacement, _, hBase, -, -, -, -, -, hListed⟩ := MemoryOperand.writes_of_toAddress h
  cases hSymbol : part.symbol? with
  | none =>
      obtain ⟨text, hText, -⟩ := hListed (Or.inl hSymbol)
      exact iff_of_false (hText.not_stops cause)
        (not_clashes_of_relocation?_eq_none (by simp [relocation?, hSymbol]) cause)
  | some target =>
      -- The addend is shown after the symbol, so that only the base can be in the way.
      have hRelocation : (memory part).relocation? = some (part, target) := by
        simp [relocation?, hSymbol]
      by_cases hZero : displacement = 0
      · obtain ⟨text, hText, -⟩ := hListed (Or.inr hZero)
        refine iff_of_false (hText.not_stops cause) ?_
        rintro ⟨_, _, _, hPart, hOther, hNonzero, -⟩
        cases hRelocation.symm.trans hPart
        cases hBase.symm.trans hOther
        exact hNonzero hZero
      · have hStops := MemoryOperand.stops_listing_of_symbol h hSymbol hBase hZero
        constructor
        · intro hCause
          exact ⟨part, target, displacement, hRelocation, hBase, hZero, hCause.unique hStops⟩
        · rintro ⟨_, _, _, hPart, hOther, -, rfl⟩
          cases hRelocation.symm.trans hPart
          cases hBase.symm.trans hOther
          exact hStops

/-- Of the operands that have a place, those cannot be shown whose symbol
clashes. All others can: this is an equivalence, also about which fault it
is. -/
theorem LocatedAt.stops_listing_iff {f : Function} {operand : Operand} {place : Place}
    {a after : Assembler} (h : operand.LocatedAt f a place after) (cause : Fault) :
    (operand.listing f).Stops cause ↔ operand.Clashes f cause := by
  have hShown {text : String} (hText : (operand.listing f).Shows text)
      (hNone : operand.relocation? = none) :
      (operand.listing f).Stops cause ↔ operand.Clashes f cause :=
    iff_of_false (hText.not_stops cause) (not_clashes_of_relocation?_eq_none hNone cause)
  cases h with
  | register hFound hStored hRegister =>
      exact hShown ((Function.shows_listVariable_of_register_iff hFound hRegister _).mpr
        ⟨hStored, rfl⟩) rfl
  | @slot id found _ hFound hStored hAddress =>
      have hNone := Function.register_eq_none_of_stackAddress hFound hAddress
      obtain ⟨number, -, hSlot⟩ := f.shows_listSlot found.stackOffset
      exact hShown ((Function.shows_listVariable_iff hFound hNone _).mpr ⟨hStored, hSlot⟩) rfl
  | immediate value =>
      have hText : (Constant.integer value).listing.Shows ("$" ++ Decimal.ofWord value) := by
        simp [Constant.listing, Constant.bare, shows_append_iff]
      exact hShown hText rfl
  | @half part _ hAddress =>
      obtain ⟨found, hFound, hNone, -⟩ := (SlotHalf.toAddress_eq_ok_iff _ _ _).mp hAddress
      obtain ⟨number, -, hSlot⟩ := f.shows_listSlot (found.stackOffset + part.offset)
      rw [← SlotHalf.listing_eq hFound hNone] at hSlot
      exact hShown hSlot rfl
  | memory hAddress => exact stops_listing_memory_iff hAddress cause

/-- The byte of a register can always be shown, and any other destination as
the operand it is. -/
theorem LocatedAt.stops_listByte_iff {f : Function} {operand : Operand} {place : Place}
    {a after : Assembler} (h : operand.LocatedAt f a place after) (cause : Fault) :
    (Instruction.listByte f operand).Stops cause ↔ operand.Clashes f cause := by
  rw [← h.stops_listing_iff]
  cases h with
  | register hFound hStored hRegister =>
      have hText := (Function.shows_listVariable_of_register_iff hFound hRegister _).mpr
        ⟨hStored, rfl⟩
      refine iff_of_false ?_ (Shows.not_stops hText cause)
      simp only [Instruction.listByte, hFound, withValue, hRegister]
      exact not_stops_ofText _ _
  | slot hFound hStored hAddress =>
      have hNone := Function.register_eq_none_of_stackAddress hFound hAddress
      simp only [Instruction.listByte, hFound, withValue, hNone]
  | immediate | memory | half => rfl

end Operand

namespace Instruction

variable {f : Function} {instruction : Instruction} {a after between : Assembler} {form : Form}
  {text : String}

/-- The result of an instruction that has a form can be shown, if it is stored.
A rematerializable result would be encoded and could not be shown. -/
theorem FormedAs.not_stops_result (h : instruction.FormedAs f a form between) {id : VariableId}
    (hResult : instruction.result? = some id)
    (hStored : ∀ found, f.lookup id = .ok found → found.rematerializable = false) (cause : Fault) :
    ¬ (f.listVariable id).Stops cause := by
  obtain ⟨found, register, hFound, hRegister⟩ := h.result hResult
  exact Shows.not_stops ((Function.shows_listVariable_of_register_iff hFound hRegister _).mpr
    ⟨hStored found hFound, rfl⟩) cause

/-- What cannot be shown of an instruction is an operand whose symbol clashes.
The result never is in the way. -/
theorem FormedAs.stops_shown_iff (h : instruction.FormedAs f a form between)
    (hStored : ∀ id found, instruction.result? = some id → f.lookup id = .ok found →
      found.rematerializable = false) (cause : Fault) :
    (∃ rendering ∈ instruction.shownOperands f, rendering.Stops cause) ↔
      ∃ operand ∈ instruction.operands, operand.Clashes f cause := by
  have hResult (id : VariableId) (hId : instruction.result? = some id) :=
    h.not_stops_result hId (fun found => hStored id found hId) cause
  cases h with
  | mov hDest hSrc _ =>
      simp [shownOperands, operands, hSrc.stops_listing_iff, hDest.stops_listing_iff, or_comm]
  | @lea dest src _ _ _ _ _ _ _ _ hAddress =>
      have hSrc : (src.listing f).Stops cause ↔ (Operand.memory src).Clashes f cause :=
        (Operand.LocatedAt.memory hAddress).stops_listing_iff cause
      simp [shownOperands, operands, hSrc, hResult dest rfl]
  | setcc hDest _ => simp [shownOperands, operands, hDest.stops_listByte_iff]
  | @cmpps _ dest _ _ _ _ _ _ _ _ _ hSrc _ =>
      simp [shownOperands, operands, hSrc.stops_listing_iff, hResult dest rfl]

/-- An encoded instruction has one symbol at most, so that one fault at most
can come of it. Which operand is shown first does not matter then. -/
theorem clash_unique (h : instruction.encode f a = .done () after) {first second : Operand}
    (hFirst : first ∈ instruction.operands) (hSecond : second ∈ instruction.operands)
    {cause other : Fault} (hCause : first.Clashes f cause) (hOther : second.Clashes f other) :
    cause = other := by
  obtain ⟨part, target, displacement, hPart, hBase, -, rfl⟩ := hCause
  obtain ⟨samePart, sameTarget, _, hAgain, hSame, -, rfl⟩ := hOther
  have hHere : (part, target) ∈ instruction.relocations :=
    List.mem_filterMap.mpr ⟨first, hFirst, hPart⟩
  have hThere : (samePart, sameTarget) ∈ instruction.relocations :=
    List.mem_filterMap.mpr ⟨second, hSecond, hAgain⟩
  obtain ⟨pair, hPair⟩ := List.length_eq_one_iff.mp
    (Nat.le_antisymm (length_relocations_le h) (List.length_pos_of_mem hHere))
  rw [hPair, List.mem_singleton] at hHere hThere
  cases hHere
  cases hThere
  cases hBase.symm.trans hSame
  rfl

/-- The same for any encoded instruction; of a jump everything can be shown. -/
theorem stops_shown_iff_of_encode (h : instruction.encode f a = .done () after)
    (hStored : ∀ id found, instruction.result? = some id → f.lookup id = .ok found →
      found.rematerializable = false) (cause : Fault) :
    (∃ rendering ∈ instruction.shownOperands f, rendering.Stops cause) ↔
      ∃ operand ∈ instruction.operands, operand.Clashes f cause := by
  rcases (encode_eq_done_iff _ _ _ _).mp h with ⟨condition, target, rfl, -⟩ | ⟨_, _, hFormed, -⟩
  · simp [shownOperands, operands, not_stops_ofText]
  · exact hFormed.stops_shown_iff hStored cause

/-- Where no variable that an encoded instruction names is rematerializable,
the instruction has a listing exactly if no symbol stands beside the
displacement of a rematerializable base. Such a symbol is encoded all the same,
and it is what stops the listing. -/
theorem shows_listing_iff_of_encode (h : instruction.encode f a = .done () after)
    (hStored : ∀ id found, instruction.Names id → f.lookup id = .ok found →
      found.rematerializable = false) :
    ((∃ text, (instruction.listing f).Shows text) ↔
      ∀ operand ∈ instruction.operands, ∀ cause, ¬ operand.Clashes f cause) ∧
    ∀ cause, (instruction.listing f).Stops cause ↔
      ∃ operand ∈ instruction.operands, operand.Clashes f cause := by
  have hShown (cause : Fault) := stops_shown_iff_of_encode h
    (fun id found hId => hStored id found (Or.inr hId)) cause
  have hStops (cause : Fault) (hCause : (instruction.listing f).Stops cause) :
      ∃ operand ∈ instruction.operands, operand.Clashes f cause := by
    unfold Stops at hCause
    rw [run_listing fun _ => lookup_of_encode h] at hCause
    have hPropagates := instruction.propagates_shownOperands f
    have hOperands := Propagates.separated hPropagates
    rcases (stops_append_iff _ _ _).mp hCause with hMnemonic | ⟨-, hFault⟩
    · exact absurd hMnemonic (not_stops_ofText _ _)
    · exact (hShown cause).mp (exists_stops_of_separated hPropagates hFault)
  have hClear {text : String} (hText : (instruction.listing f).Shows text) :
      ∀ operand ∈ instruction.operands, ∀ cause, ¬ operand.Clashes f cause := by
    intro operand hOperand cause hClash
    obtain ⟨shown, hAll, -⟩ := (shows_listing_iff fun _ => lookup_of_encode h).mp hText
    obtain ⟨rendering, hMember, hFault⟩ := (hShown cause).mpr ⟨operand, hOperand, hClash⟩
    obtain ⟨piece, hPiece⟩ := exists_shows_of_mem hAll hMember
    exact hPiece.not_stops cause hFault
  refine ⟨?_, fun cause => ⟨hStops cause, ?_⟩⟩
  · constructor
    · rintro ⟨text, hText⟩
      exact hClear hText
    · intro hNone
      rcases shows_or_stops (instruction.listing f) with hText | ⟨cause, hCause⟩
      · exact hText
      · obtain ⟨operand, hOperand, hClash⟩ := hStops cause hCause
        exact absurd hClash (hNone operand hOperand cause)
  · rintro ⟨operand, hOperand, hClash⟩
    rcases shows_or_stops (instruction.listing f) with ⟨text, hText⟩ | ⟨other, hOther⟩
    · exact absurd hClash (hClear hText operand hOperand cause)
    · obtain ⟨second, hSecond, hSame⟩ := hStops other hOther
      rw [clash_unique h hOperand hSecond hClash hSame]
      exact hOther

/-- A load through a rematerializable base whose two contributions cancel. -/
theorem shows_listing_iff_of_encode_load :
    let f : Function := ⟨"f", ⟨true, 8⟩,
      #[⟨"p", .i64, some .rbp, -8, true⟩, ⟨"d", .i64, some (.general ⟨0, by decide⟩), 0, false⟩]⟩
    let load : Instruction :=
      .mov .i64 (.var ⟨1⟩)
        (.memory (.ofParts .i64 (some ⟨0⟩) none (some (.relocatable ⟨"g", 4⟩)) .one))
    let after : Assembler :=
      ⟨[0x48, 0x8B, 0x85, 0x04, 0x00, 0x00, 0x00], [⟨.signed32, "g", some 3⟩], []⟩
    load.encode f .empty = .done () after ∧
      (∀ id found, load.Names id → f.lookup id = .ok found → found.rematerializable = false) ∧
      (load.listing f).Shows "movq\tg+4(%rbp), %rax" ∧
      ((∃ text, (load.listing f).Shows text) ↔
        ∀ operand ∈ load.operands, ∀ cause, ¬ operand.Clashes f cause) := by
  intro f load after
  have hEncode : load.encode f .empty = .done () after := by
    dsimp only [f, load, after]
    rfl
  have hStored (id : VariableId) (found : Variable) (hNames : load.Names id)
      (hFound : f.lookup id = .ok found) : found.rematerializable = false := by
    have hId : id = ⟨1⟩ := by
      rcases hNames with hOperand | hResult
      · simpa [load, operands] using hOperand
      · cases hResult
    subst hId
    cases hFound
    rfl
  exact ⟨hEncode, hStored, by decide, (shows_listing_iff_of_encode hEncode hStored).1⟩

/-- A symbol beside the displacement of a rematerializable base. The
instruction is encoded with the displacement in it, and its listing ends in a
fault. -/
theorem listing_mov_rematerializable_symbol :
    let f : Function := ⟨"f", .initial,
      #[⟨"p", .i64, some .rsp, 24, true⟩, ⟨"d", .i64, some (.general ⟨0, by decide⟩), 0, false⟩]⟩
    let source : Operand :=
      .memory (.ofParts .i64 (some ⟨0⟩) none (some (.relocatable ⟨"g", 0⟩)) .one)
    let load : Instruction := .mov .i64 (.var ⟨1⟩) source
    let after : Assembler :=
      ⟨[0x48, 0x8B, 0x84, 0x24, 0x18, 0x00, 0x00, 0x00], [⟨.signed32, "g", some 4⟩], []⟩
    load.encode f .empty = .done () after ∧ ¬ load.Names ⟨0⟩ ∧
      source.Clashes f (.rematerializedSymbol "g" 24) ∧
      (load.listing f).Stops (.rematerializedSymbol "g" 24) ∧
      ¬ ∃ text, (load.listing f).Shows text := by
  intro f source load after
  have hStops : (load.listing f).Stops (.rematerializedSymbol "g" 24) := by decide
  have hEncode : load.encode f .empty = .done () after := by
    dsimp only [f, source, load, after]
    rfl
  refine ⟨hEncode, ?_, ⟨_, _, 24, rfl, rfl, by decide, rfl⟩, hStops, ?_⟩
  · rintro (hOperand | hResult)
    · revert hOperand
      decide
    · cases hResult
  · rintro ⟨text, hText⟩
    exact hStops.not_shows text hText

end Instruction

end Amd64
