import Amd64.Proofs.Action.Encodings
import Amd64.Proofs.Instruction.Relocation

/-!
The fixups of a code, accounted for by the steps that led to it. A run leaves a
fixup for every symbol that one of its steps asked for and was not refused, in
their order, and the place of a fixup is where an address that carries it was
written last: `Ledger.describes_ofActions`.
-/

namespace Amd64

/-- A fixup is named by a number of 32 bits, and the number alone tells two
names apart. This is what lets positions in a list stand for names. -/
theorem FixupRef.toNat_number_inj {first second : FixupRef}
    (h : first.number.toNat = second.number.toNat) : first = second := by
  cases first
  cases second
  exact congrArg _ (UInt32.toNat_inj.mp h)

/-- The displacement of an address that was written with a fixup. It takes the
four bytes at the position. -/
structure Placement where
  ref : FixupRef
  displacement : Int32
  position : Nat
  deriving DecidableEq

namespace Placement

/-- The last position that there is for the fixup with this number. -/
def last? (placements : List Placement) (index : Nat) : Option Nat :=
  (placements.reverse.find? fun placement => placement.ref.number.toNat = index).map position

variable {placements earlier later : List Placement} {index : Nat}

/-- No place is recorded for a fixup exactly if none of the placements is for
it. Only the numbers of the fixups are compared. -/
theorem last?_eq_none_iff :
    last? placements index = none ↔
      ∀ placement ∈ placements, placement.ref.number.toNat ≠ index := by
  simp [last?, List.find?_eq_none]

/-- A recorded place always comes from one of the placements that are listed,
and from one for the same fixup. -/
theorem mem_of_last?_eq_some {position : Nat} (h : last? placements index = some position) :
    ∃ placement ∈ placements, placement.ref.number.toNat = index ∧
      placement.position = position := by
  obtain ⟨placement, hFound, hPosition⟩ := Option.map_eq_some_iff.mp h
  exact ⟨placement, List.mem_reverse.mp (List.mem_of_find?_eq_some hFound),
    of_decide_eq_true (List.find?_some hFound :), hPosition⟩

/-- Later placements decide, if any of them is for the fixup. The earlier ones
count only where the later ones have nothing to say. -/
theorem last?_append :
    last? (earlier ++ later) index = (last? later index).or (last? earlier index) := by
  rw [last?, List.reverse_append, List.find?_append, Option.map_or, last?, last?]

theorem last?_singleton (placement : Placement) :
    last? [placement] index =
      if placement.ref.number.toNat = index then some placement.position else none := by
  by_cases hSame : placement.ref.number.toNat = index
  · simp [last?, hSame]
  · simp [last?, hSame]

/-- A placement after which there is no other for its fixup is the last,
however many there were for it before. -/
theorem last?_of_last {placement : Placement}
    (hLast : ∀ other ∈ later, other.ref ≠ placement.ref) :
    last? (earlier ++ placement :: later) placement.ref.number.toNat =
      some placement.position := by
  have hLater : last? later placement.ref.number.toNat = none := by
    rw [last?_eq_none_iff]
    intro other hOther hSame
    exact hLast other hOther (FixupRef.toNat_number_inj hSame)
  rw [List.append_cons, last?_append, hLater, Option.none_or, last?_append, last?_singleton,
    if_pos rfl, Option.some_or]

/-- A placement after which there is another for its fixup is not the last. The
place that is recorded is then that of some later one. -/
theorem last?_of_replaced {placement : Placement}
    (h : ∃ other ∈ later, other.ref = placement.ref) :
    ∃ next ∈ later, last? (earlier ++ placement :: later) placement.ref.number.toNat =
      some next.position := by
  obtain ⟨other, hOther, hSame⟩ := h
  have hSome : last? later placement.ref.number.toNat ≠ none := by
    intro hNone
    exact last?_eq_none_iff.mp hNone other hOther (by rw [hSame])
  obtain ⟨position, hLater⟩ := Option.ne_none_iff_exists'.mp hSome
  obtain ⟨next, hNext, -, rfl⟩ := mem_of_last?_eq_some hLater
  refine ⟨next, hNext, ?_⟩
  rw [List.append_cons, last?_append, hLater, Option.some_or]

end Placement

/-- What an address leaves to its fixup when it is written at this position. -/
def Address.placement? (address : Address) (reg start : Nat) : Option Placement :=
  address.fixup.map fun ref =>
    ⟨ref, address.displacement, start + (address.encode reg).displacementStart⟩

def Form.placement? (form : Form) (start : Nat) : Option Placement :=
  form.other.address?.bind fun address =>
    address.placement? form.reg (start + form.leading.length)

/-- A memory form whose address has a fixup leaves its displacement to this
fixup. It stands behind the opcode and what announces it. -/
theorem Form.placement?_of_carried {form : Form} {address : Address} {ref : FixupRef}
    (hOther : form.other = .memory address) (hFixup : address.fixup = some ref) (start : Nat) :
    form.placement? start =
      some ⟨ref, address.displacement, start + (form.beforeDisplacement address).length⟩ := by
  rw [placement?, hOther, beforeDisplacement, List.length_append, AddressEncoding.length_head,
    ← Nat.add_assoc]
  simp [RegisterOrMemory.address?, Address.placement?, hFixup]

/-- Without a fixup in the address there is nothing to complete, and a form
between registers has no address at all. -/
theorem Form.placement?_of_uncarried {form : Form}
    (h : ∀ address ∈ form.other.address?, address.fixup = none) (start : Nat) :
    form.placement? start = none := by
  rw [placement?, Option.bind_eq_none_iff]
  intro address hAddress
  rw [Address.placement?, h address hAddress]
  rfl

namespace Instruction

/-- What an instruction leaves to a fixup when it is encoded. One that has no
form leaves nothing. -/
def placement? (f : Function) (instruction : Instruction) (a : Assembler) : Option Placement :=
  match instruction.form? f with
  | none => none
  | some find =>
      match find a with
      | .done form _ => form.placement? a.position
      | _ => none

variable {f : Function} {instruction : Instruction} {a after : Assembler}

/-- The placement of an instruction is that of the form it is written in,
counted from the end of the code before it. -/
theorem placement?_of_formedAs {form : Form} {between : Assembler}
    (h : instruction.FormedAs f a form between) :
    instruction.placement? f a = form.placement? a.position := by
  cases hFind : instruction.form? f with
  | none =>
      obtain ⟨condition, target, rfl⟩ := (form?_eq_none_iff _ _).mp hFind
      cases h
  | some find =>
      have hForm := (form?_eq_done_iff hFind a between form).mpr h
      simp only [placement?, hFind, hForm]

/-- A refused instruction has written no address. The fixups it requested on
the way are gone with it. -/
theorem placement?_of_refused {reason : Refusal}
    (h : instruction.encode f a = .refused reason after) : instruction.placement? f a = none := by
  obtain ⟨left, hLeft, -⟩ := (Assembly.orRollback_eq_refused_iff _ _ _ _).mp h
  cases hFind : instruction.form? f with
  | none => simp only [placement?, hFind]
  | some find =>
      rw [write_eq_of_form? hFind, Assembly.bind_eq_refused_iff] at hLeft
      rcases hLeft with hRefused | ⟨form, between, -, hEmit⟩
      · simp only [placement?, hFind, hRefused]
      · exact absurd hEmit (form.emit_neverRefused _ _ _)

/-- An encoded instruction adds the fixup for its symbol with the place of its
displacement, and without a symbol it writes no address with a fixup. The bound
says that there was a number left to name the new fixup by. -/
theorem fixups_of_encode (h : instruction.encode f a = .done () after)
    (hRoom : after.fixups.length ≤ 4294967296) :
    (instruction.relocations = [] ∧ instruction.placement? f a = none ∧
      after.fixups = a.fixups) ∨
    ∃ part target placement, instruction.relocations = [(part, target)] ∧
      instruction.placement? f a = some placement ∧
      placement.ref.number.toNat = a.fixups.length ∧
      after.fixups = a.fixups ++ [⟨.signed32, target.symbol, some placement.position⟩] := by
  rcases (encode_eq_done_iff _ _ _ _).mp h with
    ⟨condition, target, rfl, hJump⟩ | ⟨form, between, hFormed, hEmit⟩
  · exact Or.inl ⟨rfl, rfl, Assembler.fixups_of_emitJump hJump⟩
  · obtain ⟨operand, place, hLocated, hRelocations, hOther⟩ := hFormed.deciding
    rw [placement?_of_formedAs hFormed, hRelocations]
    rcases hLocated.relocation_cases with
      ⟨hNone, rfl, hUncarried⟩ | ⟨part, target, address, hSome, hSymbol, hPlace, hAddress⟩
    · rw [← hOther] at hUncarried
      rw [hNone]
      exact Or.inl ⟨rfl, Form.placement?_of_uncarried hUncarried _,
        Form.fixups_of_emit_uncarried hUncarried hEmit⟩
    · obtain ⟨base, -, -, hFixup, rfl⟩ :=
        MemoryOperand.of_toAddress_of_symbol hSymbol hAddress
      rw [hPlace, RegisterOrMemory.address?_eq_some_iff] at hOther
      have hPlaced := Form.fixups_of_emit_carried hOther hFixup hEmit hRoom
      have hNumber : a.nextFixup.number.toNat = a.fixups.length := by
        rw [hPlaced, List.length_append, List.length_singleton] at hRoom
        exact UInt32.toNat_ofNat_of_lt' (show a.fixups.length < 4294967296 by omega)
      rw [hSome]
      exact Or.inr ⟨part, target, _, rfl, Form.placement?_of_carried hOther hFixup _, hNumber,
        hPlaced⟩

end Instruction

namespace Action

/-- The symbols for which a step leaves fixups. A refused instruction leaves
none. -/
def symbols (a : Assembler) : Action → List String
  | createFixup target => [target.symbol]
  | translate _ operand => operand.symbol?.toList.map Relocatable.symbol
  | encode f instruction =>
      match instruction.encode f a with
      | .done _ _ => instruction.relocations.map fun (_, target) => target.symbol
      | _ => []
  | _ => []

/-- What a step leaves to a fixup by writing an address that carries it. -/
def placement? (a : Assembler) : Action → Option Placement
  | emitAddress reg address => address.placement? reg a.position
  | encode f instruction => instruction.placement? f a
  | _ => none

end Action

/-- What the steps of a run have to do with fixups. -/
structure Ledger where
  /-- The symbols that fixups were left for, in the order of the steps. -/
  symbols : List String
  /-- The displacements that were written for fixups, in the order of the
  steps. -/
  placements : List Placement

namespace Ledger

instance : Append Ledger where
  append first second :=
    ⟨first.symbols ++ second.symbols, first.placements ++ second.placements⟩

@[simp] theorem symbols_append (first second : Ledger) :
    (first ++ second).symbols = first.symbols ++ second.symbols := rfl

@[simp] theorem placements_append (first second : Ledger) :
    (first ++ second).placements = first.placements ++ second.placements := rfl

theorem append_assoc (first second third : Ledger) :
    first ++ second ++ third = first ++ (second ++ third) := by
  change Ledger.mk _ _ = Ledger.mk _ _
  rw [symbols_append, placements_append, List.append_assoc, List.append_assoc]
  rfl

theorem append_nil (ledger : Ledger) : ledger ++ ⟨[], []⟩ = ledger := by
  change Ledger.mk _ _ = ledger
  rw [List.append_nil, List.append_nil]

def ofAction (action : Action) (a : Assembler) : Ledger :=
  ⟨action.symbols a, (action.placement? a).toList⟩

/-- The steps of a run, up to the first fault. -/
def ofActions : List Action → Assembler → Ledger
  | [], _ => ⟨[], []⟩
  | action :: rest, a =>
      match action.apply a with
      | .ok after => ofAction action a ++ ofActions rest after
      | .error _ => ⟨[], []⟩

/-- The fixups that the steps leave: one for each symbol, at its last place. -/
def fixups (ledger : Ledger) : List Fixup :=
  ledger.symbols.mapIdx fun index symbol =>
    ⟨.signed32, symbol, Placement.last? ledger.placements index⟩

/-- The fixups of a ledger, looked at one by one: each has the symbol it was
requested for, and the place of the last displacement left to it. -/
theorem getElem?_fixups (ledger : Ledger) (index : Nat) :
    ledger.fixups[index]? = ledger.symbols[index]?.map fun symbol =>
      ⟨.signed32, symbol, Placement.last? ledger.placements index⟩ :=
  List.getElem?_mapIdx

/-- The fixups of a code as far as a ledger accounts for them. -/
structure Describes (ledger : Ledger) (a : Assembler) : Prop where
  fixups : a.fixups = ledger.fixups
  /-- An address only ever carries a fixup that exists. -/
  known : ∀ placement ∈ ledger.placements,
    placement.ref.number.toNat < ledger.symbols.length

theorem describes_empty : (⟨[], []⟩ : Ledger).Describes .empty :=
  ⟨rfl, fun _ h => by cases h⟩

namespace Describes

variable {ledger : Ledger} {a after : Assembler}

/-- A ledger that describes a code has a symbol for each of its fixups, and no
more. -/
theorem length_fixups (h : ledger.Describes a) : a.fixups.length = ledger.symbols.length := by
  rw [h.fixups, Ledger.fixups, List.length_mapIdx]

theorem map_symbol_fixups (h : ledger.Describes a) :
    a.fixups.map Fixup.symbol = ledger.symbols := by
  apply List.ext_getElem?
  intro index
  rw [List.getElem?_map, h.fixups, getElem?_fixups, Option.map_map]
  exact Option.map_id_apply

theorem keep (h : ledger.Describes a) (hFixups : after.fixups = a.fixups) :
    (ledger ++ ⟨[], []⟩).Describes after := by
  rw [append_nil]
  exact ⟨hFixups.trans h.fixups, h.known⟩

/-- A new fixup has no place, because no address can have carried it yet: the
steps before it could not have named it. -/
theorem request (h : ledger.Describes a) (symbols : List String)
    (hFixups : after.fixups = a.fixups ++ symbols.map fun symbol => ⟨.signed32, symbol, none⟩) :
    (ledger ++ ⟨symbols, []⟩).Describes after := by
  have hNone (index : Nat) :
      Placement.last? ledger.placements (index + ledger.symbols.length) = none := by
    rw [Placement.last?_eq_none_iff]
    intro placement hPlacement
    have hKnown := h.known placement hPlacement
    omega
  refine ⟨?_, ?_⟩
  · rw [hFixups, h.fixups, Ledger.fixups, Ledger.fixups, symbols_append, placements_append,
      List.append_nil, List.mapIdx_append]
    have hNew : symbols.mapIdx (fun index symbol => (⟨.signed32, symbol,
          Placement.last? ledger.placements (index + ledger.symbols.length)⟩ : Fixup)) =
        symbols.map fun symbol => ⟨.signed32, symbol, none⟩ := by
      apply List.ext_getElem?
      intro index
      rw [List.getElem?_mapIdx, List.getElem?_map, hNone]
    rw [hNew]
  · intro placement hPlacement
    rw [placements_append, List.append_nil] at hPlacement
    have hKnown := h.known placement hPlacement
    rw [symbols_append, List.length_append]
    omega

/-- An address with a fixup moves the fixup to its own place, also if it had
one before. -/
theorem place (h : ledger.Describes a) {placement : Placement} {found : Fixup}
    (hFound : a.fixups[placement.ref.number.toNat]? = some found)
    (hFixups : after.fixups = a.fixups.set placement.ref.number.toNat
      { found with position := some placement.position }) :
    (ledger ++ ⟨[], [placement]⟩).Describes after := by
  have hBound := (List.getElem?_eq_some_iff.mp hFound).1
  refine ⟨?_, ?_⟩
  · apply List.ext_getElem?
    intro index
    rw [getElem?_fixups, symbols_append, placements_append, List.append_nil,
      Placement.last?_append, Placement.last?_singleton, hFixups, List.getElem?_set]
    by_cases hSame : placement.ref.number.toNat = index
    · rw [h.fixups, getElem?_fixups] at hFound
      obtain ⟨symbol, hSymbol, rfl⟩ := Option.map_eq_some_iff.mp hFound
      rw [hSame] at hSymbol hBound
      simp [hSame, hSymbol, hBound]
    · simp only [if_neg hSame, Option.none_or, h.fixups, getElem?_fixups]
  · intro other hOther
    rw [placements_append, List.mem_append, List.mem_singleton] at hOther
    rw [symbols_append, List.append_nil]
    rcases hOther with hOther | rfl
    · exact h.known other hOther
    · rw [← h.length_fixups]
      exact hBound

/-- Every step does to the fixups what it does to the ledger. A refused step
does nothing to either. -/
theorem apply {action : Action} (h : ledger.Describes a) (hApply : action.apply a = .ok after)
    (hRoom : after.fixups.length ≤ 4294967296) : (ledger ++ ofAction action a).Describes after := by
  cases (Action.apply_eq_ok_iff _ _ _).mp hApply with
  | emit | emitRex | newLabel => exact h.keep rfl
  | bind hStep => exact h.keep (Assembler.fixups_of_bind hStep)
  | emitDistance hStep => exact h.keep (Assembler.fixups_of_emitDistance hStep)
  | emitJump hStep => exact h.keep (Assembler.fixups_of_emitJump hStep)
  | createFixup target => exact h.request [target.symbol] rfl
  | @translate f operand address _ hStep =>
      obtain ⟨_, -, -, rfl⟩ := (MemoryOperand.toAddress_eq_done_iff _ _ _ _ _).mp hStep
      refine h.request (operand.symbol?.toList.map Relocatable.symbol) ?_
      rw [Assembler.fixups_withFixups, MemoryOperand.requested, List.map_map]
      rfl
  | @emitAddress reg address _ hStep =>
      rcases (Assembler.emitAddress_eq_ok_iff _ _ _ _).mp hStep with
        ⟨hNone, rfl⟩ | ⟨ref, found, hRef, hFound, rfl⟩
      · have hLedger : ofAction (.emitAddress reg address) a = ⟨[], []⟩ := by
          simp [ofAction, Action.symbols, Action.placement?, Address.placement?, hNone]
        rw [hLedger]
        exact h.keep rfl
      · have hLedger : ofAction (.emitAddress reg address) a = ⟨[], [⟨ref, address.displacement,
            a.position + (address.encode reg).displacementStart⟩]⟩ := by
          simp [ofAction, Action.symbols, Action.placement?, Address.placement?, hRef]
        rw [hLedger]
        exact h.place hFound rfl
  | @encode f instruction _ hStep =>
      have hSymbols : (Action.encode f instruction).symbols a =
          instruction.relocations.map fun (_, target) => target.symbol := by
        simp only [Action.symbols, hStep]
      rcases Instruction.fixups_of_encode hStep hRoom with ⟨hNone, hUnplaced, hFixups⟩ |
        ⟨part, target, placement, hSome, hPlaced, hNumber, hFixups⟩
      · have hLedger : ofAction (.encode f instruction) a = ⟨[], []⟩ := by
          rw [ofAction, hSymbols, hNone, Action.placement?, hUnplaced]
          rfl
        rw [hLedger]
        exact h.keep hFixups
      · have hLedger : ofAction (.encode f instruction) a =
            ⟨[target.symbol], []⟩ ++ ⟨[], [placement]⟩ := by
          rw [ofAction, hSymbols, hSome, Action.placement?, hPlaced]
          rfl
        -- The instruction creates its fixup before it gives it a place.
        have hRequested : (ledger ++ ⟨[target.symbol], []⟩).Describes
            (a.withFixups [⟨.signed32, target.symbol, none⟩]) := h.request [target.symbol] rfl
        have hFound : (a.withFixups [⟨.signed32, target.symbol, none⟩]).fixups[
            placement.ref.number.toNat]? = some ⟨.signed32, target.symbol, none⟩ := by
          rw [Assembler.fixups_withFixups, hNumber, List.getElem?_concat_length]
        rw [hLedger, ← append_assoc]
        refine hRequested.place hFound ?_
        rw [hFixups, Assembler.fixups_withFixups, hNumber]
        simp
  | @refused f instruction reason hStep =>
      have hLedger : ofAction (.encode f instruction) a = ⟨[], []⟩ := by
        rw [ofAction, Action.placement?, Instruction.placement?_of_refused hStep]
        simp only [Action.symbols, hStep, Option.toList_none]
      rw [hLedger]
      exact h.keep rfl

end Describes

end Ledger

namespace Action

/-- No step takes fixups away that were there before it. A refused one takes
back no more than what it requested itself. -/
theorem length_fixups_le {action : Action} {a after : Assembler}
    (h : action.apply a = .ok after) : a.fixups.length ≤ after.fixups.length := by
  have hSame (hFixups : after.fixups = a.fixups) : a.fixups.length ≤ after.fixups.length :=
    Nat.le_of_eq (congrArg List.length hFixups.symm)
  cases (apply_eq_ok_iff _ _ _).mp h with
  | emit | emitRex | newLabel | refused => exact Nat.le_refl _
  | bind hStep => exact hSame (Assembler.fixups_of_bind hStep)
  | emitDistance hStep => exact hSame (Assembler.fixups_of_emitDistance hStep)
  | emitJump hStep => exact hSame (Assembler.fixups_of_emitJump hStep)
  | createFixup target => simp [Assembler.createFixup]
  | translate hStep =>
      obtain ⟨_, -, -, rfl⟩ := (MemoryOperand.toAddress_eq_done_iff _ _ _ _ _).mp hStep
      simp
  | emitAddress hStep => exact Nat.le_of_eq (Assembler.emitAddress_extends hStep).2.2.symm
  | encode hStep =>
      rcases (Instruction.encode_eq_done_iff _ _ _ _).mp hStep with
        ⟨_, _, -, hJump⟩ | ⟨form, between, hFormed, hEmit⟩
      · exact hSame (Assembler.fixups_of_emitJump hJump)
      · obtain ⟨fixups, rfl⟩ := hFormed.after_eq
        rw [(Form.emit_extends hEmit).2.2]
        simp

/-- Fixups are never given up, so that the number of those at the end bounds
their number at every moment of a run. -/
theorem length_fixups_le_of_applyAll {actions : List Action} {a final : Assembler}
    (h : applyAll actions a = .ok final) : a.fixups.length ≤ final.fixups.length := by
  induction actions generalizing a with
  | nil =>
      cases h
      exact Nat.le_refl _
  | cons action rest ih =>
      obtain ⟨after, hStep, hRest⟩ := (applyAll_cons_eq_ok_iff _ _ _ _).mp h
      exact Nat.le_trans (length_fixups_le hStep) (ih hRest)

end Action

namespace Ledger

/-- Along a run the ledger of the steps describes the fixups, as long as fixups
can be numbered. It is enough that they can be at the end. -/
theorem Describes.applyAll {ledger : Ledger} {actions : List Action} {a final : Assembler}
    (h : ledger.Describes a) (hRun : Action.applyAll actions a = .ok final)
    (hRoom : final.fixups.length ≤ 4294967296) :
    (ledger ++ ofActions actions a).Describes final := by
  induction actions generalizing ledger a with
  | nil =>
      cases hRun
      rw [ofActions, append_nil]
      exact h
  | cons action rest ih =>
      obtain ⟨after, hStep, hRest⟩ := (Action.applyAll_cons_eq_ok_iff _ _ _ _).mp hRun
      have hAfter := Nat.le_trans (Action.length_fixups_le_of_applyAll hRest) hRoom
      have hFinal := ih (h.apply hStep hAfter) hRest
      rw [append_assoc] at hFinal
      rw [ofActions, hStep]
      exact hFinal

/-- The ledger of the steps from the beginning describes the fixups of the
code, because at the beginning there is neither a fixup nor an entry. -/
theorem describes_ofActions {actions : List Action} {a : Assembler}
    (hRun : Action.applyAll actions .empty = .ok a) (hRoom : a.fixups.length ≤ 4294967296) :
    (ofActions actions .empty).Describes a :=
  describes_empty.applyAll hRun hRoom

end Ledger

end Amd64
