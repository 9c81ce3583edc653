import Amd64.Proofs.Action.Encodings
import Amd64.Proofs.Instruction.Relocation
import Mathlib.Data.List.Forall2

/-!
The fixups of a run that leaves them to instructions. There is one for each
symbol in an encoded instruction, in the order of the instructions, and from
the moment it exists its place is the displacement of that instruction. What
comes later leaves the displacement alone, since the only bytes that are ever
patched are the distances of jumps.
-/

namespace Amd64

/-- A step that leaves fixups to instructions: it neither makes one nor places
one by itself. -/
inductive Action.LeavesFixups : Action → Prop where
  | emit (bytes : List UInt8) : LeavesFixups (.emit bytes)
  | emitRex (rex : Rex) : LeavesFixups (.emitRex rex)
  | newLabel : LeavesFixups .newLabel
  | bind (label : Label) : LeavesFixups (.bind label)
  | emitDistance (label : Label) : LeavesFixups (.emitDistance label)
  | emitJump (condition : Condition) (label : Label) : LeavesFixups (.emitJump condition label)
  | encode (f : Function) (instruction : Instruction) : LeavesFixups (.encode f instruction)

/-- The symbol in a memory operand of an encoded instruction. -/
structure Relocation where
  encoding : Encoding
  operand : MemoryOperand
  target : Relocatable

def Encoding.relocations (encoding : Encoding) : List Relocation :=
  encoding.instruction.relocations.map fun (operand, target) => ⟨encoding, operand, target⟩

/-- One fixup lies before another, with all its four bytes and at least one
more. -/
def Fixup.Precedes (first second : Fixup) : Prop :=
  ∀ p ∈ first.position, ∀ q ∈ second.position, p + 4 < q

/-- A code on the way of a run that has the encoded instruction in it. -/
def Encoding.StandsIn (encoding : Encoding) (actions : List Action) (a : Assembler) : Prop :=
  ∃ earlier later, actions = earlier ++ later ∧ Action.applyAll earlier .empty = .ok a ∧
    encoding ∈ Action.encodings earlier .empty

theorem Encoding.StandsIn.start_le {encoding : Encoding} {actions : List Action} {a : Assembler}
    (h : encoding.StandsIn actions a) : encoding.start ≤ a.position := by
  obtain ⟨_, _, -, hRun, hMem⟩ := h
  obtain ⟨-, hStart, hStop⟩ := Survey.describes_empty.bounds_of_mem_encodings hRun hMem
  exact Nat.le_of_lt (Nat.lt_of_lt_of_le hStart hStop)

namespace Relocation

/-- The instruction was encoded with this fixup for the symbol. -/
def Requests (relocation : Relocation) (fixup : Fixup) (base : Int32) (field : DisplacementField) :
    Prop :=
  relocation.encoding.instruction.Relocates relocation.encoding.f relocation.encoding.before
    relocation.encoding.after relocation.operand relocation.target fixup base field

/-- A fixup of a run stands for the symbol, and has its place. -/
structure PlacedAt (actions : List Action) (relocation : Relocation) (fixup : Fixup)
    (position : Nat) : Prop where
  kind : fixup.kind = .signed32
  symbol : fixup.symbol = relocation.target.symbol
  placed : fixup.position = some position
  inside : relocation.encoding.start < position ∧ position + 4 ≤ relocation.encoding.stop
  /-- At any time the four bytes in the place are the displacement of the
  instruction: with others in their place a processor reads another
  displacement and nothing else changes. -/
  displacement : ∃ machine,
    relocation.encoding.instruction.machine? relocation.encoding.f 0 = some machine ∧
      machine.displacement?.isSome = true ∧
      ∀ a, relocation.encoding.StandsIn actions a → ∀ displacement,
        MachineInstruction.read ((a.patch position (LittleEndian.word displacement)).bytes.drop
          relocation.encoding.start) =
            some (machine.withDisplacement displacement, a.bytes.drop relocation.encoding.stop)
  /-- At any time the four bytes are what the base contributes plus the addend,
  modulo their room. -/
  value : ∃ base, relocation.operand.baseDisplacement relocation.encoding.f = .ok base ∧
    ∀ a, relocation.encoding.StandsIn actions a → (a.bytes.drop position).take 4 =
      LittleEndian.bytes 4 ((base.toInt + relocation.target.addend.toInt) % 4294967296).toNat

variable {relocation : Relocation} {fixup : Fixup} {base : Int32} {field : DisplacementField}

/-- The bytes of the instruction stay what they were when it was encoded. It
asked for a fixup, so it is no jump and has no gap in it. -/
theorem Requests.drop {actions : List Action} {a : Assembler}
    (h : relocation.Requests fixup base field) (hStands : relocation.encoding.StandsIn actions a) :
    a.bytes.drop relocation.encoding.start =
      field.bytes (base + relocation.target.addend) ++ a.bytes.drop relocation.encoding.stop := by
  obtain ⟨earlier, later, -, hRun, hMem⟩ := hStands
  obtain ⟨hVisits, hEncode⟩ := Action.visits_of_mem_encodings hRun hMem
  have hOperands : relocation.encoding.instruction.operands ≠ [] := by
    intro hNil
    have hSymbol := h.symbol
    rw [Instruction.relocations, hNil] at hSymbol
    cases hSymbol
  have hDrop := Survey.drop_of_visits hRun hVisits
  rw [Survey.chunks_of_encode hOperands hEncode h.bytes, Survey.write, Survey.write,
    List.append_nil] at hDrop
  exact hDrop

/-- The place that was recorded is that of the displacement, in the bytes of
its own instruction and with the addend of the symbol in it. -/
theorem Requests.placedAt (h : relocation.Requests fixup base field) (actions : List Action) :
    relocation.PlacedAt actions fixup (relocation.encoding.start + field.leading.length) where
  kind := by rw [h.place]
  symbol := by rw [h.place]
  placed := by
    rw [h.place]
    rfl
  inside := h.bounds
  displacement := by
    refine ⟨field.machine, h.machine, field.displacement_isSome,
      fun a hStands displacement => ?_⟩
    have hPatched := Survey.drop_patch a relocation.encoding.start field.leading
      (LittleEndian.word (base + relocation.target.addend)) (LittleEndian.word displacement)
      (field.trailing ++ a.bytes.drop relocation.encoding.stop) hStands.start_le
      (by rw [h.drop hStands, DisplacementField.bytes, List.append_assoc]) (by simp)
    rw [hPatched, ← List.append_assoc]
    exact field.read displacement _
  value := by
    refine ⟨base, h.baseDisplacement, fun a hStands => ?_⟩
    rw [← List.drop_drop, h.drop hStands, DisplacementField.bytes, List.append_assoc,
      List.append_assoc, List.drop_left, List.take_left' (LittleEndian.length_word _),
      LittleEndian.word_add]

end Relocation

/-- Code whose fixups have all been placed is not refused for one that has not.
It may still be refused for a label. -/
theorem Assembler.finish_ne_unplacedFixup {a : Assembler}
    (h : ∀ fixup ∈ a.fixups, fixup.position.isSome = true) (symbol : String) :
    a.finish ≠ .error (.unplacedFixup symbol) := by
  have hNone : a.firstUnplaced = none := by
    rw [firstUnplaced, List.find?_eq_none]
    intro fixup hFixup
    simp [Option.isSome_iff_ne_none.mp (h fixup hFixup)]
  unfold finish
  rw [hNone]
  cases a.firstUnbound <;> simp

namespace Action

/-- The symbols in the instructions that a run encodes, in the order of the
instructions. -/
def relocations (actions : List Action) (a : Assembler) : List Relocation :=
  (encodings actions a).flatMap Encoding.relocations

theorem relocations_cons {action : Action} {a after : Assembler} (rest : List Action)
    (h : action.apply a = .ok after) :
    relocations (action :: rest) a =
      (action.encoding? a).toList.flatMap Encoding.relocations ++ relocations rest after := by
  rw [relocations, encodings_cons rest h, List.flatMap_append, relocations]

/-- A step adds the fixup for the symbol in the instruction that it encodes,
and no other. If it encodes none, the fixups are what they were, and this
includes refused steps. -/
theorem fixups_of_apply {action : Action} {a after : Assembler}
    (hApply : action.apply a = .ok after) (hLeaves : action.LeavesFixups)
    (hRoom : after.fixups.length ≤ 4294967296) :
    ((action.encoding? a).toList.flatMap Encoding.relocations = [] ∧ after.fixups = a.fixups) ∨
      ∃ relocation fixup base field,
        (action.encoding? a).toList.flatMap Encoding.relocations = [relocation] ∧
          after.fixups = a.fixups ++ [fixup] ∧ relocation.Requests fixup base field ∧
          relocation.encoding.before = a ∧ relocation.encoding.after = after := by
  rcases encoding?_cases hApply with ⟨encoding, hHere, rfl, rfl, hEncode⟩ | ⟨hNone, hRefused⟩
  · rw [hHere]
    rcases Instruction.relocates_of_encode hEncode hRoom with
      ⟨hNone, hFixups⟩ | ⟨operand, target, fixup, base, field, hSome, hFixups, hRelocates⟩
    · exact Or.inl ⟨by simp [Encoding.relocations, hNone], hFixups⟩
    · exact Or.inr ⟨⟨encoding, operand, target⟩, fixup, base, field,
        by simp [Encoding.relocations, hSome], hFixups, hRelocates, rfl, rfl⟩
  · rw [hNone]
    refine Or.inl ⟨rfl, ?_⟩
    cases hLeaves with
    | emit | emitRex | newLabel =>
        cases hApply
        rfl
    | bind label =>
        cases (apply_eq_ok_iff _ _ _).mp hApply with
        | bind hBind => exact Assembler.fixups_of_bind hBind
    | emitDistance label =>
        cases (apply_eq_ok_iff _ _ _).mp hApply with
        | emitDistance hDistance => exact Assembler.fixups_of_emitDistance hDistance
    | emitJump condition label =>
        cases (apply_eq_ok_iff _ _ _).mp hApply with
        | emitJump hJump => exact Assembler.fixups_of_emitJump hJump
    | encode f instruction => rw [hRefused f instruction rfl]

/-- A run adds a fixup for each symbol, each in the code that comes after the
fixup before it. The places therefore stand in the order of the
instructions. -/
theorem fixups_of_applyAll {survey : Survey} {actions : List Action} {a final : Assembler}
    (h : survey.Describes a) (hRun : applyAll actions a = .ok final)
    (hLeaves : ∀ action ∈ actions, action.LeavesFixups)
    (hRoom : final.fixups.length ≤ 4294967296) :
    ∃ placed, final.fixups = a.fixups ++ placed ∧
      List.Forall₂ (fun relocation fixup => ∃ base field, relocation.Requests fixup base field)
        (relocations actions a) placed ∧
      placed.Pairwise Fixup.Precedes ∧
      ∀ fixup ∈ placed, ∃ p, fixup.position = some p ∧ a.position < p := by
  induction actions generalizing survey a with
  | nil =>
      cases hRun
      exact ⟨[], (List.append_nil _).symm, .nil, .nil, fun _ hFixup => by cases hFixup⟩
  | cons action rest ih =>
      obtain ⟨after, hStep, hRest⟩ := (applyAll_cons_eq_ok_iff _ _ _ _).mp hRun
      obtain ⟨following, hFixups, hAll, hOrder, hLater⟩ := ih (h.apply hStep) hRest
        fun other hOther => hLeaves other (.tail _ hOther)
      have hAfter : after.fixups.length ≤ 4294967296 := by
        rw [hFixups, List.length_append] at hRoom
        omega
      have hForward : a.position ≤ after.position := by
        rw [h.position_apply hStep]
        exact Nat.le_add_right _ _
      rw [relocations_cons rest hStep]
      rcases fixups_of_apply hStep (hLeaves action (.head _)) hAfter with
        ⟨hNone, hSame⟩ | ⟨relocation, fixup, base, field, hSome, hAdded, hRequests, rfl, rfl⟩
      · rw [hNone, ← hSame]
        refine ⟨following, hFixups, hAll, hOrder, ?_⟩
        intro fixup hFixup
        obtain ⟨p, hPosition, hBeyond⟩ := hLater fixup hFixup
        exact ⟨p, hPosition, Nat.lt_of_le_of_lt hForward hBeyond⟩
      -- The new fixup lies before the end of its instruction, and all that follow lie behind.
      · obtain ⟨hStart, hStop⟩ := hRequests.bounds
        have hPlace : fixup.position =
            some (relocation.encoding.before.position + field.leading.length) := by
          rw [hRequests.place]
        rw [hSome]
        refine ⟨fixup :: following, ?_, .cons ⟨base, field, hRequests⟩ hAll, .cons ?_ hOrder, ?_⟩
        · rw [hFixups, hAdded, List.append_assoc, List.singleton_append]
        · intro other hOther p hp q hq
          obtain ⟨_, hPosition, hBeyond⟩ := hLater other hOther
          cases hPlace.symm.trans hp
          cases hPosition.symm.trans hq
          exact Nat.lt_of_le_of_lt hStop hBeyond
        · intro other hOther
          rcases List.mem_cons.mp hOther with rfl | hOther
          · exact ⟨_, hPlace, hStart⟩
          · obtain ⟨p, hPosition, hBeyond⟩ := hLater other hOther
            exact ⟨p, hPosition, Nat.lt_of_le_of_lt hForward hBeyond⟩

/-- The fixups of a run against the symbols in its instructions. -/
structure Relocated (actions : List Action) (a : Assembler) : Prop where
  /-- An instruction has one symbol at most. -/
  single : ∀ encoding ∈ encodings actions .empty, encoding.relocations.length ≤ 1
  /-- Each symbol has one fixup, in the same order, and each fixup has a
  symbol. -/
  placed : List.Forall₂
    (fun relocation fixup => ∃ position, relocation.PlacedAt actions fixup position)
    (relocations actions .empty) a.fixups
  apart : a.fixups.Pairwise Fixup.Precedes
  finish : ∀ symbol, a.finish ≠ .error (.unplacedFixup symbol)

/-- In a run that leaves fixups to instructions, every symbol in an encoded
instruction has a fixup whose place is the displacement of that instruction,
and there are no other fixups. -/
theorem relocated_of_applyAll {actions : List Action} {a : Assembler}
    (hRun : applyAll actions .empty = .ok a) (hLeaves : ∀ action ∈ actions, action.LeavesFixups)
    (hRoom : a.fixups.length ≤ 4294967296) : Relocated actions a := by
  obtain ⟨placed, hFixups, hAll, hOrder, hPlaces⟩ :=
    fixups_of_applyAll Survey.describes_empty hRun hLeaves hRoom
  have hFixups : a.fixups = placed := hFixups
  refine ⟨?_, ?_, hFixups ▸ hOrder, ?_⟩
  · intro encoding hMem
    obtain ⟨-, hEncode⟩ := visits_of_mem_encodings hRun hMem
    rw [Encoding.relocations, List.length_map]
    exact Instruction.length_relocations_le hEncode
  · rw [hFixups]
    refine hAll.imp fun relocation fixup hRequests => ?_
    obtain ⟨base, field, hRequests⟩ := hRequests
    exact ⟨_, hRequests.placedAt actions⟩
  · apply Assembler.finish_ne_unplacedFixup
    intro fixup hFixup
    rw [hFixups] at hFixup
    obtain ⟨p, hPosition, -⟩ := hPlaces fixup hFixup
    rw [hPosition]
    rfl

/-- A load through a rematerializable variable and a store of an immediate, a
refused copy between them that requests two fixups, and a jump over all of them
that is patched at the end. -/
theorem relocated_of_applyAll_load_store :
    let f : Function := ⟨"f", .initial,
      #[⟨"p", .i64, some .rsp, 8, true⟩, ⟨"b", .i64, some (.general ⟨0, by decide⟩), 0, false⟩]⟩
    let symbol (name : String) (addend : Int32) (base : Option VariableId) : Operand :=
      .memory (.ofParts .i32 base none (some (.relocatable ⟨name, addend⟩)) .one)
    let load : Instruction := .mov .i64 (.var ⟨1⟩) (symbol "g" 4 (some ⟨0⟩))
    let copy : Instruction := .mov .i32 (symbol "g" 0 none) (symbol "h" 0 none)
    let store : Instruction := .mov .i32 (symbol "h" (-4) none) (.constant (.integer 7))
    let actions : List Action :=
      [.newLabel, .emitJump .ne ⟨0⟩, .encode f load, .encode f copy, .encode f store, .emit [0x90],
        .bind ⟨0⟩]
    let a : Assembler :=
      ⟨[0x0F, 0x85, 0x14, 0x00, 0x00, 0x00, 0x48, 0x8B, 0x84, 0x24, 0x0C, 0x00, 0x00, 0x00, 0xC7,
        0x04, 0x25, 0xFC, 0xFF, 0xFF, 0xFF, 0x07, 0x00, 0x00, 0x00, 0x90],
        [⟨.signed32, "g", some 10⟩, ⟨.signed32, "h", some 17⟩], [.bound 26]⟩
    applyAll actions .empty = .ok a ∧ Relocated actions a := by
  intro f symbol load copy store actions a
  have hRun : applyAll actions .empty = .ok a := by
    dsimp only [f, symbol, load, copy, store, actions, a]
    rfl
  have hLeaves : ∀ action ∈ actions, action.LeavesFixups := by
    intro action hAction
    simp only [actions, List.mem_cons, List.not_mem_nil, or_false] at hAction
    rcases hAction with rfl | rfl | rfl | rfl | rfl | rfl | rfl
    all_goals constructor
  exact ⟨hRun, relocated_of_applyAll hRun hLeaves (by decide)⟩

end Action

end Amd64
