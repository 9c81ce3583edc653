import Amd64.Proofs.Instruction.Writing
import Amd64.Proofs.Operand.Reference

/-!
Which variables an encoded instruction may name. An operand is never a
rematerializable variable, so that no copy and no condition byte goes into the
frame or stack pointer for the sake of one. The variable that an address or a
comparison is computed into is not an operand, and it is not asked.
-/

namespace Amd64

/-- A variable that is an operand has a place of its own, in a register or in a
slot, and is not computed from a pointer. -/
theorem Operand.LocatedAt.stored {f : Function} {id : VariableId} {place : Place}
    {a after : Assembler} (h : (Operand.var id).LocatedAt f a place after) :
    ∃ found, f.lookup id = .ok found ∧ found.rematerializable = false := by
  cases h with
  | register hFound hStored _ => exact ⟨_, hFound, hStored⟩
  | slot hFound hStored _ => exact ⟨_, hFound, hStored⟩

/-- An operand that denotes a register is a variable in that register. A memory
operand only mentions registers. -/
theorem Operand.LocatedAt.eq_var_of_general {f : Function} {operand : Operand} {place : Place}
    {a after : Assembler} {access : Access} {number : Fin 16}
    (h : operand.LocatedAt f a place after)
    (hMachine : operand.machine? f access = some (.general number)) :
    ∃ id found, operand = .var id ∧ f.lookup id = .ok found ∧
      found.register = some (.general number) ∧ found.rematerializable = false := by
  have hPlace : place.machine access = .general number :=
    Option.some.inj ((h.machine access).symm.trans hMachine)
  cases h with
  | @register id found register hFound hStored hRegister =>
      cases register with
      | general other =>
          cases hPlace
          exact ⟨id, found, rfl, hFound, hRegister, hStored⟩
      | xmm other => cases hPlace
  | slot | immediate | memory | half => cases hPlace

namespace Instruction

/-- The instruction names a variable directly, as an operand or as its result,
and not only inside an address or a slot. -/
def Names (instruction : Instruction) (id : VariableId) : Prop :=
  .var id ∈ instruction.operands ∨ instruction.result? = some id

/-- Every operand of an instruction that has a form has a place. The result of
an instruction is not among its operands. -/
theorem FormedAs.locatedAt {f : Function} {instruction : Instruction} {form : Form}
    {a after : Assembler} (h : instruction.FormedAs f a form after) {operand : Operand}
    (hOperand : operand ∈ instruction.operands) :
    ∃ before place left, operand.LocatedAt f before place left := by
  cases h with
  | mov hDest hSrc _ =>
      rcases List.mem_cons.mp hOperand with rfl | hOperand
      · exact ⟨_, _, _, hDest⟩
      · obtain rfl := List.mem_singleton.mp hOperand
        exact ⟨_, _, _, hSrc⟩
  | lea _ _ _ hAddress =>
      obtain rfl := List.mem_singleton.mp hOperand
      exact ⟨_, _, _, .memory hAddress⟩
  | setcc hDest _ =>
      obtain rfl := List.mem_singleton.mp hOperand
      exact ⟨_, _, _, hDest⟩
  | cmpps _ _ _ hSrc _ =>
      obtain rfl := List.mem_singleton.mp hOperand
      exact ⟨_, _, _, hSrc⟩

/-- The operands of an encoded instruction are located, whatever the
instruction is. A jump has none. -/
theorem locatedAt_of_encode {f : Function} {instruction : Instruction} {a after : Assembler}
    (h : instruction.encode f a = .done () after) {operand : Operand}
    (hOperand : operand ∈ instruction.operands) :
    ∃ before place left, operand.LocatedAt f before place left := by
  rcases (encode_eq_done_iff _ _ _ _).mp h with ⟨_, _, rfl, -⟩ | ⟨_, _, hFormed, -⟩
  · cases hOperand
  · exact hFormed.locatedAt hOperand

/-- No operand of an encoded instruction is a rematerializable variable, and a
register that an operand denotes is that of a variable which is stored there. A
rematerializable variable can only be named as a result. -/
theorem stored_of_encode {f : Function} {instruction : Instruction} {a after : Assembler}
    (h : instruction.encode f a = .done () after) :
    (∀ id, .var id ∈ instruction.operands →
      ∃ found, f.lookup id = .ok found ∧ found.rematerializable = false) ∧
    (∀ operand ∈ instruction.operands, ∀ (access : Access) (number : Fin 16),
      operand.machine? f access = some (.general number) →
        ∃ id found, operand = .var id ∧ f.lookup id = .ok found ∧
          found.register = some (.general number) ∧ found.rematerializable = false) ∧
    ∀ id found, instruction.Names id → f.lookup id = .ok found →
      found.rematerializable = true → instruction.result? = some id := by
  have hStored (id : VariableId) (hOperand : .var id ∈ instruction.operands) :
      ∃ found, f.lookup id = .ok found ∧ found.rematerializable = false := by
    obtain ⟨_, _, _, hLocated⟩ := locatedAt_of_encode h hOperand
    exact hLocated.stored
  refine ⟨hStored, ?_, ?_⟩
  · intro operand hOperand access number hMachine
    obtain ⟨_, _, _, hLocated⟩ := locatedAt_of_encode h hOperand
    exact hLocated.eq_var_of_general hMachine
  · intro id found hNames hFound hMarked
    refine hNames.resolve_left fun hOperand => ?_
    obtain ⟨other, hOther, hUnmarked⟩ := hStored id hOperand
    cases hFound.symm.trans hOther
    rw [hMarked] at hUnmarked
    cases hUnmarked

/-- A load through a rematerializable variable, which is no operand as the base
of one. -/
theorem stored_of_encode_load :
    let f : Function := ⟨"f", .initial,
      #[⟨"p", .i64, some .rsp, 8, true⟩, ⟨"b", .i64, some (.general ⟨0, by decide⟩), 0, false⟩]⟩
    let load : Instruction :=
      .mov .i64 (.var ⟨1⟩)
        (.memory (.ofParts .i64 (some ⟨0⟩) none (some (.relocatable ⟨"g", 4⟩)) .one))
    let after : Assembler :=
      ⟨[0x48, 0x8B, 0x84, 0x24, 0x0C, 0x00, 0x00, 0x00], [⟨.signed32, "g", some 4⟩], []⟩
    load.encode f .empty = .done () after ∧
      (∃ found, f.lookup ⟨1⟩ = .ok found ∧ found.rematerializable = false) ∧
      ∀ id found, load.Names id → f.lookup id = .ok found →
        found.rematerializable = true → load.result? = some id := by
  intro f load after
  have hEncode : load.encode f .empty = .done () after := by
    dsimp only [f, load, after]
    rfl
  obtain ⟨hStored, -, hNamed⟩ := stored_of_encode hEncode
  exact ⟨hEncode, hStored ⟨1⟩ (.head _), hNamed⟩

/-- The result of an address computation is not asked: a rematerializable
variable is accepted, and the instruction writes the stack pointer. -/
theorem encode_lea_rematerializable :
    let f : Function := ⟨"f", .initial,
      #[⟨"p", .i64, some .rsp, 8, true⟩, ⟨"b", .i64, some (.general ⟨0, by decide⟩), 0, false⟩]⟩
    let lea : Instruction := .lea ⟨0⟩ (.ofParts .i64 (some ⟨1⟩) none none .one)
    let after : Assembler := ⟨[0x48, 0x8D, 0x20], [], []⟩
    lea.encode f .empty = .done () after ∧ lea.Names ⟨0⟩ ∧
      f.lookup ⟨0⟩ = .ok ⟨"p", .i64, some .rsp, 8, true⟩ ∧
      MachineInstruction.read after.bytes = some (.loadAddress .quad ⟨4, by decide⟩
        (.memory ⟨some ⟨0, by decide⟩, none, 0⟩), []) ∧
      ¬ ∀ id found, lea.Names id → f.lookup id = .ok found → found.rematerializable = false := by
  intro f lea after
  have hNames : lea.Names ⟨0⟩ := Or.inr rfl
  refine ⟨by rfl, hNames, rfl, by rfl, ?_⟩
  intro hAll
  have hFalse := hAll ⟨0⟩ _ hNames rfl
  cases hFalse

end Instruction

end Amd64
