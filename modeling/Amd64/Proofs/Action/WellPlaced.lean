import Amd64.Proofs.Action.Step
import Amd64.Proofs.Assembler.Patching

/-!
Where fields are along a run. Every step keeps code well placed, a refused one
because it leaves the code as it was. So `Assembler.fields_of_reachable` holds
of every code that there is: its fields lie inside it and apart, and any label
that is not bound yet can be bound without disturbing them.
-/

namespace Amd64.Assembler

variable {a after : Assembler}

namespace WellPlaced

/-- Translating an operand may request a fixup, but it places none and writes
nothing. -/
theorem translate (h : a.WellPlaced) {f : Function} {operand : MemoryOperand} {address : Address}
    (hStep : operand.toAddress f a = .done address after) : after.WellPlaced := by
  obtain ⟨_, -, -, rfl⟩ := (MemoryOperand.toAddress_eq_done_iff _ _ _ _ _).mp hStep
  exact h.requested operand

/-- Forming an instruction only locates its operands, which may request fixups,
so no field has moved. -/
theorem formedAs (h : a.WellPlaced) {f : Function} {instruction : Instruction} {form : Form}
    (hFormed : instruction.FormedAs f a form after) : after.WellPlaced := by
  cases hFormed with
  | mov hDest hSrc _ => exact (h.locatedAt hDest).locatedAt hSrc
  | lea _ _ _ hAddress => exact h.translate hAddress
  | setcc hDest _ => exact h.locatedAt hDest
  | cmpps _ _ _ hSrc _ => exact h.locatedAt hSrc

/-- A jump adds one field that waits for its label. Any other instruction adds
its bytes, and the place of the fixup in them if it has one. -/
theorem encode (h : a.WellPlaced) {f : Function} {instruction : Instruction}
    (hStep : instruction.encode f a = .done () after) : after.WellPlaced := by
  rcases (Instruction.encode_eq_done_iff _ _ _ _).mp hStep with
    ⟨condition, target, -, hJump⟩ | ⟨form, between, hFormed, hEmit⟩
  · exact h.emitJump hJump
  · exact (h.formedAs hFormed).formEmit hEmit

/-- No step moves a field out of the code or over another field. Binding a
label fills fields where they are. -/
theorem apply (h : a.WellPlaced) {action : Action} (hApply : action.apply a = .ok after) :
    after.WellPlaced := by
  cases (Action.apply_eq_ok_iff _ _ _).mp hApply with
  | emit bytes => exact h.emit bytes
  | emitRex rex => exact h.emit rex.bytes
  | emitAddress hStep => exact h.emitAddress hStep
  | newLabel => exact h.newLabel
  | bind hStep => exact h.bind hStep
  | emitDistance hStep => exact h.emitDistance hStep
  | emitJump hStep => exact h.emitJump hStep
  | createFixup target =>
      have hUnplaced : ∀ fixup ∈ [(⟨.signed32, target.symbol, none⟩ : Fixup)],
          fixup.position = none := by simp
      exact h.withFixups hUnplaced
  | translate hStep => exact h.translate hStep
  | encode hStep => exact h.encode hStep
  | refused => exact h

end WellPlaced

/-- Fields are well placed in every code there is, as there are none of them at
the beginning. -/
theorem Reachable.wellPlaced (h : a.Reachable) : a.WellPlaced :=
  h.induction wellPlaced_empty fun _ _ _ hBefore hStep => hBefore.apply hStep

/-- In every code that some sequence of steps leads to, the fields that wait
for labels are zero, these and the fields of placed fixups lie inside the code
and share no byte, and every bound label stands inside the code. A label that
is not bound yet is bound by patches that stay inside the code and change the
fields that waited for it, and nothing else. -/
theorem fields_of_reachable (h : a.Reachable) :
    a.WellPlaced ∧
      ∀ (label : Label) (fields : List Nat),
        a.labels[label.number.toNat]? = some (.pending fields) →
          ∃ after, a.BindsInPlace label fields after :=
  ⟨h.wellPlaced, fun _ _ hPending => ⟨_, h.wellPlaced.bindsInPlace hPending⟩⟩

/-- Two fields wait for one label around a store whose address has a fixup, a
refused copy that requested two others, and a field that was patched when its
label was bound. -/
theorem fields_of_reachable_store :
    let f : Function := .empty "f" .initial
    let symbol (name : String) : Operand :=
      .memory (.ofParts .i32 none none (some (.relocatable ⟨name, 0⟩)) .one)
    let actions : List Action :=
      [.newLabel, .newLabel, .emitJump .e ⟨0⟩,
        .encode f (.mov .i32 (symbol "g") (.constant (.integer 7))),
        .encode f (.mov .i32 (symbol "h") (symbol "k")), .emitDistance ⟨1⟩, .emit [0x90],
        .bind ⟨1⟩, .emitDistance ⟨0⟩]
    let a : Assembler :=
      ⟨[0x0F, 0x84, 0, 0, 0, 0, 0xC7, 0x04, 0x25, 0, 0, 0, 0, 7, 0, 0, 0, 1, 0, 0, 0, 0x90,
        0, 0, 0, 0], [⟨.signed32, "g", some 9⟩], [.pending [2, 22], .bound 22]⟩
    let after : Assembler :=
      ⟨[0x0F, 0x84, 20, 0, 0, 0, 0xC7, 0x04, 0x25, 0, 0, 0, 0, 7, 0, 0, 0, 1, 0, 0, 0, 0x90,
        0, 0, 0, 0], [⟨.signed32, "g", some 9⟩], [.bound 26, .bound 22]⟩
    Action.applyAll actions .empty = .ok a ∧ a.Reachable ∧ a.fields = [2, 22, 9] ∧
      a.WellPlaced ∧ a.labels[0]? = some (.pending [2, 22]) ∧ after.fields = [9] ∧
      a.BindsInPlace ⟨0⟩ [2, 22] after := by
  intro f symbol actions a after
  have hRun : Action.applyAll actions .empty = .ok a := by
    dsimp only [f, symbol, actions, a]
    rfl
  have hReachable : a.Reachable := ⟨actions, hRun⟩
  have hPending : a.labels[0]? = some (.pending [2, 22]) := by rfl
  have hBound : a.bind ⟨0⟩ = .ok after := by
    dsimp only [a, after]
    rfl
  obtain ⟨hPlaced, hBinds⟩ := fields_of_reachable hReachable
  obtain ⟨found, hFound⟩ := hBinds ⟨0⟩ [2, 22] hPending
  cases hFound.bound.symm.trans hBound
  exact ⟨hRun, hReachable, by rfl, hPlaced, hPending, by rfl, hFound⟩

end Amd64.Assembler
