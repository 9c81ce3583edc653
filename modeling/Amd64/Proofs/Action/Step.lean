import Amd64.Action.History
import Amd64.Proofs.Instruction.Writing

/-!
What one step can do. `Action.apply_eq_ok_iff` lists the ways in which a step
leads from one code to another, so that what holds along every sequence of
steps is shown case by case. A refusal is only ever that of an instruction, and
the code stays what it was.
-/

namespace Amd64.Action

/-- A step leads from one code to another. -/
inductive StepsTo (a : Assembler) : Action → Assembler → Prop where
  | emit (bytes : List UInt8) : StepsTo a (emit bytes) (a.emit bytes)
  | emitRex (rex : Rex) : StepsTo a (emitRex rex) (a.emit rex.bytes)
  | emitAddress {reg : Nat} {address : Address} {after : Assembler}
      (h : a.emitAddress reg address = .ok after) : StepsTo a (emitAddress reg address) after
  | newLabel : StepsTo a newLabel a.newLabel.2
  | bind {label : Label} {after : Assembler} (h : a.bind label = .ok after) :
      StepsTo a (bind label) after
  | emitDistance {label : Label} {after : Assembler} (h : a.emitDistance label = .ok after) :
      StepsTo a (emitDistance label) after
  | emitJump {condition : Condition} {label : Label} {after : Assembler}
      (h : a.emitJump condition label = .ok after) : StepsTo a (emitJump condition label) after
  | createFixup (target : Relocatable) :
      StepsTo a (createFixup target) (a.createFixup .signed32 target).2
  | translate {f : Function} {operand : MemoryOperand} {address : Address} {after : Assembler}
      (h : operand.toAddress f a = .done address after) : StepsTo a (translate f operand) after
  | encode {f : Function} {instruction : Instruction} {after : Assembler}
      (h : instruction.encode f a = .done () after) : StepsTo a (encode f instruction) after
  | refused {f : Function} {instruction : Instruction} {reason : Refusal}
      (h : instruction.encode f a = .refused reason a) : StepsTo a (encode f instruction) a

/-- Only an instruction is ever refused, and it leaves the code as it was.
Every other step succeeds or ends in a fault. -/
theorem run_eq_refused_iff (action : Action) (a after : Assembler) (reason : Refusal) :
    action.run a = .refused reason after ↔
      ∃ f instruction, action = encode f instruction ∧
        instruction.encode f a = .refused reason a ∧ after = a := by
  constructor
  · intro h
    have hNever (hAction : action.run.NeverRefused) : False := hAction a after reason h
    cases action with
    | emit bytes => exact (hNever (.bind (.modify _) fun _ => .pure _)).elim
    | emitRex rex => exact (hNever (.bind (.modify _) fun _ => .pure _)).elim
    | emitAddress reg address =>
        exact (hNever (.bind (.modifyFaulty _) fun _ => .pure _)).elim
    | newLabel => exact (hNever (.bind (.step _) fun _ => .pure _)).elim
    | bind label => exact (hNever (.bind (.modifyFaulty _) fun _ => .pure _)).elim
    | emitDistance label => exact (hNever (.bind (.modifyFaulty _) fun _ => .pure _)).elim
    | emitJump condition label =>
        exact (hNever (.bind (.modifyFaulty _) fun _ => .pure _)).elim
    | createFixup target => exact (hNever (.bind (.step _) fun _ => .pure _)).elim
    | translate f operand =>
        exact (hNever (.bind (operand.toAddress_neverRefused f) fun _ => .pure _)).elim
    | encode f instruction =>
        rw [run, Assembly.bind_eq_refused_iff] at h
        rcases h with h | ⟨_, _, -, h⟩
        · have hAfter := Instruction.eq_of_encode_refused h
          subst hAfter
          exact ⟨f, instruction, rfl, h, rfl⟩
        · cases h
  · rintro ⟨f, instruction, rfl, h, rfl⟩
    rw [run, Assembly.bind_eq_refused_iff]
    exact Or.inl h

/-- The code after a step is the one it succeeded with, or the one it was
refused on. A fault leaves no code. -/
theorem apply_eq_ok_iff_run (action : Action) (a after : Assembler) :
    action.apply a = .ok after ↔
      (∃ answer, action.run a = .done answer after) ∨
        ∃ reason, action.run a = .refused reason after := by
  unfold apply
  cases action.run a <;> simp

/-- A step that may be a fault and answers nothing succeeds with the code that
it writes, and is never refused. -/
theorem run_modifyFaulty_iff (write : Assembler → Except Fault Assembler) (a after : Assembler)
    (answer : Answer) :
    (Assembly.modifyFaulty write >>= fun _ => pure Answer.nothing) a = .done answer after ↔
      answer = .nothing ∧ write a = .ok after := by
  simp only [Assembly.bind_eq_done_iff, Assembly.modifyFaulty_eq_done_iff,
    Assembly.pure_eq_done_iff]
  constructor
  · rintro ⟨_, _, hWritten, hAnswer, rfl⟩
    exact ⟨hAnswer, hWritten⟩
  · rintro ⟨hAnswer, hWritten⟩
    exact ⟨(), after, hWritten, hAnswer, rfl⟩

/-- A step that does not end in a fault is one of those listed. Whatever is
kept by all steps is proved along this list. -/
theorem apply_eq_ok_iff (action : Action) (a after : Assembler) :
    action.apply a = .ok after ↔ action.StepsTo a after := by
  rw [apply_eq_ok_iff_run]
  constructor
  · rintro (⟨answer, h⟩ | ⟨reason, h⟩)
    · cases action with
      | emit bytes =>
          cases h
          exact .emit bytes
      | emitRex rex =>
          cases h
          exact .emitRex rex
      | emitAddress reg address => exact .emitAddress ((run_modifyFaulty_iff _ _ _ _).mp h).2
      | newLabel =>
          cases h
          exact .newLabel
      | bind label => exact .bind ((run_modifyFaulty_iff _ _ _ _).mp h).2
      | emitDistance label => exact .emitDistance ((run_modifyFaulty_iff _ _ _ _).mp h).2
      | emitJump condition label => exact .emitJump ((run_modifyFaulty_iff _ _ _ _).mp h).2
      | createFixup target =>
          cases h
          exact .createFixup target
      | translate f operand =>
          obtain ⟨address, _, hAddress, hEnd⟩ := (Assembly.bind_eq_done_iff _ _ _ _ _).mp h
          cases hEnd
          exact .translate hAddress
      | encode f instruction =>
          obtain ⟨_, _, hEncoded, hEnd⟩ := (Assembly.bind_eq_done_iff _ _ _ _ _).mp h
          cases hEnd
          exact .encode hEncoded
    · obtain ⟨f, instruction, rfl, hRefused, rfl⟩ := (run_eq_refused_iff _ _ _ _).mp h
      exact .refused hRefused
  · intro h
    cases h with
    | emit bytes => exact Or.inl ⟨_, rfl⟩
    | emitRex rex => exact Or.inl ⟨_, rfl⟩
    | emitAddress h => exact Or.inl ⟨.nothing, (run_modifyFaulty_iff _ _ _ _).mpr ⟨rfl, h⟩⟩
    | newLabel => exact Or.inl ⟨_, rfl⟩
    | bind h => exact Or.inl ⟨.nothing, (run_modifyFaulty_iff _ _ _ _).mpr ⟨rfl, h⟩⟩
    | emitDistance h => exact Or.inl ⟨.nothing, (run_modifyFaulty_iff _ _ _ _).mpr ⟨rfl, h⟩⟩
    | emitJump h => exact Or.inl ⟨.nothing, (run_modifyFaulty_iff _ _ _ _).mpr ⟨rfl, h⟩⟩
    | createFixup target => exact Or.inl ⟨_, rfl⟩
    | translate h => exact Or.inl ⟨_, (Assembly.bind_eq_done_iff _ _ _ _ _).mpr ⟨_, _, h, rfl⟩⟩
    | encode h => exact Or.inl ⟨_, (Assembly.bind_eq_done_iff _ _ _ _ _).mpr ⟨_, _, h, rfl⟩⟩
    | refused h => exact Or.inr ⟨_, (run_eq_refused_iff _ _ _ _).mpr ⟨_, _, rfl, h, rfl⟩⟩

/-- A sequence of steps comes by this one, which leads from the first code to
the second. -/
def Visits (start : Assembler) (actions : List Action) (before : Assembler) (action : Action)
    (after : Assembler) : Prop :=
  ∃ earlier later, actions = earlier ++ action :: later ∧
    applyAll earlier start = .ok before ∧ action.apply before = .ok after

/-- A sequence that ends without a fault does so after its first step too, and
goes on from the code of that step. -/
theorem applyAll_cons_eq_ok_iff (action : Action) (rest : List Action) (a final : Assembler) :
    applyAll (action :: rest) a = .ok final ↔
      ∃ after, action.apply a = .ok after ∧ applyAll rest after = .ok final := by
  rw [applyAll]
  cases action.apply a <;> simp

/-- What comes after a step that was visited goes on from there. The run falls
into what is before the step, the step, and what is after it. -/
theorem Visits.split {start before after final : Assembler} {actions : List Action}
    {action : Action} (h : Visits start actions before action after)
    (hRun : applyAll actions start = .ok final) :
    ∃ earlier later, actions = earlier ++ action :: later ∧
      applyAll earlier start = .ok before ∧ action.apply before = .ok after ∧
      applyAll later after = .ok final := by
  obtain ⟨earlier, later, rfl, hEarlier, hAction⟩ := h
  rw [applyAll_append, hEarlier] at hRun
  obtain ⟨_, hAgain, hLater⟩ := (applyAll_cons_eq_ok_iff _ _ _ _).mp hRun
  cases hAction.symm.trans hAgain
  exact ⟨earlier, later, rfl, hEarlier, hAction, hLater⟩

theorem Visits.head {start after : Assembler} {action : Action} (rest : List Action)
    (h : action.apply start = .ok after) : Visits start (action :: rest) start action after :=
  ⟨[], rest, rfl, rfl, h⟩

/-- What the rest of a sequence comes by, the whole sequence comes by, as its
first step leads to where the rest begins. -/
theorem Visits.cons {start next before after : Assembler} {first action : Action}
    {rest : List Action} (h : Visits next rest before action after)
    (hFirst : first.apply start = .ok next) :
    Visits start (first :: rest) before action after := by
  obtain ⟨earlier, later, rfl, hEarlier, hApply⟩ := h
  refine ⟨first :: earlier, later, rfl, ?_, hApply⟩
  exact (applyAll_cons_eq_ok_iff _ _ _ _).mpr ⟨next, hFirst, hEarlier⟩

/-- A sequence that ends without a fault comes by each of its steps. The code
before and after the step is then there to speak of. -/
theorem exists_visits_of_mem {start final : Assembler} {actions : List Action} {action : Action}
    (hRun : applyAll actions start = .ok final) (h : action ∈ actions) :
    ∃ before after, Visits start actions before action after := by
  induction actions generalizing start with
  | nil => cases h
  | cons first rest ih =>
      obtain ⟨next, hStep, hRest⟩ := (applyAll_cons_eq_ok_iff _ _ _ _).mp hRun
      rcases List.mem_cons.mp h with rfl | hLater
      · exact ⟨start, next, .head rest hStep⟩
      · obtain ⟨before, after, hVisits⟩ := ih hRest hLater
        exact ⟨before, after, hVisits.cons hStep⟩

end Amd64.Action
