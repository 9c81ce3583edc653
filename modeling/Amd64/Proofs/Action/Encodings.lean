import Amd64.Proofs.Action.Refused
import Amd64.Proofs.Action.TwoPasses
import Amd64.Proofs.Instruction.RoundTrip

/-!
The instructions that a run encodes, in their order. Each stands between two
positions of the code, and `Survey.drop_of_visits` says that its bytes stay
there: nothing that comes later moves them, and only the distance of a jump is
ever patched.
-/

namespace Amd64

/-- An instruction that a run encoded, with the code before and after it. -/
structure Encoding where
  f : Function
  instruction : Instruction
  before : Assembler
  after : Assembler

namespace Encoding

/-- Where the instruction begins. -/
def start (encoding : Encoding) : Nat :=
  encoding.before.position

/-- Where the instruction ends. -/
def stop (encoding : Encoding) : Nat :=
  encoding.after.position

end Encoding

/-- The instruction that a step encoded. A refused one is none. -/
def HistoryEntry.encoding? (entry : HistoryEntry) : Option Encoding :=
  match entry.action, entry.outcome with
  | .encode f instruction, .done _ after => some ⟨f, instruction, entry.before, after⟩
  | _, _ => none

namespace Action

/-- The instructions that a run encodes. -/
def encodings (actions : List Action) (a : Assembler) : List Encoding :=
  (history actions a).filterMap HistoryEntry.encoding?

/-- What a step encodes. -/
def encoding? (action : Action) (a : Assembler) : Option Encoding :=
  HistoryEntry.encoding? ⟨action, a, action.run a⟩

theorem encodings_cons {action : Action} {a after : Assembler} (rest : List Action)
    (h : action.apply a = .ok after) :
    encodings (action :: rest) a = (action.encoding? a).toList ++ encodings rest after := by
  rw [encodings, history, h, List.filterMap_cons, encoding?]
  cases HistoryEntry.encoding? ⟨action, a, action.run a⟩ <;> rfl

/-- The step of an instruction answers nothing. All that it leaves behind is
the code after the instruction. -/
theorem run_encode_eq_done_iff (f : Function) (instruction : Instruction) (a after : Assembler)
    (answer : Answer) :
    (encode f instruction).run a = .done answer after ↔
      answer = .nothing ∧ instruction.encode f a = .done () after := by
  rw [run, Assembly.bind_eq_done_iff]
  constructor
  · rintro ⟨_, _, hEncode, hAnswer⟩
    cases hAnswer
    exact ⟨rfl, hEncode⟩
  · rintro ⟨rfl, hEncode⟩
    exact ⟨(), after, hEncode, rfl⟩

/-- A step encodes an instruction if it is that instruction's step and is not
refused. Writing the same bytes in another way does not count as encoding. -/
theorem encoding?_eq_some_iff (action : Action) (a : Assembler) (encoding : Encoding) :
    action.encoding? a = some encoding ↔
      action = .encode encoding.f encoding.instruction ∧ encoding.before = a ∧
        encoding.instruction.encode encoding.f a = .done () encoding.after := by
  unfold encoding? HistoryEntry.encoding?
  constructor
  · intro h
    split at h
    · rename_i f instruction answer after hAction hOutcome
      cases h
      simp only at hAction hOutcome
      subst hAction
      exact ⟨rfl, rfl, ((run_encode_eq_done_iff _ _ _ _ _).mp hOutcome).2⟩
    · cases h
  · rintro ⟨rfl, rfl, hEncode⟩
    have hRun := (run_encode_eq_done_iff _ _ _ _ .nothing).mpr ⟨rfl, hEncode⟩
    rw [hRun]

/-- A step that encodes an instruction ends in the code after it, and one that
does not leaves the code as it was if it is the step of an instruction. Nothing
is said of the other steps here. -/
theorem encoding?_cases {action : Action} {a after : Assembler}
    (hApply : action.apply a = .ok after) :
    (∃ encoding, action.encoding? a = some encoding ∧ encoding.before = a ∧
      encoding.after = after ∧ encoding.instruction.encode encoding.f a = .done () after) ∨
      (action.encoding? a = none ∧
        ∀ f instruction, action = .encode f instruction → after = a) := by
  cases hHere : action.encoding? a with
  | some encoding =>
      obtain ⟨rfl, hBefore, hEncode⟩ := (encoding?_eq_some_iff _ _ _).mp hHere
      cases hApply.symm.trans ((apply_eq_ok_iff _ _ _).mpr (.encode hEncode))
      exact Or.inl ⟨encoding, rfl, hBefore, rfl, hEncode⟩
  | none =>
      refine Or.inr ⟨rfl, ?_⟩
      rintro f instruction rfl
      cases (apply_eq_ok_iff _ _ _).mp hApply with
      | encode hEncode =>
          have hSome := (encoding?_eq_some_iff _ _ ⟨f, instruction, a, after⟩).mpr
            ⟨rfl, rfl, hEncode⟩
          rw [hHere] at hSome
          cases hSome
      | refused => rfl

/-- Every instruction that a run encodes was encoded in a step of the run, on
the code that the steps before it had led to. -/
theorem visits_of_mem_encodings {actions : List Action} {a final : Assembler}
    {encoding : Encoding} (hRun : applyAll actions a = .ok final)
    (h : encoding ∈ encodings actions a) :
    Visits a actions encoding.before (.encode encoding.f encoding.instruction) encoding.after ∧
      encoding.instruction.encode encoding.f encoding.before = .done () encoding.after := by
  induction actions generalizing a with
  | nil => cases h
  | cons action rest ih =>
      obtain ⟨next, hStep, hRest⟩ := (applyAll_cons_eq_ok_iff _ _ _ _).mp hRun
      rw [encodings_cons _ hStep, List.mem_append, Option.mem_toList] at h
      rcases h with hHere | hLater
      · obtain ⟨rfl, rfl, hEncode⟩ := (encoding?_eq_some_iff _ _ _).mp hHere
        exact ⟨.head rest ((apply_eq_ok_iff _ _ _).mpr (.encode hEncode)), hEncode⟩
      · obtain ⟨hVisits, hEncode⟩ := ih hRest hLater
        exact ⟨hVisits.cons hStep, hEncode⟩

end Action

namespace Survey

/-- A jump is its opcode and the distance to its target, and a distance of zero
stands there as long as the target is not known. -/
theorem write_jumpChunks (targets : List (Label × Nat)) (position : Nat) (condition : Condition)
    (target : Label) :
    write targets position (Action.jumpChunks condition target) =
      [0x0F, UInt8.ofNat (0x80 + condition.code)] ++
        LittleEndian.word (filling targets target (position + 2)) := by
  rw [Action.jumpChunks, write, write_gap, write, List.append_nil]
  rfl

/-- A step moves the end of the code by what it adds. What labels are bound to
has no influence on that. -/
theorem Describes.position_apply {survey : Survey} {a after : Assembler} {action : Action}
    (h : survey.Describes a) (hApply : action.apply a = .ok after) :
    after.position = a.position + width (action.chunks a) := by
  rw [(h.apply hApply).position, chunks_append, width_append, ← h.position]
  rfl

/-- What a step adds stays where the step put it. Only the gaps in it are
filled later, with the distances to where the labels are in the end. -/
theorem drop_of_visits {actions : List Action} {before after final : Assembler} {action : Action}
    (hRun : Action.applyAll actions .empty = .ok final)
    (hVisits : Action.Visits .empty actions before action after) :
    final.bytes.drop before.position =
      write (ofActions actions .empty).targets before.position (action.chunks before) ++
        final.bytes.drop after.position := by
  obtain ⟨earlier, later, hBefore, hAfter, hSurvey⟩ := ofActions_of_visits hRun hVisits
  have hBytes := (describes_ofActions hRun).bytes
  rw [code] at hBytes
  generalize (ofActions actions .empty).targets = targets at hBytes ⊢
  have hStart : (write targets 0 earlier.chunks).length = before.position := by
    rw [length_write, hBefore.position]
  have hStop : (write targets 0 (earlier ++ ofAction action before).chunks).length =
      after.position := by
    rw [length_write, hAfter.position]
  rw [hBytes, hSurvey, chunks_append, write_append, List.drop_left' hStop, chunks_append,
    write_append, Nat.zero_add, List.append_assoc, List.drop_left' hStart, ← hBefore.position]
  rfl

end Survey

namespace Encoding

/-- How far the instruction goes if it is a jump and its target is looked up
here. -/
def distance (targets : List (Label × Nat)) (encoding : Encoding) : Int32 :=
  match encoding.instruction with
  | .jcc _ target => Survey.filling targets target (encoding.start + 2)
  | _ => 0

/-- The step that encoded the instruction. -/
def action (encoding : Encoding) : Action :=
  .encode encoding.f encoding.instruction

/-- Whatever the labels turn out to be, the bytes of an encoded instruction are
read as what it stands for. So a jump may be read before it is known where it
goes. -/
theorem read_write {encoding : Encoding} (targets : List (Label × Nat))
    (h : encoding.instruction.encode encoding.f encoding.before = .done () encoding.after) :
    ∃ machine, encoding.instruction.machine? encoding.f (encoding.distance targets) = some machine ∧
      ∀ rest, MachineInstruction.read
        (Survey.write targets encoding.start (encoding.action.chunks encoding.before) ++ rest) =
          some (machine, rest) := by
  obtain ⟨f, instruction, before, after⟩ := encoding
  rcases (Instruction.encode_eq_done_iff _ _ _ _).mp h with
    ⟨condition, target, rfl, -⟩ | ⟨form, between, hFormed, hEmit⟩
  · refine ⟨_, rfl, fun rest => ?_⟩
    have hRead := MachineInstruction.read_jump condition
      (Survey.filling targets target (before.position + 2)) rest
    rw [← Survey.write_jumpChunks] at hRead
    exact hRead
  · obtain ⟨machine, hMachine, hRead⟩ :=
      hFormed.read (distance targets ⟨f, instruction, before, after⟩)
    refine ⟨machine, hMachine, fun rest => ?_⟩
    rw [action, Survey.chunks_of_formedAs hFormed hEmit, Survey.write, Survey.write,
      List.append_nil]
    exact hRead rest

/-- An encoded instruction has at least one byte, since there is something to
read. A sweep therefore gets on with every instruction. -/
theorem width_pos {encoding : Encoding}
    (h : encoding.instruction.encode encoding.f encoding.before = .done () encoding.after) :
    0 < Survey.width (encoding.action.chunks encoding.before) := by
  obtain ⟨machine, -, hRead⟩ := read_write [] h
  rw [← Survey.length_write [] encoding.start, List.length_pos_iff]
  intro hNil
  have hNothing := hRead []
  rw [hNil] at hNothing
  cases hNothing

end Encoding

namespace Survey.Describes

variable {survey : Survey} {a final : Assembler} {actions : List Action}

/-- The code of a run never becomes shorter, whatever steps it has and however
many of them are refused. -/
theorem position_le (h : survey.Describes a) (hRun : Action.applyAll actions a = .ok final) :
    a.position ≤ final.position := by
  rw [(h.applyAll hRun).position, h.position, chunks_append, width_append]
  exact Nat.le_add_right _ _

/-- What a run encodes stands between its ends: not before the code that there
was, and not beyond the code there is at last. -/
theorem bounds_of_mem_encodings (h : survey.Describes a)
    (hRun : Action.applyAll actions a = .ok final) {encoding : Encoding}
    (hMem : encoding ∈ Action.encodings actions a) :
    a.position ≤ encoding.start ∧ encoding.start < encoding.stop ∧
      encoding.stop ≤ final.position := by
  obtain ⟨hVisits, hEncode⟩ := Action.visits_of_mem_encodings hRun hMem
  obtain ⟨earlier, later, -, hEarlier, hApply, hLater⟩ := hVisits.split hRun
  have hBefore := h.applyAll hEarlier
  have hStop : encoding.stop = encoding.start + width (encoding.action.chunks encoding.before) :=
    hBefore.position_apply hApply
  have hWidth := Encoding.width_pos hEncode
  exact ⟨h.position_le hEarlier, by omega, (hBefore.apply hApply).position_le hLater⟩

end Survey.Describes

end Amd64
