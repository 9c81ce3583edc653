import Amd64.Proofs.Action.Step

/-!
Refused instructions leave no trace in a run. The history of a run keeps every
answer and every code on the way, so that a later label, fixup, patch or
finished code that depended on a refused step would show in it.
-/

namespace Amd64

/-- A step of a run, with the code before it and with the way it ended. -/
structure HistoryEntry where
  action : Action
  before : Assembler
  outcome : Outcome Answer

/-- The step was refused. -/
def HistoryEntry.isRefused (entry : HistoryEntry) : Bool :=
  match entry.outcome with
  | .refused _ _ => true
  | _ => false

namespace Action

/-- The steps of a run as they happen, up to the first fault. -/
def history : List Action → Assembler → List HistoryEntry
  | [], _ => []
  | action :: rest, a =>
      ⟨action, a, action.run a⟩ ::
        match action.apply a with
        | .ok after => history rest after
        | .error _ => []

/-- The steps of a run without those that are refused in it. -/
def withoutRefused : List Action → Assembler → List Action
  | [], _ => []
  | action :: rest, a =>
      match action.run a with
      | .done _ after => action :: withoutRefused rest after
      | .refused _ after => withoutRefused rest after
      | .fault _ => action :: rest

/-- Leaving out refused steps is leaving out their entries. Every other step
finds the code that it found before, answers what it answered, and the run ends
in the same code or in the same fault. -/
theorem history_withoutRefused (actions : List Action) (a : Assembler) :
    applyAll (withoutRefused actions a) a = applyAll actions a ∧
      history (withoutRefused actions a) a =
        (history actions a).filter fun entry => !entry.isRefused := by
  induction actions generalizing a with
  | nil => exact ⟨rfl, rfl⟩
  | cons action rest ih =>
      cases hRun : action.run a with
      | done answer after =>
          have hApply : action.apply a = .ok after := by rw [apply, hRun]
          obtain ⟨hCode, hHistory⟩ := ih after
          refine ⟨?_, ?_⟩
          · rw [withoutRefused, hRun]
            simp only [applyAll, hApply, hCode]
          · rw [withoutRefused, hRun]
            simp only [history, hApply, hHistory, hRun]
            rfl
      | refused reason after =>
          have hApply : action.apply a = .ok after := by rw [apply, hRun]
          -- The next step starts from the code that the refused one started from.
          obtain ⟨_, _, _, _, rfl⟩ := (run_eq_refused_iff _ _ _ _).mp hRun
          obtain ⟨hCode, hHistory⟩ := ih after
          refine ⟨?_, ?_⟩
          · rw [withoutRefused, hRun]
            simp only [applyAll, hApply, hCode]
          · rw [withoutRefused, hRun]
            simp only [history, hApply, hHistory, hRun]
            rfl
      | fault cause =>
          have hApply : action.apply a = .error cause := by rw [apply, hRun]
          refine ⟨?_, ?_⟩
          · rw [withoutRefused, hRun]
          · rw [withoutRefused, hRun]
            simp only [history, hApply, hRun]
            rfl

/-- An entry holds how its step ends on the code before it, so that nothing in
a history depends on what comes later. -/
theorem outcome_of_mem_history {actions : List Action} {a : Assembler} {entry : HistoryEntry}
    (h : entry ∈ history actions a) : entry.outcome = entry.action.run entry.before := by
  induction actions generalizing a with
  | nil => cases h
  | cons action rest ih =>
      rw [history] at h
      rcases List.mem_cons.mp h with rfl | h
      · rfl
      · cases hApply : action.apply a with
        | ok after =>
            rw [hApply] at h
            exact ih h
        | error cause =>
            rw [hApply] at h
            cases h

/-- A refused instruction cannot be noticed. The code after it is the code
before it in all its parts, only instructions are ever refused, and a run
without them goes and ends like the run with them. -/
theorem refused_leaves_no_trace :
    (∀ (f : Function) (instruction : Instruction) (a after : Assembler) (reason : Refusal),
      instruction.encode f a = .refused reason after → after = a) ∧
    ∀ (actions : List Action) (a : Assembler),
      (∀ entry ∈ history actions a, entry.isRefused = true →
        ∃ f instruction, entry.action = .encode f instruction) ∧
      applyAll (withoutRefused actions a) a = applyAll actions a ∧
      history (withoutRefused actions a) a =
        (history actions a).filter fun entry => !entry.isRefused := by
  refine ⟨?_, ?_⟩
  · intro f instruction a after reason hRefused
    exact Instruction.eq_of_encode_refused hRefused
  · intro actions a
    refine ⟨?_, history_withoutRefused actions a⟩
    intro entry hEntry hIsRefused
    have hOutcome := outcome_of_mem_history hEntry
    cases hRun : entry.action.run entry.before with
    | refused reason after =>
        obtain ⟨f, instruction, hAction, -⟩ := (run_eq_refused_iff _ _ _ _).mp hRun
        exact ⟨f, instruction, hAction⟩
    | done answer after => simp [HistoryEntry.isRefused, hOutcome, hRun] at hIsRefused
    | fault cause => simp [HistoryEntry.isRefused, hOutcome, hRun] at hIsRefused

/-- A copy from memory to memory is refused after both of its fixups were
requested, while a label waits and an older fixup has its place. -/
theorem refused_leaves_no_trace_copy :
    let f : Function := .empty "f" .initial
    let copy : Instruction :=
      .mov .i32 (.memory (.ofParts .i32 none none (some (.relocatable ⟨"g", 0⟩)) .one))
        (.memory (.ofParts .i32 none none (some (.relocatable ⟨"h", 0⟩)) .one))
    let a : Assembler :=
      ⟨[0x8B, 0x04, 0x25, 0, 0, 0, 0, 0x0F, 0x84, 0, 0, 0, 0], [⟨.signed32, "k", some 3⟩],
        [.pending [9]]⟩
    let actions : List Action := [.encode f copy, .bind ⟨0⟩, .createFixup ⟨"h", 0⟩]
    let kept : List Action := [.bind ⟨0⟩, .createFixup ⟨"h", 0⟩]
    (∃ left, copy.encode f a = .refused (.invalidOperands "mov" .memoryToMemory) left ∧ left = a) ∧
      withoutRefused actions a = kept ∧ applyAll kept a = applyAll actions a := by
  intro f copy a actions kept
  have hRefused : copy.encode f a = .refused (.invalidOperands "mov" .memoryToMemory) a := by rfl
  have hKept : withoutRefused actions a = kept := by rfl
  refine ⟨⟨a, hRefused, refused_leaves_no_trace.1 f copy a a _ hRefused⟩, hKept, ?_⟩
  rw [← hKept]
  exact (refused_leaves_no_trace.2 actions a).2.1

end Action

end Amd64
