import Amd64.Action

/-!
Sequences of steps. A refused step is passed over and the next one goes on with
the code it left; a fault ends the sequence. The codes that some sequence
reaches from the empty one are the only ones that exist.
-/

namespace Amd64

namespace Action

/-- The code after a step, whether the step was refused or not. -/
def apply (action : Action) (a : Assembler) : Except Fault Assembler :=
  match action.run a with
  | .done _ after => .ok after
  | .refused _ after => .ok after
  | .fault cause => .error cause

def applyAll : List Action → Assembler → Except Fault Assembler
  | [], a => .ok a
  | action :: rest, a =>
      match action.apply a with
      | .ok after => applyAll rest after
      | .error cause => .error cause

/-- Running two sequences one after the other is running them as one. A fault
in the first one is the fault of both. -/
theorem applyAll_append (first second : List Action) (a : Assembler) :
    applyAll (first ++ second) a = (applyAll first a).bind (applyAll second) := by
  induction first generalizing a with
  | nil => rfl
  | cons action rest ih =>
      simp only [List.cons_append, applyAll]
      cases action.apply a with
      | ok after => exact ih after
      | error cause => rfl

end Action

namespace Assembler

/-- Some sequence of steps leads from no code at all to this one. -/
def Reachable (a : Assembler) : Prop :=
  ∃ actions, Action.applyAll actions .empty = .ok a

/-- What holds of no code and is kept by every step holds of every reachable
code. A refused step is a step like any other: it also has to keep what is
claimed. -/
theorem Reachable.induction {holds : Assembler → Prop} (hEmpty : holds .empty)
    (hStep : ∀ (a after : Assembler) (action : Action),
      holds a → action.apply a = .ok after → holds after)
    {a : Assembler} (h : a.Reachable) : holds a := by
  obtain ⟨actions, hActions⟩ := h
  have hRun : ∀ (actions : List Action) (start : Assembler), holds start →
      Action.applyAll actions start = .ok a → holds a := by
    intro actions
    induction actions with
    | nil =>
        intro start hStart hEnd
        cases hEnd
        exact hStart
    | cons action rest ih =>
        intro start hStart hEnd
        simp only [Action.applyAll] at hEnd
        cases hApply : action.apply start with
        | ok after =>
            rw [hApply] at hEnd
            exact ih after (hStep start after action hStart hApply) hEnd
        | error cause => simp [hApply] at hEnd
  exact hRun actions .empty hEmpty hActions

end Assembler

end Amd64
