import Amd64.Assembler.Basic
import Amd64.Fault

/-!
Computations that write code. One ends in a value, in a refusal or in a fault.
A refusal keeps the code as far as it was written, so that whoever catches it
can take the code back to a mark; after a fault no code is left to look at.
-/

namespace Amd64

/-- How a computation that writes code ends. -/
inductive Outcome (α : Type) where
  | done (value : α) (after : Assembler)
  | refused (reason : Refusal) (after : Assembler)
  | fault (cause : Fault)

/-- A computation that writes code. -/
def Assembly (α : Type) : Type :=
  Assembler → Outcome α

namespace Assembly

variable {α β : Type}

def value (result : α) : Assembly α :=
  fun a => .done result a

/-- One computation after another. Nothing follows a refusal or a fault. -/
def andThen (first : Assembly α) (next : α → Assembly β) : Assembly β := fun a =>
  match first a with
  | .done result after => next result after
  | .refused reason after => .refused reason after
  | .fault cause => .fault cause

instance : Monad Assembly where
  pure := value
  bind := andThen

/-- Gives up, and leaves the code to whoever catches the refusal. -/
def refuse (reason : Refusal) : Assembly α :=
  fun a => .refused reason a

/-- A value that may be missing through a fault. -/
def ofFaulty (result : Except Fault α) : Assembly α := fun a =>
  match result with
  | .ok result => .done result a
  | .error cause => .fault cause

def ofRefusable (result : Except Refusal α) : Assembly α := fun a =>
  match result with
  | .ok result => .done result a
  | .error reason => .refused reason a

def step (write : Assembler → α × Assembler) : Assembly α := fun a =>
  let (result, after) := write a
  .done result after

/-- A step that writes code and always succeeds. -/
def modify (write : Assembler → Assembler) : Assembly Unit :=
  fun a => .done () (write a)

/-- A step that writes code or ends in a fault. -/
def modifyFaulty (write : Assembler → Except Fault Assembler) : Assembly Unit := fun a =>
  match write a with
  | .ok after => .done () after
  | .error cause => .fault cause

/-- Takes the code back to where it was, if the computation is refused. -/
def orRollback (computation : Assembly α) : Assembly α := fun a =>
  match computation a with
  | .refused reason after => .refused reason (after.rollback a.mark)
  | outcome => outcome

@[simp] theorem pure_apply (result : α) (a : Assembler) :
    (pure result : Assembly α) a = .done result a := rfl

@[simp] theorem bind_apply (first : Assembly α) (next : α → Assembly β) (a : Assembler) :
    (first >>= next) a =
      match first a with
      | .done result after => next result after
      | .refused reason after => .refused reason after
      | .fault cause => .fault cause := rfl

/-- A sequence succeeds exactly if both parts do, one after the other. The
second part goes on with the code and the result that the first one left. -/
theorem bind_eq_done_iff (first : Assembly α) (next : α → Assembly β) (a after : Assembler)
    (result : β) :
    (first >>= next) a = .done result after ↔
      ∃ value between, first a = .done value between ∧
        next value between = .done result after := by
  rw [bind_apply]
  cases first a with
  | done value between =>
      constructor
      · intro h
        exact ⟨value, between, rfl, h⟩
      · rintro ⟨_, _, hFirst, hNext⟩
        cases hFirst
        exact hNext
  | refused reason between => simp
  | fault cause => simp

instance : LawfulMonad Assembly :=
  LawfulMonad.mk' Assembly
    (fun computation => by
      funext a
      change (computation >>= fun result => pure (id result)) a = computation a
      rw [bind_apply]
      cases computation a <;> rfl)
    (fun _ _ => rfl)
    (fun first _ _ => by
      funext a
      simp only [bind_apply]
      cases first a <;> rfl)

end Assembly

end Amd64
