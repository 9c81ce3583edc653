import Amd64.Assembler.Assembly

/-!
How computations that write code end, read off the endings of their parts. A
sequence is refused either before its second part starts or inside it, which
`Assembly.bind_eq_refused_iff` keeps apart because the code that is left
differs.
-/

namespace Amd64

/-- A sequence of two lookups finds something exactly if both do, the second
one with what the first one found. -/
theorem Except.bind_eq_ok_iff {ε α β : Type} (first : Except ε α) (next : α → Except ε β)
    (result : β) :
    (first >>= next) = .ok result ↔ ∃ value, first = .ok value ∧ next value = .ok result := by
  cases first with
  | ok value =>
      constructor
      · intro h
        exact ⟨value, rfl, h⟩
      · rintro ⟨_, hFirst, hNext⟩
        cases hFirst
        exact hNext
  | error cause => simp [Bind.bind, Except.bind]

/-- A change of what was found neither finds nor loses anything. -/
theorem Except.map_eq_ok_iff {ε α β : Type} (change : α → β) (result : Except ε α) (value : β) :
    result.map change = .ok value ↔ ∃ found, result = .ok found ∧ value = change found := by
  cases result with
  | ok found => simp [Except.map, eq_comm]
  | error cause => simp [Except.map]

namespace Assembly

variable {α β : Type}

/-- A sequence is refused in its first part, or in its second part after the
first one ended. In the second case the code is what the second part left of
what the first one wrote. -/
theorem bind_eq_refused_iff (first : Assembly α) (next : α → Assembly β) (a after : Assembler)
    (reason : Refusal) :
    (first >>= next) a = .refused reason after ↔
      first a = .refused reason after ∨
        ∃ value between, first a = .done value between ∧
          next value between = .refused reason after := by
  rw [bind_apply]
  cases first a with
  | done value between =>
      constructor
      · intro h
        exact Or.inr ⟨value, between, rfl, h⟩
      · rintro (hFirst | ⟨_, _, hFirst, hNext⟩)
        · cases hFirst
        · cases hFirst
          exact hNext
  | refused earlier between => simp
  | fault cause => simp

/-- A result that is only passed on leaves the code as it was. -/
@[simp] theorem pure_eq_done_iff (value result : α) (a after : Assembler) :
    (pure value : Assembly α) a = .done result after ↔ result = value ∧ after = a := by
  simp [eq_comm]

@[simp] theorem refuse_apply (reason : Refusal) (a : Assembler) :
    (refuse reason : Assembly α) a = .refused reason a := rfl

@[simp] theorem step_apply (write : Assembler → α × Assembler) (a : Assembler) :
    step write a = .done (write a).1 (write a).2 := rfl

@[simp] theorem modify_apply (write : Assembler → Assembler) (a : Assembler) :
    modify write a = .done () (write a) := rfl

/-- Looking something up reads the code and does not write to it. -/
@[simp] theorem ofFaulty_eq_done_iff (result : Except Fault α) (value : α)
    (a after : Assembler) :
    ofFaulty result a = .done value after ↔ result = .ok value ∧ after = a := by
  cases result with
  | ok found => simp [ofFaulty, eq_comm]
  | error cause => simp [ofFaulty]

/-- Looking something up that is there is nothing but what follows, so that
such a step can be left out of a sequence. -/
theorem ofFaulty_bind {result : Except Fault α} {value : α} (h : result = .ok value)
    (next : α → Assembly β) : (ofFaulty result >>= next) = next value := by
  subst h
  rfl

/-- A check that can be refused does not write to the code when it passes. -/
@[simp] theorem ofRefusable_eq_done_iff (result : Except Refusal α) (value : α)
    (a after : Assembler) :
    ofRefusable result a = .done value after ↔ result = .ok value ∧ after = a := by
  cases result with
  | ok found => simp [ofRefusable, eq_comm]
  | error reason => simp [ofRefusable]

/-- A refusal that is passed on leaves the code as it was at that moment, with
whatever earlier steps wrote. Only a caught refusal is rolled back. -/
@[simp] theorem ofRefusable_eq_refused_iff (result : Except Refusal α) (reason : Refusal)
    (a after : Assembler) :
    ofRefusable result a = .refused reason after ↔ result = .error reason ∧ after = a := by
  cases result with
  | ok found => simp [ofRefusable]
  | error found => simp [ofRefusable, eq_comm]

/-- A write that can fault, as a step of a sequence. It has no result but the
code. -/
@[simp] theorem modifyFaulty_eq_done_iff (write : Assembler → Except Fault Assembler)
    (a after : Assembler) (result : Unit) :
    modifyFaulty write a = .done result after ↔ write a = .ok after := by
  unfold modifyFaulty
  cases write a <;> simp

/-- Catching refusals changes nothing about a computation that succeeds. -/
@[simp] theorem orRollback_eq_done_iff (computation : Assembly α) (value : α)
    (a after : Assembler) :
    computation.orRollback a = .done value after ↔ computation a = .done value after := by
  unfold orRollback
  cases computation a <;> simp

/-- What a caught refusal leaves is the rolled-back code of the refusal. The
mark is that of the code before the computation, so only what came in between
is dropped. -/
theorem orRollback_eq_refused_iff (computation : Assembly α) (reason : Refusal)
    (a after : Assembler) :
    computation.orRollback a = .refused reason after ↔
      ∃ left, computation a = .refused reason left ∧ after = left.rollback a.mark := by
  unfold orRollback
  cases computation a with
  | done value between => simp
  | refused earlier left =>
      constructor
      · intro h
        cases h
        exact ⟨left, rfl, rfl⟩
      · rintro ⟨_, hLeft, rfl⟩
        cases hLeft
        rfl
  | fault cause => simp

/-- The computation ends in a value or in a fault, whatever the code. -/
def NeverRefused (computation : Assembly α) : Prop :=
  ∀ a after reason, computation a ≠ .refused reason after

namespace NeverRefused

/-- A result that is only passed on is never refused. The lemmas that follow go
through the ways to build a computation, so that refusals can be excluded by
its shape. -/
theorem pure (value : α) : NeverRefused (Pure.pure value : Assembly α) := by
  intro a after reason
  simp

theorem ofFaulty (result : Except Fault α) : NeverRefused (ofFaulty result) := by
  intro a after reason
  cases result <;> simp [Assembly.ofFaulty]

theorem step (write : Assembler → α × Assembler) : NeverRefused (step write) := by
  intro a after reason
  simp

theorem modify (write : Assembler → Assembler) : NeverRefused (modify write) := by
  intro a after reason
  simp

theorem modifyFaulty (write : Assembler → Except Fault Assembler) :
    NeverRefused (modifyFaulty write) := by
  intro a after reason
  unfold Assembly.modifyFaulty
  cases write a <;> simp

/-- Of two parts neither of which is refused no sequence is refused, whatever
the first one hands on. -/
theorem bind {first : Assembly α} {next : α → Assembly β} (hFirst : first.NeverRefused)
    (hNext : ∀ value, (next value).NeverRefused) : (first >>= next).NeverRefused := by
  intro a after reason h
  rcases (bind_eq_refused_iff _ _ _ _ _).mp h with h | ⟨value, between, -, h⟩
  · exact hFirst a after reason h
  · exact hNext value between after reason h

end NeverRefused

/-- The computation only looks at things: whether it ends in a value or in a
refusal, the code is what it was. -/
structure KeepsCode (computation : Assembly α) : Prop where
  done : ∀ {a after value}, computation a = .done value after → after = a
  refused : ∀ {a after reason}, computation a = .refused reason after → after = a

namespace KeepsCode

/-- A result that is only passed on does not touch the code. As for refusals,
the lemmas that follow go through the ways to build a computation. -/
theorem pure (value : α) : KeepsCode (Pure.pure value : Assembly α) where
  done h := ((pure_eq_done_iff _ _ _ _).mp h).2
  refused h := absurd h (NeverRefused.pure _ _ _ _)

theorem refuse (reason : Refusal) : KeepsCode (refuse reason : Assembly α) where
  done h := by cases h
  refused h := by
    cases h
    rfl

theorem ofFaulty (result : Except Fault α) : KeepsCode (ofFaulty result) where
  done h := ((ofFaulty_eq_done_iff _ _ _ _).mp h).2
  refused h := absurd h (NeverRefused.ofFaulty _ _ _ _)

theorem ofRefusable (result : Except Refusal α) : KeepsCode (ofRefusable result) where
  done h := ((ofRefusable_eq_done_iff _ _ _ _).mp h).2
  refused h := ((ofRefusable_eq_refused_iff _ _ _ _).mp h).2

/-- Of two parts that only look neither writes, so neither does their sequence,
in whichever of them it ends. -/
theorem bind {first : Assembly α} {next : α → Assembly β} (hFirst : first.KeepsCode)
    (hNext : ∀ value, (next value).KeepsCode) : (first >>= next).KeepsCode where
  done h := by
    obtain ⟨value, between, hBetween, h⟩ := (bind_eq_done_iff _ _ _ _ _).mp h
    exact ((hNext value).done h).trans (hFirst.done hBetween)
  refused h := by
    rcases (bind_eq_refused_iff _ _ _ _ _).mp h with h | ⟨value, between, hBetween, h⟩
    · exact hFirst.refused h
    · exact ((hNext value).refused h).trans (hFirst.done hBetween)

end KeepsCode

/-- The computation ends in a value or in a refusal at this code. -/
def FaultFree (computation : Assembly α) (a : Assembler) : Prop :=
  ∀ cause, computation a ≠ .fault cause

/-- A computation without a fault ends in a result or in a refusal, and there
is no third way. -/
theorem faultFree_iff (computation : Assembly α) (a : Assembler) :
    computation.FaultFree a ↔
      (∃ value after, computation a = .done value after) ∨
        ∃ reason after, computation a = .refused reason after := by
  unfold FaultFree
  cases computation a <;> simp

/-- A computation that is never refused, and has no fault here, has a result.
Termination is not in question: a computation is a function. -/
theorem NeverRefused.exists_done {computation : Assembly α} (h : computation.NeverRefused)
    {a : Assembler} (hFree : computation.FaultFree a) :
    ∃ value after, computation a = .done value after := by
  rcases (faultFree_iff computation a).mp hFree with hDone | ⟨reason, after, hRefused⟩
  · exact hDone
  · exact absurd hRefused (h a after reason)

namespace FaultFree

variable {a : Assembler}

theorem pure (value : α) : FaultFree (Pure.pure value : Assembly α) a := by
  intro cause
  simp

theorem refuse (reason : Refusal) : FaultFree (refuse reason : Assembly α) a := by
  intro cause
  simp

theorem ofRefusable (result : Except Refusal α) : FaultFree (ofRefusable result) a := by
  intro cause
  cases result <;> simp [Assembly.ofRefusable]

/-- Whoever has seen a result has seen no fault. -/
theorem of_done {computation : Assembly α} {value : α} {after : Assembler}
    (h : computation a = .done value after) : FaultFree computation a := by
  intro cause
  simp [h]

/-- A lookup has no fault exactly if there is something to find. It does not
depend on the code. -/
theorem ofFaulty_iff (result : Except Fault α) :
    (ofFaulty result).FaultFree a ↔ ∃ value, result = .ok value := by
  unfold FaultFree ofFaulty
  cases result <;> simp

/-- A sequence has no fault if the first part has none and the second part has
none with what the first one hands on. Nothing is asked of results that the
first part does not have. -/
theorem bind {first : Assembly α} {next : α → Assembly β} (hFirst : first.FaultFree a)
    (hNext : ∀ value between, first a = .done value between → (next value).FaultFree between) :
    (first >>= next).FaultFree a := by
  intro cause
  rw [bind_apply]
  cases hOutcome : first a with
  | done value between => exact hNext value between hOutcome cause
  | refused reason between => simp
  | fault other => exact absurd hOutcome (hFirst other)

/-- A lookup that is known to find something can be crossed off before the rest
is looked at. -/
theorem bind_ofFaulty {result : Except Fault α} {value : α} {next : α → Assembly β}
    (h : result = .ok value) (hNext : (next value).FaultFree a) :
    (ofFaulty result >>= next).FaultFree a := by
  rwa [ofFaulty_bind h]

/-- A sequence without a fault has none in its first part, nor in its second
part after that. This is the direction that takes a claim about a whole
computation to its steps. -/
theorem of_bind {first : Assembly α} {next : α → Assembly β} (h : (first >>= next).FaultFree a) :
    first.FaultFree a ∧
      ∀ value between, first a = .done value between → (next value).FaultFree between := by
  refine ⟨fun cause hFirst => h cause ?_, fun value between hFirst cause hNext => h cause ?_⟩
  · rw [bind_apply, hFirst]
  · rw [bind_apply, hFirst]
    exact hNext

/-- Rolling back hides no fault and adds none, since it only happens after a
refusal. -/
theorem orRollback_iff {computation : Assembly α} :
    computation.orRollback.FaultFree a ↔ computation.FaultFree a := by
  unfold FaultFree Assembly.orRollback
  cases computation a <;> simp

end FaultFree

end Assembly

end Amd64
