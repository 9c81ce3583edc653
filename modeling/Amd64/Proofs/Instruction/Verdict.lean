import Amd64.Proofs.Assembler.Ending
import Amd64.Proofs.Instruction.Forms

/-!
How the encoding of an instruction ends, in terms of what the instruction is:
in a value, in a refusal of its type or in a refusal of its operands. The
verdict on a sequence follows from the verdicts on its parts: `Verdict.bind`.
-/

namespace Amd64

/-- How the encoding of an instruction with this mnemonic ends, or a part of
it: in a value if the instruction is supported, in a refusal of the one type
that the mnemonic lacks, or in a refusal of the operands. -/
inductive Verdict {α : Type} (mnemonic : String) (supported : Prop) (lacks : ValueType → Prop) :
    Outcome α → Prop where
  | accepted {value : α} {after : Assembler} (h : supported) (hTyped : ∀ type, ¬ lacks type) :
      Verdict mnemonic supported lacks (.done value after)
  | untyped {type : ValueType} {after : Assembler} (h : ¬ supported)
      (hType : ∀ other, lacks other ↔ other = type) :
      Verdict mnemonic supported lacks (.refused (.unsupportedType mnemonic type) after)
  | unfit {misuse : Misuse} {after : Assembler} (h : ¬ supported)
      (hTyped : ∀ type, ¬ lacks type) :
      Verdict mnemonic supported lacks (.refused (.invalidOperands mnemonic misuse) after)

namespace Verdict

variable {α β : Type} {mnemonic : String} {supported : Prop} {lacks : ValueType → Prop}
  {outcome : Outcome α} {a : Assembler}

/-- A verdict can be given in other words, as long as they mean the same. -/
theorem congr {supported' : Prop} {lacks' : ValueType → Prop}
    (h : Verdict mnemonic supported lacks outcome) (hSupported : supported ↔ supported')
    (hLacks : ∀ type, lacks type ↔ lacks' type) : Verdict mnemonic supported' lacks' outcome := by
  obtain rfl : lacks = lacks' := funext fun type => propext (hLacks type)
  obtain rfl : supported = supported' := propext hSupported
  exact h

/-- What is supported succeeds, and nothing else does. There is no verdict
about faults. -/
theorem done_iff (h : Verdict mnemonic supported lacks outcome) :
    (∃ value after, outcome = .done value after) ↔ supported := by
  cases h <;> simp [*]

/-- A refusal for a type names the type that is lacking, and it is given for
that reason only. -/
theorem unsupportedType_iff {reason : Refusal} {after : Assembler}
    (h : Verdict mnemonic supported lacks (.refused reason after : Outcome α))
    (type : ValueType) : reason = .unsupportedType mnemonic type ↔ lacks type := by
  cases h with
  | untyped _ hType => simp [hType, eq_comm]
  | unfit _ hTyped => simp [hTyped]

/-- Where no type is lacking a refusal is about the operands. -/
theorem exists_misuse {reason : Refusal} {after : Assembler}
    (h : Verdict mnemonic supported lacks (.refused reason after : Outcome α))
    (hTyped : ∀ type, ¬ lacks type) : ∃ misuse, reason = .invalidOperands mnemonic misuse := by
  cases h with
  | untyped _ hType => exact absurd ((hType _).mpr rfl) (hTyped _)
  | unfit => exact ⟨_, rfl⟩

/-- The first part that is not supported decides about a sequence. The second
part may be judged by what the first one hands on. -/
theorem bind {first : Assembly α} {next : α → Assembly β} {supported' : Prop}
    {lacks' : ValueType → Prop} (hFirst : Verdict mnemonic supported lacks (first a))
    (hNext : ∀ value between, first a = .done value between →
      Verdict mnemonic supported' lacks' (next value between)) :
    Verdict mnemonic (supported ∧ supported')
      (fun type => lacks type ∨ supported ∧ lacks' type) ((first >>= next) a) := by
  rw [Assembly.bind_apply]
  generalize hOutcome : first a = outcome at hFirst
  cases hFirst with
  | accepted h hTyped =>
      -- Everything is left to the second part.
      refine (hNext _ _ hOutcome).congr (by simp [h]) fun type => ?_
      simp [h, hTyped type]
  | untyped h hType =>
      exact .untyped (fun hBoth => h hBoth.1) fun other => by simp [h, hType other]
  | unfit h hTyped => exact .unfit (fun hBoth => h hBoth.1) fun type => by simp [h, hTyped type]

/-- What always succeeds changes no verdict. Writing a form is of this kind. -/
theorem bind_done {first : Assembly α} {next : α → Assembly β}
    (h : Verdict mnemonic supported lacks (first a))
    (hNext : ∀ value between, first a = .done value between →
      ∃ result after, next value between = .done result after) :
    Verdict mnemonic supported lacks ((first >>= next) a) := by
  have hDone (value : α) (between : Assembler) (hFirst : first a = .done value between) :
      Verdict mnemonic True (fun _ => False) (next value between) := by
    obtain ⟨result, after, hResult⟩ := hNext value between hFirst
    rw [hResult]
    exact .accepted trivial fun _ => id
  exact (h.bind hDone).congr (by simp) (by simp)

/-- A rolled-back refusal is a refusal for the same reason. -/
theorem orRollback {computation : Assembly α}
    (h : Verdict mnemonic supported lacks (computation a)) :
    Verdict mnemonic supported lacks (computation.orRollback a) := by
  unfold Assembly.orRollback
  generalize computation a = outcome at h
  cases h with
  | accepted h hTyped => exact .accepted h hTyped
  | untyped h hType => exact .untyped h hType
  | unfit h hTyped => exact .unfit h hTyped

/-- A check of the type before anything else. If the type fails, the rest is
not even looked at. -/
theorem of_typed {typed : Prop} {type : ValueType}
    (hTyped : typed → Verdict mnemonic supported (fun _ => False) outcome)
    (hUntyped : ¬ typed → ∃ after, outcome = .refused (.unsupportedType mnemonic type) after) :
    Verdict mnemonic (typed ∧ supported) (fun lacked => type = lacked ∧ ¬ typed) outcome := by
  by_cases h : typed
  · exact (hTyped h).congr (by simp [h]) (by simp [h])
  · obtain ⟨after, rfl⟩ := hUntyped h
    exact .untyped (fun hBoth => h hBoth.1) fun other => by simp [h, eq_comm]

/-- A choice that never looks at a type can only blame the operands. -/
theorem ofRefusable {result : Except Refusal α}
    (hOk : (∃ value, result = .ok value) ↔ supported) (hError : BlamesOperands mnemonic result) :
    Verdict mnemonic supported (fun _ => False) (Assembly.ofRefusable result a) := by
  cases result with
  | ok value => exact .accepted (hOk.mp ⟨value, rfl⟩) fun _ => id
  | error reason =>
      obtain ⟨misuse, rfl⟩ := hError reason rfl
      exact .unfit (by simp [← hOk]) fun _ => id

end Verdict

end Amd64
