import Amd64.Proofs.Action.Step
import Amd64.Proofs.Action.Survey
import Amd64.Proofs.Assembler.Labels

/-!
Code that is patched while it grows is the code of two passes. The invariant of
the run, `Survey.Describes`, says that at every moment the bytes are those that
the second pass writes with the labels bound so far, and that a label which is
not bound yet waits in exactly its gaps.
-/

namespace Amd64

namespace Survey

instance : Append Survey where
  append first second := ⟨first.chunks ++ second.chunks, first.targets ++ second.targets⟩

@[simp] theorem chunks_append (first second : Survey) :
    (first ++ second).chunks = first.chunks ++ second.chunks := rfl

@[simp] theorem targets_append (first second : Survey) :
    (first ++ second).targets = first.targets ++ second.targets := rfl

theorem append_assoc (first second third : Survey) :
    first ++ second ++ third = first ++ (second ++ third) := by
  change Survey.mk _ _ = Survey.mk _ _
  rw [chunks_append, targets_append, List.append_assoc, List.append_assoc]
  rfl

theorem append_nil (survey : Survey) : survey ++ ⟨[], []⟩ = survey := by
  change Survey.mk _ _ = survey
  rw [List.append_nil, List.append_nil]

/-- What a survey knows of a label: its position, or the gaps that wait for
it. -/
def state (survey : Survey) (label : Label) : LabelState :=
  match survey.targets.lookup label with
  | some target => .bound target
  | none => .pending (gaps label 0 survey.chunks)

theorem state_eq_bound_iff (survey : Survey) (label : Label) (target : Nat) :
    survey.state label = .bound target ↔ survey.targets.lookup label = some target := by
  unfold state
  cases survey.targets.lookup label <;> simp

/-- Without a target a label waits, in all the gaps that there are for it and
in their order. -/
theorem state_eq_pending_iff (survey : Survey) (label : Label) (fields : List Nat) :
    survey.state label = .pending fields ↔
      survey.targets.lookup label = none ∧ gaps label 0 survey.chunks = fields := by
  unfold state
  cases survey.targets.lookup label <;> simp

def withGap (survey : Survey) (label : Label) : Survey :=
  survey ++ ⟨[.gap label], []⟩

/-- A new gap is filled at once if its label has a target, and with zeros
otherwise. -/
theorem code_withGap (survey : Survey) (label : Label) :
    (survey.withGap label).code =
      survey.code ++ LittleEndian.word (filling survey.targets label (width survey.chunks)) := by
  rw [withGap, code, code, chunks_append, targets_append, List.append_nil, write_append,
    write_gap, Nat.zero_add, write, List.append_nil]

/-- A gap for a label that is bound does not wait for anything, as its distance
is known. -/
theorem state_withGap_of_bound {survey : Survey} {label : Label} {target : Nat}
    (h : survey.state label = .bound target) :
    (survey.withGap label).state label = .bound target := by
  rw [state_eq_bound_iff] at h ⊢
  simpa [withGap] using h

/-- A label that is not bound waits in the new gap too, which is the last of
its gaps. -/
theorem state_withGap_of_pending {survey : Survey} {label : Label} {fields : List Nat}
    (h : survey.state label = .pending fields) :
    (survey.withGap label).state label = .pending (fields ++ [width survey.chunks]) := by
  obtain ⟨hUnbound, hGaps⟩ := (state_eq_pending_iff _ _ _).mp h
  rw [state_eq_pending_iff]
  refine ⟨by simpa [withGap] using hUnbound, ?_⟩
  rw [withGap, chunks_append, gaps_append, hGaps]
  simp [gaps]

theorem state_withGap_of_ne (survey : Survey) {label other : Label} (h : other ≠ label) :
    (survey.withGap label).state other = survey.state other := by
  simp [withGap, state, gaps_append, gaps, h.symm]

/-- Code as far as a survey of its steps accounts for it. -/
structure Describes (survey : Survey) (a : Assembler) : Prop where
  /-- The bytes are those of the second pass, where unbound labels still leave
  zeros. -/
  bytes : a.bytes = survey.code
  labels : ∀ label, a.labelState label = survey.state label
  inside : ∀ label target, survey.targets.lookup label = some target → target ≤ a.position

/-- An instruction that is no jump adds the bytes that encoding it adds. A jump
has no operands, and this tells it from the others. -/
theorem chunks_of_encode {f : Function} {instruction : Instruction} {a after : Assembler}
    {content : List UInt8} (hOperands : instruction.operands ≠ [])
    (hEncode : instruction.encode f a = .done () after)
    (hBytes : after.bytes = a.bytes ++ content) :
    (Action.encode f instruction).chunks a = [.bytes content] := by
  have hWritten : Action.instructionBytes f instruction a = content := by
    rw [Action.instructionBytes, hEncode]
    simp [hBytes, Assembler.position]
  rw [← hWritten]
  cases instruction with
  | jcc condition target => exact absurd rfl hOperands
  | mov | lea | setcc | cmpps => rfl

/-- The chunk of an instruction other than a jump is the bytes of its form,
since translating its operand has added none. -/
theorem chunks_of_formedAs {f : Function} {instruction : Instruction} {form : Form}
    {a between after : Assembler} (hFormed : instruction.FormedAs f a form between)
    (hEmit : form.emit between = .done () after) :
    (Action.encode f instruction).chunks a = [.bytes form.bytes] := by
  have hEncode := (Instruction.encode_eq_done_iff _ _ _ _).mpr (Or.inr ⟨_, _, hFormed, hEmit⟩)
  obtain ⟨fixups, rfl⟩ := hFormed.after_eq
  apply chunks_of_encode _ hEncode (Form.emit_extends hEmit).1
  cases hFormed <;> simp [Instruction.operands]

namespace Describes

variable {survey : Survey} {a after : Assembler}

/-- The code is as long as its chunks are wide, whatever the labels turn out to
be. -/
theorem position (h : survey.Describes a) : a.position = width survey.chunks := by
  rw [Assembler.position, h.bytes, code, length_write]

/-- A step that changes neither the bytes nor any label. -/
theorem keep (h : survey.Describes a) (hBytes : after.bytes = a.bytes)
    (hLabels : ∀ label, after.labelState label = a.labelState label) :
    (survey ++ ⟨[], []⟩).Describes after := by
  rw [append_nil]
  refine ⟨hBytes.trans h.bytes, fun label => (hLabels label).trans (h.labels label), ?_⟩
  intro label target hTarget
  rw [Assembler.position, hBytes]
  exact h.inside label target hTarget

/-- Bytes that wait for no label are one more chunk, and every label stays as
it was. -/
theorem extend (h : survey.Describes a) {content : List UInt8}
    (hBytes : after.bytes = a.bytes ++ content) (hLabels : after.labels = a.labels) :
    (survey ++ ⟨[.bytes content], []⟩).Describes after where
  bytes := by
    rw [hBytes, h.bytes, code, code, chunks_append, targets_append, List.append_nil,
      write_append]
    simp [write]
  labels label := by
    have hState : after.labelState label = a.labelState label := by
      rw [Assembler.labelState, hLabels, Assembler.labelState]
    rw [hState, h.labels]
    simp [state, gaps_append, gaps]
  inside label target hTarget := by
    rw [targets_append, List.append_nil] at hTarget
    have hBefore := h.inside label target hTarget
    have hLength : after.position = a.position + content.length := by
      rw [Assembler.position, hBytes, List.length_append, Assembler.position]
    omega

/-- A step that adds the distance to a label, which stays open as long as the
label is not bound. The field is recorded for the label only then. -/
theorem emitDistance (h : survey.Describes a) {label : Label}
    (hStep : a.emitDistance label = .ok after) : (survey.withGap label).Describes after := by
  have hInside (other : Label) (target : Nat)
      (hTarget : (survey.withGap label).targets.lookup other = some target) :
      target ≤ a.position := by
    rw [withGap, targets_append, List.append_nil] at hTarget
    exact h.inside other target hTarget
  rcases (Assembler.emitDistance_eq_ok_iff _ _ _).mp hStep with
    ⟨target, hFound, rfl⟩ | ⟨fields, hFound, rfl⟩
  -- A bound label has its distance written at once, any other leaves zeros and one more field.
  · have hBound : survey.state label = .bound target :=
      (h.labels label).symm.trans (Assembler.labelState_eq_of_getElem? hFound)
    have hLookup := (state_eq_bound_iff _ _ _).mp hBound
    refine ⟨?_, ?_, ?_⟩
    · rw [code_withGap, filling, hLookup, ← h.bytes, ← h.position]
      rfl
    · intro other
      change a.labelState other = _
      rw [h.labels]
      by_cases hOther : other = label
      · rw [hOther, state_withGap_of_bound hBound, hBound]
      · rw [state_withGap_of_ne survey hOther]
    · intro other position hPosition
      have hBefore := hInside other position hPosition
      rw [Assembler.position_emit]
      omega
  · have hPending : survey.state label = .pending fields :=
      (h.labels label).symm.trans (Assembler.labelState_eq_of_getElem? hFound)
    have hLookup := ((state_eq_pending_iff _ _ _).mp hPending).1
    refine ⟨?_, ?_, ?_⟩
    · rw [code_withGap, filling, hLookup, ← h.bytes]
      rfl
    · intro other
      change (a.setLabel label (.pending (fields ++ [a.position]))).labelState other = _
      by_cases hOther : other = label
      · rw [hOther, Assembler.labelState_setLabel_self hFound, state_withGap_of_pending hPending,
          h.position]
      · rw [Assembler.labelState_setLabel_of_ne a hOther, state_withGap_of_ne survey hOther,
          h.labels]
    · intro other position hPosition
      have hBefore := hInside other position hPosition
      rw [Assembler.withField, Assembler.position_emit]
      change position ≤ a.position + _
      omega

/-- A jump is two bytes of opcode and a distance, one step after the other. -/
theorem emitJump (h : survey.Describes a) {condition : Condition} {label : Label}
    (hStep : a.emitJump condition label = .ok after) :
    (survey ++ ⟨Action.jumpChunks condition label, []⟩).Describes after := by
  have hOpcode : (survey ++ ⟨[.bytes [0x0F, UInt8.ofNat (0x80 + condition.code)]], []⟩).Describes
      (a.emit [0x0F, UInt8.ofNat (0x80 + condition.code)]) := h.extend rfl rfl
  have hJump := hOpcode.emitDistance hStep
  rw [withGap, append_assoc] at hJump
  exact hJump

/-- The step that binds a label fills all gaps that waited for it. After that
nothing waits for the label any more. -/
theorem bind (h : survey.Describes a) {label : Label} (hStep : a.bind label = .ok after) :
    (survey ++ ⟨[], [(label, a.position)]⟩).Describes after := by
  obtain ⟨fields, hFound, -, rfl⟩ := (Assembler.bind_eq_ok_iff _ _ _).mp hStep
  obtain ⟨hUnbound, hGaps⟩ := (state_eq_pending_iff _ _ _).mp
    ((h.labels label).symm.trans (Assembler.labelState_eq_of_getElem? hFound))
  have hPatched := patch_gaps hUnbound a.position (a.setLabel label (.bound a.position)) []
    survey.chunks h.bytes
  rw [List.length_nil, List.nil_append, hGaps] at hPatched
  have hBytes : (a.withTarget label fields).bytes =
      write (survey.targets ++ [(label, a.position)]) 0 survey.chunks := by
    rw [Assembler.withTarget, hPatched]
  refine ⟨?_, ?_, ?_⟩
  · rw [hBytes, code, chunks_append, targets_append, List.append_nil]
  · intro other
    have hState : (a.withTarget label fields).labelState other =
        (a.setLabel label (.bound a.position)).labelState other := by
      rw [Assembler.withTarget, hPatched]
      rfl
    rw [hState]
    by_cases hOther : other = label
    · rw [hOther, Assembler.labelState_setLabel_self hFound]
      exact ((state_eq_bound_iff _ _ _).mpr (lookup_append_self hUnbound)).symm
    · rw [Assembler.labelState_setLabel_of_ne a hOther, h.labels, state, state, targets_append,
        lookup_append_of_ne _ hOther, chunks_append, List.append_nil]
  · intro other target hTarget
    rw [Assembler.position, hBytes, length_write, ← h.position]
    by_cases hOther : other = label
    · rw [hOther, targets_append, lookup_append_self hUnbound] at hTarget
      cases hTarget
      exact Nat.le_refl _
    · rw [targets_append, lookup_append_of_ne _ hOther] at hTarget
      exact h.inside other target hTarget

/-- An encoded instruction adds what its step adds to the survey: a jump its
opcode and a gap, any other one the bytes of its form. -/
theorem encode (h : survey.Describes a) {f : Function} {instruction : Instruction}
    (hStep : instruction.encode f a = .done () after) :
    (survey ++ ⟨(Action.encode f instruction).chunks a, []⟩).Describes after := by
  rcases (Instruction.encode_eq_done_iff _ _ _ _).mp hStep with
    ⟨condition, target, rfl, hJump⟩ | ⟨form, between, hFormed, hEmit⟩
  · exact h.emitJump hJump
  · rw [chunks_of_formedAs hFormed hEmit]
    obtain ⟨fixups, rfl⟩ := hFormed.after_eq
    obtain ⟨hBytes, hLabels, -⟩ := Form.emit_extends hEmit
    exact h.extend hBytes hLabels

/-- An instruction that is refused adds nothing, as the code is the same as
before it. -/
theorem refused (h : survey.Describes a) {f : Function} {instruction : Instruction}
    {reason : Refusal} (hStep : instruction.encode f a = .refused reason a) :
    (survey ++ ⟨(Action.encode f instruction).chunks a, []⟩).Describes a := by
  have hChunks : (Action.encode f instruction).chunks a = [.bytes []] := by
    have hWritten : Action.instructionBytes f instruction a = [] := by
      rw [Action.instructionBytes, hStep]
    rw [← hWritten]
    cases instruction with
    | jcc condition target =>
        have hNever := Assembly.NeverRefused.modifyFaulty fun a => a.emitJump condition target
        obtain ⟨left, hLeft, -⟩ := (Assembly.orRollback_eq_refused_iff _ _ _ _).mp hStep
        exact absurd hLeft (hNever _ _ _)
    | mov type dest src => rfl
    | lea dest src => rfl
    | setcc condition dest => rfl
    | cmpps predicate dest src => rfl
  rw [hChunks]
  exact h.extend (List.append_nil _).symm rfl

end Describes

def ofAction (action : Action) (a : Assembler) : Survey :=
  ⟨action.chunks a, action.boundLabel?.toList.map fun label => (label, a.position)⟩

/-- Every step adds to the code what it adds to the survey. This is the
invariant for one step, with a case for each kind of step. -/
theorem Describes.apply {survey : Survey} {a after : Assembler} {action : Action}
    (h : survey.Describes a) (hApply : action.apply a = .ok after) :
    (survey ++ ofAction action a).Describes after := by
  cases (Action.apply_eq_ok_iff _ _ _).mp hApply with
  | emit bytes => exact h.extend rfl rfl
  | emitRex rex => exact h.extend rfl rfl
  | emitAddress hStep =>
      obtain ⟨hBytes, hLabels, -⟩ := Assembler.emitAddress_extends hStep
      exact h.extend hBytes hLabels
  | newLabel => exact @Describes.keep survey a a.newLabel.2 h rfl a.labelState_newLabel
  | bind hStep => exact h.bind hStep
  | emitDistance hStep => exact h.emitDistance hStep
  | emitJump hStep => exact h.emitJump hStep
  | createFixup target =>
      exact @Describes.keep survey a (a.createFixup .signed32 target).2 h rfl fun _ => rfl
  | translate hStep =>
      obtain ⟨_, _, _, rfl⟩ := (MemoryOperand.toAddress_eq_done_iff _ _ _ _ _).mp hStep
      exact h.keep rfl fun _ => rfl
  | encode hStep => exact h.encode hStep
  | refused hStep => exact h.refused hStep

/-- Along a run the survey of the steps describes the code that grows. A
refused step goes by like one that adds nothing. -/
theorem Describes.applyAll {survey : Survey} {a final : Assembler} {actions : List Action}
    (h : survey.Describes a) (hRun : Action.applyAll actions a = .ok final) :
    (survey ++ ofActions actions a).Describes final := by
  induction actions generalizing survey a with
  | nil =>
      cases hRun
      rw [ofActions, append_nil]
      exact h
  | cons action rest ih =>
      obtain ⟨after, hStep, hRest⟩ := (Action.applyAll_cons_eq_ok_iff _ _ _ _).mp hRun
      have hFinal := ih (h.apply hStep) hRest
      rw [append_assoc] at hFinal
      rw [ofActions, hStep]
      exact hFinal

theorem describes_empty : (⟨[], []⟩ : Survey).Describes .empty :=
  ⟨rfl, fun _ => rfl, fun _ _ h => by cases h⟩

/-- The survey of the steps from the beginning describes the code, since it
begins with nothing known and no code. -/
theorem describes_ofActions {actions : List Action} {a : Assembler}
    (hRun : Action.applyAll actions .empty = .ok a) :
    (ofActions actions .empty).Describes a :=
  describes_empty.applyAll hRun

/-- The survey of a sequence goes on where the survey of its first part
stopped, because the first part ends without a fault. -/
theorem ofActions_append {first : List Action} {a between : Assembler}
    (hFirst : Action.applyAll first a = .ok between) (second : List Action) :
    ofActions (first ++ second) a = ofActions first a ++ ofActions second between := by
  induction first generalizing a with
  | nil =>
      cases hFirst
      rfl
  | cons action rest ih =>
      obtain ⟨after, hStep, hRest⟩ := (Action.applyAll_cons_eq_ok_iff _ _ _ _).mp hFirst
      rw [List.cons_append, ofActions, ofActions, hStep]
      change ofAction action a ++ ofActions (rest ++ second) after =
        ofAction action a ++ ofActions rest after ++ ofActions second between
      rw [ih hRest, append_assoc]

/-- Every target was the length of the code when a step bound its label.
Targets come from nowhere else. -/
theorem visits_of_mem_targets {actions : List Action} {a final : Assembler}
    (hRun : Action.applyAll actions a = .ok final) {label : Label} {target : Nat}
    (hTarget : (label, target) ∈ (ofActions actions a).targets) :
    ∃ before after, Action.Visits a actions before (.bind label) after ∧
      before.position = target := by
  induction actions generalizing a with
  | nil => cases hTarget
  | cons action rest ih =>
      obtain ⟨next, hStep, hRest⟩ := (Action.applyAll_cons_eq_ok_iff _ _ _ _).mp hRun
      rw [ofActions, hStep] at hTarget
      rcases List.mem_append.mp hTarget with hHere | hLater
      · have hBind : action = .bind label ∧ a.position = target := by
          cases action <;> simp [Action.boundLabel?] at hHere
          obtain ⟨rfl, rfl⟩ := hHere
          exact ⟨rfl, rfl⟩
        obtain ⟨rfl, hPosition⟩ := hBind
        exact ⟨a, next, .head rest hStep, hPosition⟩
      · obtain ⟨before, after, hVisits, hPosition⟩ := ih hRest hLater
        exact ⟨before, after, hVisits.cons hStep, hPosition⟩

/-- What is found out in a step is found in the survey, and the rest of the
steps adds to it without changing it. -/
theorem ofActions_of_visits {actions : List Action} {before after final : Assembler}
    {action : Action} (hRun : Action.applyAll actions .empty = .ok final)
    (hVisits : Action.Visits .empty actions before action after) :
    ∃ earlier later : Survey, earlier.Describes before ∧
      (earlier ++ ofAction action before).Describes after ∧
      ofActions actions .empty = earlier ++ ofAction action before ++ later := by
  obtain ⟨first, rest, rfl, hFirst, hAction, hRest⟩ := hVisits.split hRun
  have hEarlier := describes_ofActions hFirst
  refine ⟨ofActions first .empty, ofActions rest after, hEarlier, hEarlier.apply hAction, ?_⟩
  rw [ofActions_append hFirst, ofActions, hAction, append_assoc]
  rfl

/-- A label is among the targets exactly if a step bound it, at the length of
the code then. A second step could not have bound it again. -/
theorem lookup_targets_eq_some_iff {actions : List Action} {final : Assembler}
    (hRun : Action.applyAll actions .empty = .ok final) (label : Label) (target : Nat) :
    (ofActions actions .empty).targets.lookup label = some target ↔
      ∃ before after, Action.Visits .empty actions before (.bind label) after ∧
        before.position = target := by
  have hBound {before after : Assembler}
      (hVisits : Action.Visits .empty actions before (.bind label) after) :
      (ofActions actions .empty).targets.lookup label = some before.position := by
    obtain ⟨earlier, later, hEarlier, -, hAll⟩ := ofActions_of_visits hRun hVisits
    obtain ⟨_, _, -, -, hStep⟩ := hVisits
    cases (Action.apply_eq_ok_iff _ _ _).mp hStep with
    | bind hBind =>
        obtain ⟨fields, hFound, -, -⟩ := (Assembler.bind_eq_ok_iff _ _ _).mp hBind
        have hUnbound := ((state_eq_pending_iff _ _ _).mp ((hEarlier.labels label).symm.trans
          (Assembler.labelState_eq_of_getElem? hFound))).1
        rw [hAll, targets_append, targets_append, List.lookup_append]
        change ((earlier.targets ++ [(label, before.position)]).lookup label).or _ = _
        rw [lookup_append_self hUnbound]
        rfl
  constructor
  · intro hLookup
    obtain ⟨before, after, hMem, -⟩ := List.lookup_eq_some_iff.mp hLookup
    exact visits_of_mem_targets hRun (by simp [hMem])
  · rintro ⟨before, after, hVisits, rfl⟩
    exact hBound hVisits

/-- A gap that a step adds is a gap of the whole, at the position that it had
in the step. -/
theorem mem_gaps_of_visits {actions : List Action} {before after final : Assembler}
    {action : Action} {label : Label} {field : Nat}
    (hRun : Action.applyAll actions .empty = .ok final)
    (hVisits : Action.Visits .empty actions before action after)
    (hField : field ∈ gaps label before.position (action.chunks before)) :
    field ∈ gaps label 0 (ofActions actions .empty).chunks := by
  obtain ⟨earlier, later, hBefore, -, hSurvey⟩ := ofActions_of_visits hRun hVisits
  rw [hBefore.position] at hField
  rw [hSurvey, chunks_append, chunks_append, gaps_append, gaps_append, Nat.zero_add]
  exact List.mem_append_left _ (List.mem_append_right _ hField)

/-- In finished code every gap has a target, which is not beyond the end of the
code. A gap without one would have kept the code from being finished. -/
theorem target_of_mem_gaps {actions : List Action} {a : Assembler} {code : AssembledCode}
    (hRun : Action.applyAll actions .empty = .ok a) (hFinish : a.finish = .ok code)
    {label : Label} {field : Nat}
    (hField : field ∈ gaps label 0 (ofActions actions .empty).chunks) :
    ∃ target, (ofActions actions .empty).targets.lookup label = some target ∧
      target ≤ a.position := by
  have hAll := describes_ofActions hRun
  cases hTarget : (ofActions actions .empty).targets.lookup label with
  | none =>
      have hPending := (hAll.labels label).trans
        ((state_eq_pending_iff _ _ _).mpr ⟨hTarget, rfl⟩)
      rw [Assembler.eq_nil_of_finish hFinish hPending] at hField
      cases hField
  | some target => exact ⟨target, rfl, hAll.inside label target hTarget⟩

/-- Finished bytes against the two passes over the steps that led to them. -/
structure Fulfilled (actions : List Action) (finished : List UInt8) : Prop where
  /-- The bytes are those that the second pass writes from beginning to end. -/
  bytes : finished = (ofActions actions .empty).code
  /-- What a step adds at the end of the code are its chunks, with what is
  known of labels then. -/
  emitted : ∀ before action after, Action.Visits .empty actions before action after →
    ∃ known, after.bytes.drop before.position =
      write known before.position (action.chunks before)
  /-- The target of a label is the length of the code when the label was
  bound. -/
  target : ∀ label target, (ofActions actions .empty).targets.lookup label = some target ↔
    ∃ before after, Action.Visits .empty actions before (.bind label) after ∧
      before.position = target
  /-- A distance that a step emits stands in the code where the step put it. -/
  gap : ∀ before action after label field,
    Action.Visits .empty actions before action after →
      field ∈ gaps label before.position (action.chunks before) →
        field ∈ gaps label 0 (ofActions actions .empty).chunks
  /-- A distance counts from the end of its four bytes, modulo their room. -/
  filled : ∀ label, ∀ field ∈ gaps label 0 (ofActions actions .empty).chunks,
    ∃ target : Nat, (ofActions actions .empty).targets.lookup label = some target ∧
      finished.drop field =
        LittleEndian.bytes 4 (((target : Int) - (field + 4)) % 4294967296).toNat ++
          finished.drop (field + 4)
  /-- A distance is exact in code that is not longer than its room. -/
  unwrapped : finished.length < 2147483648 →
    ∀ label, ∀ field ∈ gaps label 0 (ofActions actions .empty).chunks,
      ∃ (target : Nat) (distance : Int32),
        (ofActions actions .empty).targets.lookup label = some target ∧
          LittleEndian.readWord (finished.drop field) =
            some (distance, finished.drop (field + 4)) ∧
          distance.toInt = target - (field + 4)
  /-- A byte that belongs to no distance is the one that was first emitted. -/
  untouched : ∀ before action after (index : Nat),
    Action.Visits .empty actions before action after → index < after.position →
      (∀ label, ∀ field ∈ gaps label 0 (ofActions actions .empty).chunks,
        index < field ∨ field + 4 ≤ index) →
      finished[index]? = after.bytes[index]?

/-- Patching while the code grows gives what two passes give, whatever the
steps are and in whatever order they come. -/
theorem fulfilled_of_finish {actions : List Action} {a : Assembler} {code : AssembledCode}
    (hRun : Action.applyAll actions .empty = .ok a) (hFinish : a.finish = .ok code) :
    Fulfilled actions code.bytes := by
  have hAll := describes_ofActions hRun
  have hCode : code.bytes = (ofActions actions .empty).code := by
    obtain ⟨-, -, rfl⟩ := (Assembler.finish_eq_ok_iff _ _).mp hFinish
    exact hAll.bytes
  have hLookup : ∀ label, ∀ field ∈ gaps label 0 (ofActions actions .empty).chunks,
      ∃ target, (ofActions actions .empty).targets.lookup label = some target ∧
        code.bytes.drop field = LittleEndian.word (Assembler.distance target field) ++
          code.bytes.drop (field + 4) := by
    intro label field hField
    obtain ⟨target, hTarget, -⟩ := target_of_mem_gaps hRun hFinish hField
    have hDrop := drop_write_of_mem_gaps (ofActions actions .empty).targets hField
    rw [filling, hTarget] at hDrop
    rw [hCode]
    exact ⟨target, hTarget, hDrop⟩
  refine ⟨hCode, ?_, lookup_targets_eq_some_iff hRun, ?_, ?_, ?_, ?_⟩
  · intro before action after hVisits
    obtain ⟨earlier, later, hBefore, hAfter, -⟩ := ofActions_of_visits hRun hVisits
    refine ⟨(earlier ++ ofAction action before).targets, ?_⟩
    rw [hAfter.bytes, Survey.code, chunks_append, write_append, Nat.zero_add, hBefore.position,
      List.drop_left' (length_write _ _ _)]
    rfl
  · intro before action after label field hVisits hField
    exact mem_gaps_of_visits hRun hVisits hField
  · intro label field hField
    obtain ⟨target, hTarget, hBytes⟩ := hLookup label field hField
    rw [word_distance] at hBytes
    exact ⟨target, hTarget, hBytes⟩
  · intro hLength label field hField
    obtain ⟨target, hTarget, hBytes⟩ := hLookup label field hField
    refine ⟨target, Assembler.distance target field, hTarget, ?_, ?_⟩
    · rw [hBytes]
      exact LittleEndian.readWord_word _ _
    · have hWidth : code.bytes.length = width (ofActions actions .empty).chunks := by
        rw [hCode, Survey.code, length_write]
      have hInside := hAll.inside label target hTarget
      have hBounds := (bounds_of_mem_gaps hField).2
      rw [hAll.position] at hInside
      exact toInt_distance (by omega) (by omega)
  -- Both codes are written from the same chunks, so that they can differ in gaps alone.
  · intro before action after index hVisits hIndex hOutside
    obtain ⟨earlier, later, -, hAfter, hSurvey⟩ := ofActions_of_visits hRun hVisits
    rw [hAfter.position] at hIndex
    rw [hCode, hAfter.bytes, Survey.code, Survey.code, hSurvey, chunks_append, write_append,
      List.getElem?_append_left (by rw [length_write]; exact hIndex)]
    apply getElem?_write_of_not_gap
    intro label field hField
    rw [Nat.zero_add]
    apply hOutside label
    rw [hSurvey, chunks_append, gaps_append]
    exact List.mem_append_left _ hField

/-- Two labels that are used before and after they are bound, with a refused
copy in between. -/
theorem fulfilled_of_finish_interleaved :
    let f : Function := .empty "f" .initial
    let copy : Instruction :=
      .mov .i32 (.memory (.ofParts .i32 none none (some (.relocatable ⟨"g", 0⟩)) .one))
        (.memory (.ofParts .i32 none none (some (.relocatable ⟨"h", 0⟩)) .one))
    let actions : List Action :=
      [.newLabel, .newLabel, .encode f (.jcc .ne ⟨0⟩), .emitDistance ⟨1⟩, .encode f copy,
        .emit [0x90], .bind ⟨0⟩, .emitJump .e ⟨0⟩, .bind ⟨1⟩]
    let bytes : List UInt8 := [0x0F, 0x85, 0x05, 0x00, 0x00, 0x00, 0x07, 0x00, 0x00, 0x00, 0x90,
      0x0F, 0x84, 0xFA, 0xFF, 0xFF, 0xFF]
    Action.applyAll actions .empty = .ok ⟨bytes, [], [.bound 11, .bound 17]⟩ ∧
      Assembler.finish ⟨bytes, [], [.bound 11, .bound 17]⟩ = .ok ⟨bytes, []⟩ ∧
      Fulfilled actions bytes := by
  intro f copy actions bytes
  have hRun : Action.applyAll actions .empty = .ok ⟨bytes, [], [.bound 11, .bound 17]⟩ := by rfl
  have hFinish : Assembler.finish ⟨bytes, [], [.bound 11, .bound 17]⟩ = .ok ⟨bytes, []⟩ := by rfl
  exact ⟨hRun, hFinish, fulfilled_of_finish hRun hFinish⟩

end Survey

end Amd64
