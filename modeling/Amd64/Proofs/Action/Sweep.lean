import Amd64.Proofs.Action.Encodings
import Mathlib.Data.List.Forall2

/-!
Finished programs. When nothing but instructions is written, the instructions
follow each other without a gap, so that reading the code from its first byte
to its last gives exactly what was encoded. Every jump goes to where its label
was bound.
-/

namespace Amd64

/-- A step of a program: it makes a label, binds one or encodes an
instruction. -/
inductive Action.IsProgram : Action → Prop where
  | newLabel : IsProgram .newLabel
  | bind (label : Label) : IsProgram (.bind label)
  | encode (f : Function) (instruction : Instruction) : IsProgram (.encode f instruction)

namespace Encoding

/-- Instructions follow each other from one position to another. -/
def Contiguous : (position : Nat) → List Encoding → (stop : Nat) → Prop
  | position, [], stop => position = stop
  | position, encoding :: rest, stop =>
      encoding.start = position ∧ Contiguous encoding.stop rest stop

/-- The first of some instructions begins where they all begin. If there is
none, that is where they end. -/
theorem Contiguous.getD_head? {position stop : Nat} {encodings : List Encoding}
    (h : Contiguous position encodings stop) :
    (encodings.head?.map start).getD stop = position := by
  cases encodings with
  | nil => exact Eq.symm h
  | cons encoding rest => exact h.1

end Encoding

namespace MachineInstruction

/-- A sweep finds the instruction that is read first and goes on where it ends.
One count is spent on it, whatever its length. -/
theorem sweepFrom_of_read {bytes rest : List UInt8} {machine : MachineInstruction}
    (h : read bytes = some (machine, rest)) (position count : Nat) :
    sweepFrom position (count + 1) bytes =
      (sweepFrom (position + (bytes.length - rest.length)) count rest).map
        ((position, machine) :: ·) := by
  cases bytes with
  | nil => cases h
  | cons byte bytes =>
      simp only [sweepFrom, h, Option.bind_eq_bind, Option.bind_some]
      cases sweepFrom _ count rest <;> rfl

/-- Instructions that are read one by one, each up to where the next begins,
are what a sweep finds. The induction is on the chain of instructions, and the
count never runs out, because each of them has at least one byte. -/
theorem sweepFrom_of_contiguous {code : List UInt8} {encodings : List Encoding}
    {denotes : Encoding → MachineInstruction → Prop} {position count : Nat}
    (hContiguous : Encoding.Contiguous position encodings code.length)
    (hRead : ∀ encoding ∈ encodings, encoding.start < encoding.stop ∧
      encoding.stop ≤ code.length ∧ ∃ machine, denotes encoding machine ∧
        read (code.drop encoding.start) = some (machine, code.drop encoding.stop))
    (hCount : code.length ≤ position + count) :
    ∃ swept, sweepFrom position count (code.drop position) = some swept ∧
      List.Forall₂ (fun encoding found => found.1 = encoding.start ∧ denotes encoding found.2 ∧
        read (code.drop found.1) = some (found.2, code.drop encoding.stop)) encodings swept := by
  induction encodings generalizing position count with
  | nil =>
      cases hContiguous
      refine ⟨[], ?_, .nil⟩
      rw [List.drop_length]
      cases count <;> rfl
  | cons encoding rest ih =>
      obtain ⟨rfl, hRest⟩ := hContiguous
      obtain ⟨hStart, hStop, machine, hDenotes, hHere⟩ := hRead encoding (.head _)
      cases count with
      -- Every instruction has at least one byte, so the count does not run out before the code.
      | zero => omega
      | succ count =>
          have hLeft : code.length ≤ encoding.stop + count := by omega
          obtain ⟨following, hFollowing, hAll⟩ :=
            ih hRest (fun other hOther => hRead other (.tail _ hOther)) hLeft
          refine ⟨(encoding.start, machine) :: following, ?_, .cons ⟨rfl, hDenotes, hHere⟩ hAll⟩
          have hNext : encoding.start + ((code.drop encoding.start).length -
              (code.drop encoding.stop).length) = encoding.stop := by
            rw [List.length_drop, List.length_drop]
            omega
          rw [sweepFrom_of_read hHere, hNext, hFollowing]
          rfl

end MachineInstruction

namespace Action

/-- The label is bound where the code ends at this position, and there the next
instruction that is encoded begins, or the finished code ends. -/
def IsTarget (actions : List Action) (finished : List UInt8) (label : Label) (target : Nat) :
    Prop :=
  ∃ earlier later before after, actions = earlier ++ .bind label :: later ∧
    applyAll earlier .empty = .ok before ∧ (bind label).apply before = .ok after ∧
    before.position = target ∧
    ((encodings later after).head?.map Encoding.start).getD finished.length = target

/-- An instruction of a run against what a sweep over the finished code
finds. -/
structure IsSwept (actions : List Action) (finished : List UInt8) (encoding : Encoding)
    (found : Nat × MachineInstruction) : Prop where
  start : found.1 = encoding.start
  /-- The instruction that is found ends where the encoded one does. -/
  read : MachineInstruction.read (finished.drop found.1) =
    some (found.2, finished.drop encoding.stop)
  /-- It is what the encoded one stands for. -/
  denotes : ∃ distance, encoding.instruction.machine? encoding.f distance = some found.2
  /-- A jump has its condition and goes to the target of its label. -/
  jumps : ∀ condition label, encoding.instruction = .jcc condition label →
    ∃ (distance : Int32) (target : Nat), found.2 = .jump condition distance ∧
      encoding.stop + distance.toInt = target ∧ IsTarget actions finished label target

/-- The instructions of a program follow each other. A step of a program that
encodes nothing adds nothing to the code. -/
theorem contiguous_encodings {survey : Survey} {actions : List Action} {a final : Assembler}
    (h : survey.Describes a) (hRun : applyAll actions a = .ok final)
    (hProgram : ∀ action ∈ actions, action.IsProgram) :
    Encoding.Contiguous a.position (encodings actions a) final.position := by
  induction actions generalizing survey a with
  | nil =>
      cases hRun
      rfl
  | cons action rest ih =>
      obtain ⟨after, hStep, hRest⟩ := (applyAll_cons_eq_ok_iff _ _ _ _).mp hRun
      have hFollowing := ih (h.apply hStep) hRest fun other hOther =>
        hProgram other (.tail _ hOther)
      rw [encodings_cons _ hStep]
      rcases encoding?_cases hStep with ⟨encoding, hHere, rfl, rfl, -⟩ | ⟨hNone, hRefused⟩
      · rw [hHere]
        exact ⟨rfl, hFollowing⟩
      · have hPosition : after.position = a.position := by
          cases hProgram action (.head _) with
          | newLabel => exact h.position_apply hStep
          | bind label => exact h.position_apply hStep
          | encode f instruction => rw [hRefused f instruction rfl]
        rw [hNone, ← hPosition]
        exact hFollowing

/-- A position where a label was bound in a program is its target: the first
instruction that is encoded afterwards begins there, or the code ends there. -/
theorem isTarget_of_lookup {actions : List Action} {a : Assembler} {label : Label} {target : Nat}
    (hRun : applyAll actions .empty = .ok a) (hProgram : ∀ action ∈ actions, action.IsProgram)
    (hTarget : (Survey.ofActions actions .empty).targets.lookup label = some target) :
    IsTarget actions a.bytes label target := by
  obtain ⟨before, after, hVisits, hPosition⟩ :=
    (Survey.lookup_targets_eq_some_iff hRun label target).mp hTarget
  obtain ⟨earlier, later, hActions, hEarlier, hBind, hLater⟩ := hVisits.split hRun
  have hBefore := Survey.describes_ofActions hEarlier
  have hLaterProgram : ∀ action ∈ later, action.IsProgram := by
    intro action hAction
    apply hProgram
    rw [hActions]
    exact List.mem_append_right _ (.tail _ hAction)
  have hFollowing := contiguous_encodings (hBefore.apply hBind) hLater hLaterProgram
  have hSame : after.position = before.position := hBefore.position_apply hBind
  refine ⟨earlier, later, before, after, hActions, hEarlier, hBind, hPosition, ?_⟩
  rw [← hPosition, ← hSame]
  exact hFollowing.getD_head?

/-- In finished code a jump goes to the target of its label. The code is short
enough for every distance in it to be exact. -/
theorem jumps_of_finish {actions : List Action} {a : Assembler} {code : AssembledCode}
    (hRun : applyAll actions .empty = .ok a) (hProgram : ∀ action ∈ actions, action.IsProgram)
    (hFinish : a.finish = .ok code) (hLength : a.position < 2147483648) {encoding : Encoding}
    (hMem : encoding ∈ encodings actions .empty) {condition : Condition} {label : Label}
    (hJump : encoding.instruction = .jcc condition label) :
    ∃ target : Nat, encoding.stop +
        (encoding.distance (Survey.ofActions actions .empty).targets).toInt = target ∧
      IsTarget actions a.bytes label target := by
  obtain ⟨hVisits, hEncode⟩ := visits_of_mem_encodings hRun hMem
  obtain ⟨-, -, hStop⟩ := Survey.describes_empty.bounds_of_mem_encodings hRun hMem
  obtain ⟨f, instruction, before, after⟩ := encoding
  cases hJump
  obtain ⟨earlier, later, -, hEarlier, hApply, -⟩ := hVisits.split hRun
  have hEnd : after.position = before.position + 6 :=
    (Survey.describes_ofActions hEarlier).position_apply hApply
  have hGap : before.position + 2 ∈
      Survey.gaps label before.position ((encode f (.jcc condition label)).chunks before) := by
    simp [chunks, jumpChunks, Survey.gaps]
  obtain ⟨target, hTarget, hInside⟩ :=
    Survey.target_of_mem_gaps hRun hFinish (Survey.mem_gaps_of_visits hRun hVisits hGap)
  refine ⟨target, ?_, isTarget_of_lookup hRun hProgram hTarget⟩
  simp only [Encoding.stop, Encoding.start, Encoding.distance, Survey.filling, hTarget] at hStop ⊢
  rw [Survey.toInt_distance (by omega) (by omega)]
  omega

/-- Reading a finished program from its first byte to its last gives the
instructions that were encoded, in their order, and every jump goes to where
its label was bound. -/
theorem sweep_of_finish {actions : List Action} {a : Assembler} {code : AssembledCode}
    (hRun : applyAll actions .empty = .ok a) (hProgram : ∀ action ∈ actions, action.IsProgram)
    (hFinish : a.finish = .ok code) (hLength : code.bytes.length < 2147483648) :
    ∃ swept, MachineInstruction.sweep code.bytes = some swept ∧
      List.Forall₂ (IsSwept actions code.bytes) (encodings actions .empty) swept := by
  obtain ⟨-, -, rfl⟩ := (Assembler.finish_eq_ok_iff _ _).mp hFinish
  have hContiguous := contiguous_encodings Survey.describes_empty hRun hProgram
  have hRead : ∀ encoding ∈ encodings actions .empty, encoding.start < encoding.stop ∧
      encoding.stop ≤ a.bytes.length ∧ ∃ machine,
        (encoding.instruction.machine? encoding.f
          (encoding.distance (Survey.ofActions actions .empty).targets) = some machine ∧
            encoding ∈ encodings actions .empty) ∧
        MachineInstruction.read (a.bytes.drop encoding.start) =
          some (machine, a.bytes.drop encoding.stop) := by
    intro encoding hMem
    obtain ⟨-, hStart, hStop⟩ := Survey.describes_empty.bounds_of_mem_encodings hRun hMem
    obtain ⟨hVisits, hEncode⟩ := visits_of_mem_encodings hRun hMem
    obtain ⟨machine, hMachine, hHere⟩ :=
      Encoding.read_write (Survey.ofActions actions .empty).targets hEncode
    refine ⟨hStart, hStop, machine, ⟨hMachine, hMem⟩, ?_⟩
    have hDrop : a.bytes.drop encoding.start = _ := Survey.drop_of_visits hRun hVisits
    rw [hDrop]
    exact hHere _
  obtain ⟨swept, hSwept, hAll⟩ :=
    MachineInstruction.sweepFrom_of_contiguous hContiguous hRead (Nat.le_add_left _ _)
  refine ⟨swept, hSwept, hAll.imp fun encoding found hFound => ?_⟩
  obtain ⟨hStart, ⟨hMachine, hMem⟩, hHere⟩ := hFound
  refine ⟨hStart, hHere, ⟨_, hMachine⟩, ?_⟩
  intro condition label hJump
  obtain ⟨target, hDistance, hTarget⟩ := jumps_of_finish hRun hProgram hFinish hLength hMem hJump
  refine ⟨_, target, ?_, hDistance, hTarget⟩
  rw [hJump] at hMachine
  exact (Option.some.inj hMachine).symm

/-- A loop with a way out: one jump goes back, another goes on to two labels at
the end, and a copy that is refused stands between them. -/
theorem sweep_of_finish_loop :
    let f : Function := ⟨"f", .initial, #[⟨"x", .i32, some (.general ⟨0, by decide⟩), 0, false⟩]⟩
    let set : Instruction := .mov .i32 (.var ⟨0⟩) (.constant (.integer 7))
    let copy : Instruction :=
      .mov .i32 (.memory (.ofParts .i32 none none (some (.relocatable ⟨"g", 0⟩)) .one))
        (.memory (.ofParts .i32 none none (some (.relocatable ⟨"h", 0⟩)) .one))
    let actions : List Action :=
      [.newLabel, .newLabel, .newLabel, .bind ⟨0⟩, .encode f set, .encode f (.jcc .ne ⟨2⟩),
        .encode f copy, .encode f (.jcc .e ⟨0⟩), .bind ⟨1⟩, .bind ⟨2⟩]
    let bytes : List UInt8 := [0xC7, 0xC0, 0x07, 0x00, 0x00, 0x00, 0x0F, 0x85, 0x06, 0x00, 0x00,
      0x00, 0x0F, 0x84, 0xEE, 0xFF, 0xFF, 0xFF]
    applyAll actions .empty = .ok ⟨bytes, [], [.bound 0, .bound 18, .bound 18]⟩ ∧
      ∃ swept, MachineInstruction.sweep bytes = some swept ∧
        List.Forall₂ (IsSwept actions bytes) (encodings actions .empty) swept := by
  intro f set copy actions bytes
  have hRun : applyAll actions .empty = .ok ⟨bytes, [], [.bound 0, .bound 18, .bound 18]⟩ := by
    rfl
  have hProgram : ∀ action ∈ actions, action.IsProgram := by
    intro action hAction
    simp only [actions, List.mem_cons, List.not_mem_nil, or_false] at hAction
    rcases hAction with rfl | rfl | rfl | rfl | rfl | rfl | rfl | rfl | rfl | rfl
    all_goals constructor
  have hFinish : Assembler.finish ⟨bytes, [], [.bound 0, .bound 18, .bound 18]⟩ =
      .ok ⟨bytes, []⟩ := by rfl
  exact ⟨hRun, sweep_of_finish hRun hProgram hFinish (by decide)⟩

end Action

end Amd64
