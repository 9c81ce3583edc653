import Amd64.Instruction.Encoding
import Amd64.Proofs.Assembler.Emission
import Amd64.Proofs.Operand.Translation

/-!
What encoding an instruction does to the code. `Instruction.FormedAs` gives the
machine form that an instruction has in a function, and
`Instruction.encode_eq_done_iff` says that encoding writes this form and
nothing else. A refusal always comes before the first byte, so that a mark
taken at the start is enough to undo it: `Instruction.eq_of_encode_refused`.
-/

namespace Amd64

namespace Instruction

/-- The machine form of an instruction that is no jump, and the code with the
fixups that its operands request. -/
inductive FormedAs (f : Function) (a : Assembler) : Instruction → Form → Assembler → Prop where
  | mov {type : ValueType} {dest src : Operand} {d s : Place} {between after : Assembler}
      {form : Form} (hDest : dest.LocatedAt f a d between)
      (hSrc : src.LocatedAt f between s after) (hForm : Form.move type d s = .ok form) :
      FormedAs f a (.mov type dest src) form after
  | lea {dest : VariableId} {src : MemoryOperand} {found : Variable} {number : Fin 16}
      {wide : Bool} {address : Address} {after : Assembler} (hFound : f.lookup dest = .ok found)
      (hType : found.type = if wide then .i64 else .i32)
      (hRegister : found.register = some (.general number))
      (hAddress : src.toAddress f a = .done address after) :
      FormedAs f a (.lea dest src) (Form.loadAddress wide number address) after
  | setcc {condition : Condition} {dest : Operand} {d : Place} {after : Assembler} {form : Form}
      (hDest : dest.LocatedAt f a d after) (hForm : Form.setByte condition d = .ok form) :
      FormedAs f a (.setcc condition dest) form after
  | cmpps {predicate : Predicate} {dest : VariableId} {src : Operand} {found : Variable}
      {number : Fin 16} {s : Place} {after : Assembler} {form : Form}
      (hFound : f.lookup dest = .ok found) (hType : found.type = .v4f32)
      (hRegister : found.register = some (.xmm number)) (hSrc : src.LocatedAt f a s after)
      (hForm : Form.compareLanes predicate number s = .ok form) :
      FormedAs f a (.cmpps predicate dest src) form after

/-- The destination of an instruction that computes into a variable is the
register of that variable. -/
theorem destinationRegister_eq_done_iff (f : Function) (mnemonic : String) (dest : VariableId)
    (a after : Assembler) (register : Register) :
    destinationRegister f mnemonic dest a = .done register after ↔
      (∃ found, f.lookup dest = .ok found ∧ found.register = some register) ∧ after = a := by
  unfold destinationRegister
  simp only [Assembly.bind_eq_done_iff, Assembly.ofFaulty_eq_done_iff]
  constructor
  · rintro ⟨found, _, ⟨hFound, rfl⟩, hRegister⟩
    cases hSome : found.register with
    | none => simp [hSome] at hRegister
    | some other =>
        rw [hSome, Assembly.pure_eq_done_iff] at hRegister
        obtain ⟨rfl, rfl⟩ := hRegister
        exact ⟨⟨found, hFound, hSome⟩, rfl⟩
  · rintro ⟨⟨found, hFound, hSome⟩, rfl⟩
    refine ⟨found, after, ⟨hFound, rfl⟩, ?_⟩
    rw [hSome]
    rfl

/-- A class of registers is required by asking for the number in it. -/
theorem requireGeneral_eq_ok_iff (mnemonic : String) (register : Register) (number : Fin 16) :
    requireGeneral mnemonic register = .ok number ↔ register = .general number := by
  cases register <;> simp [requireGeneral]

theorem requireXmm_eq_ok_iff (mnemonic : String) (register : Register) (number : Fin 16) :
    requireXmm mnemonic register = .ok number ↔ register = .xmm number := by
  cases register <;> simp [requireXmm]

/-- The width of an address that is computed into a variable of this type. -/
def addressWidth : ValueType → Except Refusal Bool
  | .i32 => .ok false
  | .i64 => .ok true
  | type => .error (.unsupportedType "lea" type)

/-- Two types have a width for address computations, and the width tells them
apart. -/
theorem addressWidth_eq_ok_iff (type : ValueType) (wide : Bool) :
    addressWidth type = .ok wide ↔ type = if wide then .i64 else .i32 := by
  cases type <;> cases wide <;> simp [addressWidth]

/-- The type decides the width before the register is looked at. Written out
like this, the order of the checks can be followed by the lemma about
sequences. -/
theorem addressTarget_eq (f : Function) (dest : VariableId) :
    addressTarget f dest = do
      let found ← Assembly.ofFaulty (f.lookup dest)
      let wide ← Assembly.ofRefusable (addressWidth found.type)
      let register ← destinationRegister f "lea" dest
      let number ← Assembly.ofRefusable (requireGeneral "lea" register)
      return (wide, number) := by
  unfold addressTarget
  congr 1
  funext found
  cases found.type <;> rfl

/-- What an address is computed into is a variable of one of two types, in a
general-purpose register. Whether it is rematerializable is not asked. -/
theorem addressTarget_eq_done_iff (f : Function) (dest : VariableId) (a after : Assembler)
    (wide : Bool) (number : Fin 16) :
    addressTarget f dest a = .done (wide, number) after ↔
      (∃ found, f.lookup dest = .ok found ∧ (found.type = if wide then .i64 else .i32) ∧
        found.register = some (.general number)) ∧ after = a := by
  rw [addressTarget_eq]
  simp only [Assembly.bind_eq_done_iff, Assembly.ofFaulty_eq_done_iff, addressWidth_eq_ok_iff,
    destinationRegister_eq_done_iff, Assembly.ofRefusable_eq_done_iff, requireGeneral_eq_ok_iff,
    Assembly.pure_eq_done_iff, Prod.mk.injEq]
  constructor
  · rintro ⟨found, _, ⟨hFound, rfl⟩, _, _, ⟨hType, rfl⟩, _, _, ⟨⟨again, hAgain, hRegister⟩, rfl⟩,
      _, _, ⟨rfl, rfl⟩, ⟨rfl, rfl⟩, rfl⟩
    cases hFound.symm.trans hAgain
    exact ⟨⟨found, hFound, hType, hRegister⟩, rfl⟩
  · rintro ⟨⟨found, hFound, hType, hRegister⟩, rfl⟩
    exact ⟨found, after, ⟨hFound, rfl⟩, wide, after, ⟨hType, rfl⟩, _, after,
      ⟨⟨found, hFound, hRegister⟩, rfl⟩, number, after, ⟨rfl, rfl⟩, ⟨rfl, rfl⟩, rfl⟩

/-- What lanes are compared into is a variable of one type, in an XMM register.
Here, too, nothing is asked about rematerialization. -/
theorem comparisonTarget_eq_done_iff (f : Function) (dest : VariableId) (a after : Assembler)
    (number : Fin 16) :
    comparisonTarget f dest a = .done number after ↔
      (∃ found, f.lookup dest = .ok found ∧ found.type = .v4f32 ∧
        found.register = some (.xmm number)) ∧ after = a := by
  unfold comparisonTarget
  simp only [Assembly.bind_eq_done_iff, Assembly.ofFaulty_eq_done_iff]
  constructor
  · rintro ⟨found, _, ⟨hFound, rfl⟩, hRest⟩
    by_cases hType : found.type = .v4f32
    · simp only [hType, if_true, Assembly.bind_eq_done_iff, destinationRegister_eq_done_iff,
        Assembly.ofRefusable_eq_done_iff, requireXmm_eq_ok_iff] at hRest
      obtain ⟨_, _, ⟨⟨again, hAgain, hRegister⟩, rfl⟩, rfl, rfl⟩ := hRest
      cases hFound.symm.trans hAgain
      exact ⟨⟨found, hFound, hType, hRegister⟩, rfl⟩
    · simp [hType] at hRest
  · rintro ⟨⟨found, hFound, hType, hRegister⟩, rfl⟩
    refine ⟨found, after, ⟨hFound, rfl⟩, ?_⟩
    simp only [hType, if_true, Assembly.bind_eq_done_iff, destinationRegister_eq_done_iff,
      Assembly.ofRefusable_eq_done_iff, requireXmm_eq_ok_iff]
    exact ⟨_, after, ⟨⟨found, hFound, hRegister⟩, rfl⟩, rfl, rfl⟩

/-- The part of an instruction that finds its machine form. A jump has none,
because its distance depends on where it is written. -/
def form? (f : Function) : Instruction → Option (Assembly Form)
  | mov type dest src => some do
      let dest ← dest.locate f "mov"
      let src ← src.locate f "mov"
      Assembly.ofRefusable (Form.move type dest src)
  | lea dest src => some do
      let (wide, number) ← addressTarget f dest
      return Form.loadAddress wide number (← src.toAddress f)
  | jcc _ _ => none
  | setcc condition dest => some do
      let dest ← dest.locate f "setcc"
      Assembly.ofRefusable (Form.setByte condition dest)
  | cmpps predicate dest src => some do
      let number ← comparisonTarget f dest
      let src ← src.locate f "cmpps"
      Assembly.ofRefusable (Form.compareLanes predicate number src)

/-- All instructions but jumps are written by way of a form. -/
theorem form?_eq_none_iff (f : Function) (instruction : Instruction) :
    instruction.form? f = none ↔ ∃ condition target, instruction = .jcc condition target := by
  cases instruction <;> simp [form?]

/-- An instruction that is no jump is written by finding its form and writing
that. -/
theorem write_eq_of_form? {f : Function} {instruction : Instruction} {find : Assembly Form}
    (h : instruction.form? f = some find) : instruction.write f = find >>= Form.emit := by
  cases instruction with
  | jcc condition target => cases h
  | mov | lea | setcc | cmpps =>
      cases h
      simp only [write, bind_assoc, pure_bind]

/-- Finding the form of an instruction ends in a form exactly if one of the
rules for instructions gives it. The rules say where the operands are located
and in which order. -/
theorem form?_eq_done_iff {f : Function} {instruction : Instruction} {find : Assembly Form}
    (h : instruction.form? f = some find) (a between : Assembler) (form : Form) :
    find a = .done form between ↔ instruction.FormedAs f a form between := by
  constructor
  · intro hFind
    cases instruction with
    | mov type dest src =>
        cases h
        simp only [Assembly.bind_eq_done_iff, Operand.locate_eq_done_iff,
          Assembly.ofRefusable_eq_done_iff] at hFind
        obtain ⟨d, _, hDest, s, _, hSrc, hForm, rfl⟩ := hFind
        exact .mov hDest hSrc hForm
    | lea dest src =>
        cases h
        simp only [Assembly.bind_eq_done_iff, Assembly.pure_eq_done_iff] at hFind
        obtain ⟨⟨wide, number⟩, _, hTarget, address, _, hAddress, rfl, rfl⟩ := hFind
        obtain ⟨⟨found, hFound, hType, hRegister⟩, rfl⟩ :=
          (addressTarget_eq_done_iff _ _ _ _ _ _).mp hTarget
        exact .lea hFound hType hRegister hAddress
    | jcc condition target => cases h
    | setcc condition dest =>
        cases h
        simp only [Assembly.bind_eq_done_iff, Operand.locate_eq_done_iff,
          Assembly.ofRefusable_eq_done_iff] at hFind
        obtain ⟨d, _, hDest, hForm, rfl⟩ := hFind
        exact .setcc hDest hForm
    | cmpps predicate dest src =>
        cases h
        simp only [Assembly.bind_eq_done_iff, Operand.locate_eq_done_iff,
          comparisonTarget_eq_done_iff, Assembly.ofRefusable_eq_done_iff] at hFind
        obtain ⟨number, _, ⟨⟨found, hFound, hType, hRegister⟩, rfl⟩, s, _, hSrc, hForm, rfl⟩ :=
          hFind
        exact .cmpps hFound hType hRegister hSrc hForm
  · intro hFormed
    cases hFormed with
    | mov hDest hSrc hForm =>
        cases h
        simp only [Assembly.bind_eq_done_iff, Operand.locate_eq_done_iff,
          Assembly.ofRefusable_eq_done_iff]
        exact ⟨_, _, hDest, _, _, hSrc, hForm, rfl⟩
    | lea hFound hType hRegister hAddress =>
        cases h
        simp only [Assembly.bind_eq_done_iff, Assembly.pure_eq_done_iff]
        exact ⟨(_, _), a, (addressTarget_eq_done_iff _ _ _ _ _ _).mpr
          ⟨⟨_, hFound, hType, hRegister⟩, rfl⟩, _, between, hAddress, rfl, rfl⟩
    | setcc hDest hForm =>
        cases h
        simp only [Assembly.bind_eq_done_iff, Operand.locate_eq_done_iff,
          Assembly.ofRefusable_eq_done_iff]
        exact ⟨_, _, hDest, hForm, rfl⟩
    | cmpps hFound hType hRegister hSrc hForm =>
        cases h
        simp only [Assembly.bind_eq_done_iff, Operand.locate_eq_done_iff,
          comparisonTarget_eq_done_iff, Assembly.ofRefusable_eq_done_iff]
        exact ⟨_, a, ⟨⟨_, hFound, hType, hRegister⟩, rfl⟩, _, _, hSrc, hForm, rfl⟩

/-- Writing an instruction is writing its form, or its jump. There is no third
way, and no instruction has both. -/
theorem write_eq_done_iff (f : Function) (instruction : Instruction) (a after : Assembler) :
    instruction.write f a = .done () after ↔
      (∃ condition target, instruction = .jcc condition target ∧
        a.emitJump condition target = .ok after) ∨
        ∃ form between, instruction.FormedAs f a form between ∧
          form.emit between = .done () after := by
  cases hFind : instruction.form? f with
  | none =>
      obtain ⟨condition, target, rfl⟩ := (form?_eq_none_iff _ _).mp hFind
      rw [write, Assembly.modifyFaulty_eq_done_iff]
      constructor
      · intro h
        exact Or.inl ⟨condition, target, rfl, h⟩
      · rintro (⟨_, _, hSame, h⟩ | ⟨_, _, hFormed, -⟩)
        · cases hSame
          exact h
        · cases hFormed
  | some find =>
      rw [write_eq_of_form? hFind, Assembly.bind_eq_done_iff]
      simp only [form?_eq_done_iff hFind]
      constructor
      · exact Or.inr
      · rintro (⟨condition, target, rfl, -⟩ | h)
        · cases hFind
        · exact h

/-- Encoding succeeds exactly where writing does, with the same code. The two
differ only in what a refusal leaves behind. -/
theorem encode_eq_done_iff (f : Function) (instruction : Instruction) (a after : Assembler) :
    instruction.encode f a = .done () after ↔
      (∃ condition target, instruction = .jcc condition target ∧
        a.emitJump condition target = .ok after) ∨
        ∃ form between, instruction.FormedAs f a form between ∧
          form.emit between = .done () after :=
  (Assembly.orRollback_eq_done_iff _ _ _ _).trans (write_eq_done_iff f instruction a after)

/-- Finding the form of an instruction only adds fixups to the code. The bytes
come later, all at once. -/
theorem FormedAs.after_eq {f : Function} {instruction : Instruction} {form : Form}
    {a after : Assembler} (h : instruction.FormedAs f a form after) :
    ∃ fixups, after = a.withFixups fixups := by
  cases h with
  | mov hDest hSrc _ =>
      rw [hSrc.after_eq, hDest.after_eq]
      exact ⟨_, Assembler.withFixups_withFixups _ _ _⟩
  | lea _ _ _ hAddress =>
      obtain ⟨_, _, _, hAfter⟩ := (MemoryOperand.toAddress_eq_done_iff _ _ _ _ _).mp hAddress
      exact ⟨_, hAfter⟩
  | setcc hDest _ => exact ⟨_, hDest.after_eq⟩
  | cmpps _ _ _ hSrc _ => exact ⟨_, hSrc.after_eq⟩

/-- Looking at the destination leaves no trace in the code, whether it is
refused or not. -/
theorem destinationRegister_keepsCode (f : Function) (mnemonic : String) (dest : VariableId) :
    (destinationRegister f mnemonic dest).KeepsCode := by
  apply Assembly.KeepsCode.bind (.ofFaulty _)
  intro found
  cases found.register with
  | some register => exact .pure _
  | none => exact .refuse _

theorem addressTarget_keepsCode (f : Function) (dest : VariableId) :
    (addressTarget f dest).KeepsCode := by
  rw [addressTarget_eq]
  apply Assembly.KeepsCode.bind (.ofFaulty _)
  intro found
  apply Assembly.KeepsCode.bind (.ofRefusable _)
  intro wide
  apply Assembly.KeepsCode.bind (destinationRegister_keepsCode f "lea" dest)
  intro register
  exact .bind (.ofRefusable _) fun _ => .pure _

theorem comparisonTarget_keepsCode (f : Function) (dest : VariableId) :
    (comparisonTarget f dest).KeepsCode := by
  apply Assembly.KeepsCode.bind (.ofFaulty _)
  intro found
  by_cases hType : found.type = .v4f32
  · rw [if_pos hType]
    exact .bind (destinationRegister_keepsCode f "cmpps" dest) fun _ => .ofRefusable _
  · rw [if_neg hType]
    exact .refuse _

/-- Choosing a form and writing it is refused before anything is written, since
writing is never refused. -/
theorem eq_of_form_refused {form : Except Refusal Form} {a after : Assembler} {reason : Refusal}
    (h : (Assembly.ofRefusable form >>= fun form => form.emit) a = .refused reason after) :
    after = a := by
  rcases (Assembly.bind_eq_refused_iff _ _ _ _ _).mp h with h | ⟨form, _, -, h⟩
  · exact ((Assembly.ofRefusable_eq_refused_iff _ _ _ _).mp h).2
  · exact absurd h (form.emit_neverRefused _ _ _)

/-- An instruction that is refused has written no byte; at most some fixups are
left, those of operands that were located before the refusal. -/
theorem write_refused {f : Function} {instruction : Instruction} {a after : Assembler}
    {reason : Refusal} (h : instruction.write f a = .refused reason after) :
    ∃ fixups, after = a.withFixups fixups := by
  cases instruction with
  | mov type dest src =>
      rw [write, Assembly.bind_eq_refused_iff] at h
      rcases h with h | ⟨d, between, hDest, h⟩
      · exact ⟨[], by simp [Operand.eq_of_locate_refused h]⟩
      · have hBetween := ((Operand.locate_eq_done_iff _ _ _ _ _ _).mp hDest).after_eq
        rw [Assembly.bind_eq_refused_iff] at h
        rcases h with h | ⟨s, located, hSrc, h⟩
        · exact ⟨_, (Operand.eq_of_locate_refused h).trans hBetween⟩
        · have hLocated := ((Operand.locate_eq_done_iff _ _ _ _ _ _).mp hSrc).after_eq
          refine ⟨dest.requested ++ src.requested, ?_⟩
          rw [eq_of_form_refused h, hLocated, hBetween, Assembler.withFixups_withFixups]
  | lea dest src =>
      rw [write, Assembly.bind_eq_refused_iff] at h
      rcases h with h | ⟨_, _, -, h⟩
      · exact ⟨[], by simp [(addressTarget_keepsCode f dest).refused h]⟩
      · exact absurd h (Assembly.NeverRefused.bind (src.toAddress_neverRefused f)
          (fun _ => Form.emit_neverRefused _) _ _ _)
  | jcc condition target =>
      rw [write] at h
      exact absurd h (Assembly.NeverRefused.modifyFaulty _ _ _ _)
  | setcc condition dest =>
      rw [write, Assembly.bind_eq_refused_iff] at h
      rcases h with h | ⟨d, between, hDest, h⟩
      · exact ⟨[], by simp [Operand.eq_of_locate_refused h]⟩
      · exact ⟨_, (eq_of_form_refused h).trans
          ((Operand.locate_eq_done_iff _ _ _ _ _ _).mp hDest).after_eq⟩
  | cmpps predicate dest src =>
      rw [write, Assembly.bind_eq_refused_iff] at h
      rcases h with h | ⟨number, between, hTarget, h⟩
      · exact ⟨[], by simp [(comparisonTarget_keepsCode f dest).refused h]⟩
      · rw [(comparisonTarget_keepsCode f dest).done hTarget, Assembly.bind_eq_refused_iff] at h
        rcases h with h | ⟨s, located, hSrc, h⟩
        · exact ⟨[], by simp [Operand.eq_of_locate_refused h]⟩
        · exact ⟨_, (eq_of_form_refused h).trans
            ((Operand.locate_eq_done_iff _ _ _ _ _ _).mp hSrc).after_eq⟩

/-- A refused instruction leaves the code as it was, fixups and labels
included. -/
theorem eq_of_encode_refused {f : Function} {instruction : Instruction} {a after : Assembler}
    {reason : Refusal} (h : instruction.encode f a = .refused reason after) : after = a := by
  obtain ⟨left, hLeft, rfl⟩ := (Assembly.orRollback_eq_refused_iff _ _ _ _).mp h
  obtain ⟨fixups, rfl⟩ := write_refused hLeft
  exact a.rollback_withFixups fixups

end Instruction

end Amd64
