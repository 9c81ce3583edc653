import Amd64.Proofs.Instruction.Appending
import Amd64.Proofs.Instruction.Verdict

/-!
Which instructions have a machine form. Where no fault comes in between, an
instruction is encoded exactly if its operands are of the kinds that
`Instruction.Supported` lists, and otherwise the refusal blames its type
exactly if `Instruction.LacksType` says so: `Instruction.accepts_supported`.
-/

namespace Amd64

namespace Operand

variable {f : Function} {a after : Assembler} {operand : Operand} {place : Place}

/-- The operand is a stack slot, memory at an address or half of a slot. -/
inductive InMemory (f : Function) : Operand → Prop where
  | slot {id : VariableId} {found : Variable} (hFound : f.lookup id = .ok found)
      (hStored : found.rematerializable = false) (hRegister : found.register = none) :
      InMemory f (.var id)
  | memory (operand : MemoryOperand) : InMemory f (.memory operand)
  | half (part : SlotHalf) : InMemory f (.half part)

/-- The operand is a variable in this register, and not rematerializable. -/
inductive InRegister (f : Function) (register : Register) : Operand → Prop where
  | var {id : VariableId} {found : Variable} (hFound : f.lookup id = .ok found)
      (hStored : found.rematerializable = false) (hRegister : found.register = some register) :
      InRegister f register (.var id)

/-- Values of this type can be copied between operands of these kinds. -/
structure Copyable (f : Function) (type : ValueType) (dest src : Operand) : Prop where
  value : type ≠ .void
  destination : ∀ value, dest ≠ .constant (.integer value)
  memory : ¬ (dest.InMemory f ∧ src.InMemory f)
  registers : ∀ register, dest.InRegister f register ∨ src.InRegister f register →
    register.isGeneral = !type.isXmm
  source : type.isXmm = true → ∀ value, src ≠ .constant value

/-- An operand that has a place is in memory exactly if its place is an
address. What is refused is stated about operands and decided on places, and
this and the next lemmas lead from one to the other. -/
theorem LocatedAt.inMemory_iff (h : operand.LocatedAt f a place after) :
    operand.InMemory f ↔ ∃ address, place = .memory address := by
  cases h with
  | register hFound _ hRegister =>
      refine iff_of_false ?_ nofun
      rintro ⟨hAgain, -, hNone⟩
      cases hFound.symm.trans hAgain
      cases hRegister.symm.trans hNone
  | slot hFound hStored hAddress =>
      have hNone := Function.register_eq_none_of_stackAddress hFound hAddress
      exact iff_of_true (.slot hFound hStored hNone) ⟨_, rfl⟩
  | immediate => exact iff_of_false nofun nofun
  | memory => exact iff_of_true (.memory _) ⟨_, rfl⟩
  | half => exact iff_of_true (.half _) ⟨_, rfl⟩

/-- A variable is in a register if that is its place. A rematerializable
variable has no place, although it has a register. -/
theorem LocatedAt.inRegister_iff (h : operand.LocatedAt f a place after) (register : Register) :
    operand.InRegister f register ↔ place = .register register := by
  cases h with
  | register hFound hStored hRegister =>
      constructor
      · rintro ⟨hAgain, -, hSome⟩
        cases hFound.symm.trans hAgain
        cases hRegister.symm.trans hSome
        rfl
      · rintro ⟨⟩
        exact .var hFound hStored hRegister
  | slot hFound _ hAddress =>
      have hNone := Function.register_eq_none_of_stackAddress hFound hAddress
      refine iff_of_false ?_ nofun
      rintro ⟨hAgain, -, hSome⟩
      cases hFound.symm.trans hAgain
      cases hNone.symm.trans hSome
  | immediate | memory | half => exact iff_of_false nofun nofun

/-- The only constants that have a place are numbers. -/
theorem LocatedAt.eq_integer_iff (h : operand.LocatedAt f a place after) (value : Int32) :
    operand = .constant (.integer value) ↔ place = .immediate value := by
  cases h <;> simp

theorem LocatedAt.exists_constant_iff (h : operand.LocatedAt f a place after) :
    (∃ value, operand = .constant value) ↔ ∃ value, place = .immediate value := by
  cases h <;> simp

/-- The kinds of two operands can be read off their places, so that a copy is
supported exactly if it has a form. -/
theorem copyable_iff {type : ValueType} {dest src : Operand} {d s : Place} {between : Assembler}
    (hDest : dest.LocatedAt f a d between) (hSrc : src.LocatedAt f between s after) :
    dest.Copyable f type src ↔ ∃ form, Form.move type d s = .ok form := by
  have hDestination : (∀ value, dest ≠ .constant (.integer value)) ↔
      ∀ value, d ≠ .immediate value :=
    forall_congr' fun value => not_congr (hDest.eq_integer_iff value)
  have hSource : (∀ value, src ≠ .constant value) ↔ ∀ value, s ≠ .immediate value := by
    simpa only [not_exists] using not_congr hSrc.exists_constant_iff
  have hRegister (register : Register) :
      dest.InRegister f register ∨ src.InRegister f register ↔
        d = .register register ∨ s = .register register :=
    or_congr (hDest.inRegister_iff register) (hSrc.inRegister_iff register)
  rw [Form.exists_move_iff]
  constructor
  · intro h
    refine ⟨h.value, ⟨hDestination.mp h.destination, ?_, fun register hPlace => ?_⟩,
      fun hXmm => hSource.mp (h.source hXmm)⟩
    · rw [← hDest.inMemory_iff, ← hSrc.inMemory_iff]
      exact h.memory
    · exact h.registers register ((hRegister register).mpr hPlace)
  · rintro ⟨hType, hPlaces, hImmediate⟩
    refine ⟨hType, hDestination.mpr hPlaces.destination, ?_, fun register hOperand => ?_,
      fun hXmm => hSource.mpr (hImmediate hXmm)⟩
    · rw [hDest.inMemory_iff, hSrc.inMemory_iff]
      exact hPlaces.memory
    · exact hPlaces.registers register ((hRegister register).mp hOperand)

/-- The operand is in memory or in a register of one class. -/
def InMemoryOr (f : Function) (registers : Fin 16 → Register) (operand : Operand) : Prop :=
  operand.InMemory f ∨ ∃ number, operand.InRegister f (registers number)

/-- What a byte or a comparison asks of its operand can be read off the place,
too. -/
theorem LocatedAt.inMemoryOr_iff (h : operand.LocatedAt f a place after)
    (registers : Fin 16 → Register) :
    operand.InMemoryOr f registers ↔ ∃ other, Form.IsOther registers place other := by
  simp only [InMemoryOr, h.inMemory_iff, h.inRegister_iff]
  constructor
  · rintro (⟨address, rfl⟩ | ⟨number, rfl⟩)
    · exact ⟨_, .memory address⟩
    · exact ⟨_, .register number⟩
  · rintro ⟨_, hOther⟩
    cases hOther with
    | register number => exact .inr ⟨number, rfl⟩
    | memory address => exact .inl ⟨address, rfl⟩

/-- An operand that is in memory or in a register has a place. -/
theorem InMemoryOr.not_placeless {registers : Fin 16 → Register}
    (h : operand.InMemoryOr f registers) : ¬ operand.Placeless f := by
  intro hPlaceless
  cases hPlaceless with
  | rematerializable hFound hRematerializable =>
      rcases h with ⟨hAgain, hStored, -⟩ | ⟨_, hAgain, hStored, -⟩ <;>
        (cases hFound.symm.trans hAgain; cases hStored.symm.trans hRematerializable)
  | relocatable target => rcases h with hMemory | ⟨_, hRegister⟩ <;> contradiction

/-- Whatever follows the place of an operand, an operand that has none decides
first. It is then refused for itself and not for a type. -/
theorem locate_verdict {α : Type} {mnemonic : String} {next : Place → Assembly α}
    {supported : Prop} {lacks : ValueType → Prop}
    (h : (operand.locate f mnemonic >>= next).FaultFree a)
    (hNext : ∀ place after, operand.LocatedAt f a place after → (next place).FaultFree after →
      Verdict mnemonic supported lacks (next place after)) :
    Verdict mnemonic (¬ operand.Placeless f ∧ supported)
      (fun type => ¬ operand.Placeless f ∧ lacks type)
      ((operand.locate f mnemonic >>= next) a) := by
  obtain ⟨hFirst, hRest⟩ := h.of_bind
  have hLocate : Verdict mnemonic (¬ operand.Placeless f) (fun _ => False)
      (operand.locate f mnemonic a) := by
    cases hOutcome : operand.locate f mnemonic a with
    | done place after =>
        have hLocated := (locate_eq_done_iff _ _ _ _ _ _).mp hOutcome
        exact .accepted hLocated.not_placeless fun _ => id
    | refused reason after =>
        obtain ⟨hPlaceless, ⟨misuse, rfl⟩, -⟩ := placeless_of_locate hOutcome
        exact .unfit (fun hPlaced => hPlaced hPlaceless) fun _ => id
    | fault cause => exact absurd hOutcome (hFirst cause)
  have hBoth := hLocate.bind fun place after hDone =>
    hNext place after ((locate_eq_done_iff _ _ _ _ _ _).mp hDone) (hRest place after hDone)
  exact hBoth.congr Iff.rfl fun type => by simp

end Operand

namespace Instruction

variable {f : Function} {a : Assembler} {dest : VariableId} {found : Variable}

/-- What refusals call an instruction. -/
def refusalMnemonic : Instruction → String
  | mov .. => "mov"
  | lea .. => "lea"
  | jcc .. => "jcc"
  | setcc .. => "setcc"
  | cmpps .. => "cmpps"

/-- There is a machine form for the operands of the instruction. The address
that is computed may be any, and where an instruction jumps does not matter. -/
def Supported (f : Function) : Instruction → Prop
  | mov type dest src => ¬ dest.Placeless f ∧ ¬ src.Placeless f ∧ dest.Copyable f type src
  | lea dest _ => ∃ found, f.lookup dest = .ok found ∧
      (found.type = .i32 ∨ found.type = .i64) ∧ ∃ number, found.register = some (.general number)
  | jcc _ _ => True
  | setcc _ dest => dest.InMemoryOr f .general
  | cmpps _ dest src =>
      (∃ found, f.lookup dest = .ok found ∧ found.type = .v4f32 ∧
        ∃ number, found.register = some (.xmm number)) ∧ src.InMemoryOr f .xmm

/-- The instruction would need a machine form for this type, and there is none.
The operands of a copy are located before its type is looked at. -/
def LacksType (f : Function) : Instruction → ValueType → Prop
  | mov type dest src, lacked =>
      type = .void ∧ lacked = .void ∧ ¬ dest.Placeless f ∧ ¬ src.Placeless f
  | lea dest _, lacked => ∃ found, f.lookup dest = .ok found ∧ found.type = lacked ∧
      ¬ (found.type = .i32 ∨ found.type = .i64)
  | jcc _ _, _ => False
  | setcc _ _, _ => False
  | cmpps _ dest _, lacked => ∃ found, f.lookup dest = .ok found ∧ found.type = lacked ∧
      found.type ≠ .v4f32

/-- A destination that must be in a register of one class, which `require`
checks. A variable without a register and one in the other class are both
misused operands. -/
theorem destination_verdict (a : Assembler) {mnemonic : String} {registers : Fin 16 → Register}
    {require : Register → Except Refusal (Fin 16)} (hFound : f.lookup dest = .ok found)
    (hOk : ∀ register number, require register = .ok number ↔ register = registers number)
    (hError : ∀ register, BlamesOperands mnemonic (require register)) :
    Verdict mnemonic (∃ number, found.register = some (registers number)) (fun _ => False)
      ((destinationRegister f mnemonic dest >>= fun register =>
        Assembly.ofRefusable (require register)) a) := by
  cases hRegister : found.register with
  | none =>
      have hRefused : destinationRegister f mnemonic dest a =
          .refused (.invalidOperands mnemonic (.destinationWithoutRegister found.name)) a := by
        simp [destinationRegister, hFound, Assembly.ofFaulty, hRegister]
      rw [Assembly.bind_apply, hRefused]
      exact .unfit (by simp) fun _ => id
  | some register =>
      have hDone : destinationRegister f mnemonic dest a = .done register a :=
        (destinationRegister_eq_done_iff _ _ _ _ _ _).mpr ⟨⟨found, hFound, hRegister⟩, rfl⟩
      rw [Assembly.bind_apply, hDone]
      exact .ofRefusable (by simp [hOk]) (hError register)

/-- Addresses are computed as wide as a pointer or half as wide, and any other
type is refused by its name. -/
theorem addressWidth_eq_error {type : ValueType} (h : type ≠ .i32 ∧ type ≠ .i64) :
    addressWidth type = .error (.unsupportedType "lea" type) := by
  cases type <;> simp_all [addressWidth]

/-- The type of the destination is looked at before its register, so that it is
what is refused if both are wrong. -/
theorem addressTarget_verdict (h : (addressTarget f dest).FaultFree a) :
    Verdict "lea" (∃ found, f.lookup dest = .ok found ∧
        (found.type = .i32 ∨ found.type = .i64) ∧
          ∃ number, found.register = some (.general number))
      (fun lacked => ∃ found, f.lookup dest = .ok found ∧ found.type = lacked ∧
        ¬ (found.type = .i32 ∨ found.type = .i64)) (addressTarget f dest a) := by
  obtain ⟨found, hFound⟩ := (Assembly.FaultFree.ofFaulty_iff _).mp h.of_bind.1
  rw [addressTarget_eq, Assembly.ofFaulty_bind hFound]
  simp only [hFound, Except.ok.injEq, exists_eq_left']
  refine .of_typed (fun hType => ?_) fun hType => ?_
  · have hWidth : ∃ wide, addressWidth found.type = .ok wide := by
      rcases hType with hType | hType <;> rw [hType] <;> exact ⟨_, rfl⟩
    obtain ⟨wide, hWidth⟩ := hWidth
    rw [hWidth]
    change Verdict "lea" _ _ ((destinationRegister f "lea" dest >>= fun register =>
      Assembly.ofRefusable (requireGeneral "lea" register) >>= fun number =>
        pure (wide, number)) a)
    rw [← bind_assoc]
    have hRegister := destination_verdict a hFound (requireGeneral_eq_ok_iff "lea")
      (requireGeneral_blamesOperands "lea")
    exact hRegister.bind_done fun _ _ _ => ⟨_, _, rfl⟩
  · rw [addressWidth_eq_error (not_or.mp hType)]
    exact ⟨a, rfl⟩

/-- Of all types only one has lanes that can be compared. Again the type comes
before the register. -/
theorem comparisonTarget_verdict (h : (comparisonTarget f dest).FaultFree a) :
    Verdict "cmpps" (∃ found, f.lookup dest = .ok found ∧ found.type = .v4f32 ∧
        ∃ number, found.register = some (.xmm number))
      (fun lacked => ∃ found, f.lookup dest = .ok found ∧ found.type = lacked ∧
        found.type ≠ .v4f32) (comparisonTarget f dest a) := by
  obtain ⟨found, hFound⟩ := (Assembly.FaultFree.ofFaulty_iff _).mp h.of_bind.1
  rw [comparisonTarget, Assembly.ofFaulty_bind hFound]
  simp only [hFound, Except.ok.injEq, exists_eq_left']
  refine .of_typed (fun hType => ?_) fun hType => ?_
  · rw [if_pos hType]
    exact destination_verdict a hFound (requireXmm_eq_ok_iff "cmpps")
      (requireXmm_blamesOperands "cmpps")
  · rw [if_neg hType]
    exact ⟨a, rfl⟩

/-- Choosing the form of a copy between two places ends as the two operands and
the type demand. -/
theorem move_verdict {type : ValueType} {dest src : Operand} {d s : Place}
    {between after : Assembler} (hDest : dest.LocatedAt f a d between)
    (hSrc : src.LocatedAt f between s after) :
    Verdict "mov" (dest.Copyable f type src) (fun lacked => type = .void ∧ lacked = .void)
      (Assembly.ofRefusable (Form.move type d s) after) := by
  rw [Operand.copyable_iff hDest hSrc]
  by_cases hType : type = .void
  · subst hType
    exact .untyped nofun fun other => by simp
  · refine (Verdict.ofRefusable Iff.rfl (Form.move_blamesOperands hType d s)).congr Iff.rfl ?_
    simp [hType]

/-- Choosing the form of a byte that a condition sets. No type is lacking
here. -/
theorem setByte_verdict (condition : Condition) {dest : Operand} {d : Place} {after : Assembler}
    (hDest : dest.LocatedAt f a d after) :
    Verdict "setcc" (dest.InMemoryOr f .general) (fun _ => False)
      (Assembly.ofRefusable (Form.setByte condition d) after) := by
  refine .ofRefusable ?_ (Form.setByte_blamesOperands condition d)
  simp only [hDest.inMemoryOr_iff, Form.setByte_eq_ok_iff]
  rw [exists_comm]
  simp

theorem compareLanes_verdict (predicate : Predicate) (number : Fin 16) {src : Operand} {s : Place}
    {after : Assembler} (hSrc : src.LocatedAt f a s after) :
    Verdict "cmpps" (src.InMemoryOr f .xmm) (fun _ => False)
      (Assembly.ofRefusable (Form.compareLanes predicate number s) after) := by
  refine .ofRefusable ?_ (Form.compareLanes_blamesOperands predicate number s)
  simp only [hSrc.inMemoryOr_iff, Form.compareLanes_eq_ok_iff]
  rw [exists_comm]
  simp

/-- Finding the form of an instruction ends as its operands and its type
demand. The cases are those of the instruction. -/
theorem form?_verdict {instruction : Instruction} {find : Assembly Form}
    (hFind : instruction.form? f = some find) (h : find.FaultFree a) :
    Verdict instruction.refusalMnemonic (instruction.Supported f) (instruction.LacksType f)
      (find a) := by
  cases instruction with
  | mov type dest src =>
      cases hFind
      refine (dest.locate_verdict h fun d between hDest hRest =>
        src.locate_verdict hRest fun s after hSrc _ => move_verdict hDest hSrc).congr Iff.rfl ?_
      -- A copy looks at its type when both operands have been located.
      intro lacked
      constructor
      · rintro ⟨hDest, hSrc, hType, hLacked⟩
        exact ⟨hType, hLacked, hDest, hSrc⟩
      · rintro ⟨hType, hLacked, hDest, hSrc⟩
        exact ⟨hDest, hSrc, hType, hLacked⟩
  | lea dest src =>
      cases hFind
      refine (addressTarget_verdict h.of_bind.1).bind_done fun (wide, number) between hTarget => ?_
      obtain ⟨address, after, hAddress⟩ := (src.toAddress_neverRefused f).exists_done
        (h.of_bind.2 (wide, number) between hTarget).of_bind.1
      exact ⟨_, after, (Assembly.bind_eq_done_iff _ _ _ _ _).mpr
        ⟨address, after, hAddress, (Assembly.pure_eq_done_iff _ _ _ _).mpr ⟨rfl, rfl⟩⟩⟩
  | jcc condition target => cases hFind
  | setcc condition dest =>
      cases hFind
      refine (dest.locate_verdict h fun d after hDest _ => setByte_verdict condition hDest).congr
        ?_ (by simp [LacksType])
      exact and_iff_right_of_imp fun hOther => hOther.not_placeless
  | cmpps predicate dest src =>
      cases hFind
      refine ((comparisonTarget_verdict h.of_bind.1).bind fun number between hTarget =>
        src.locate_verdict (h.of_bind.2 number between hTarget) fun s after hSrc _ =>
          compareLanes_verdict predicate number hSrc).congr ?_ (by simp [LacksType])
      exact and_congr_right' (and_iff_right_of_imp fun hOther => hOther.not_placeless)

/-- Writing the form and rolling back change nothing about how an encoding
ends. -/
theorem encode_verdict {instruction : Instruction} (h : (instruction.encode f).FaultFree a) :
    Verdict instruction.refusalMnemonic (instruction.Supported f) (instruction.LacksType f)
      (instruction.encode f a) := by
  refine .orRollback ?_
  rw [encode, Assembly.FaultFree.orRollback_iff] at h
  cases hFind : instruction.form? f with
  | none =>
      obtain ⟨condition, target, rfl⟩ := (form?_eq_none_iff _ _).mp hFind
      obtain ⟨_, after, hDone⟩ := (Assembly.NeverRefused.modifyFaulty _).exists_done h
      rw [write, hDone]
      exact .accepted trivial fun _ => id
  | some find =>
      rw [write_eq_of_form? hFind] at h ⊢
      refine (form?_verdict hFind h.of_bind.1).bind_done fun form between hForm => ?_
      exact ⟨(), ((form?_eq_done_iff hFind _ _ _).mp hForm).emits.2⟩

/-- An instruction that is no fault is encoded exactly if it is supported. It
is refused for its type exactly if it lacks a form for that, and otherwise for
its operands. -/
theorem accepts_supported {instruction : Instruction}
    (h : ∀ cause, instruction.encode f a ≠ .fault cause) :
    ((∃ after, instruction.encode f a = .done () after) ↔ instruction.Supported f) ∧
    ∀ reason after, instruction.encode f a = .refused reason after →
      (∀ type, reason = .unsupportedType instruction.refusalMnemonic type ↔
        instruction.LacksType f type) ∧
      ((∀ type, ¬ instruction.LacksType f type) →
        ∃ misuse, reason = .invalidOperands instruction.refusalMnemonic misuse) := by
  have hVerdict := encode_verdict h
  refine ⟨?_, fun reason after hRefused => ?_⟩
  · rw [← hVerdict.done_iff]
    exact ⟨fun ⟨after, hDone⟩ => ⟨(), after, hDone⟩, fun ⟨_, after, hDone⟩ => ⟨after, hDone⟩⟩
  · rw [hRefused] at hVerdict
    exact ⟨hVerdict.unsupportedType_iff, hVerdict.exists_misuse⟩

/-- A copy of an integer into a register, and a copy of nothing between
registers of both classes, which is refused for its type before the registers
are looked at. -/
theorem accepts_supported_copy :
    let f : Function := ⟨"f", .initial, #[⟨"d", .i64, some (.general ⟨0, by decide⟩), 0, false⟩,
      ⟨"x", .v4f32, some (.xmm ⟨1, by decide⟩), 0, false⟩]⟩
    let copy : Instruction := .mov .i64 (.var ⟨0⟩) (.constant (.integer 7))
    let nothing : Instruction := .mov .void (.var ⟨0⟩) (.var ⟨1⟩)
    (∀ cause, copy.encode f .empty ≠ .fault cause) ∧ copy.Supported f ∧
      (∀ cause, nothing.encode f .empty ≠ .fault cause) ∧ nothing.LacksType f .void ∧
      ¬ nothing.Supported f := by
  intro f copy nothing
  have hCopy (cause : Fault) : copy.encode f .empty ≠ .fault cause := nofun
  have hNothing (cause : Fault) : nothing.encode f .empty ≠ .fault cause := nofun
  have hRefused : nothing.encode f .empty = .refused (.unsupportedType "mov" .void) .empty := rfl
  refine ⟨hCopy, (accepts_supported hCopy).1.mp ⟨_, rfl⟩, hNothing, ?_, fun hSupported => ?_⟩
  · exact (((accepts_supported hNothing).2 _ _ hRefused).1 .void).mp rfl
  · obtain ⟨after, hDone⟩ := (accepts_supported hNothing).1.mpr hSupported
    cases hRefused.symm.trans hDone

end Instruction

end Amd64
