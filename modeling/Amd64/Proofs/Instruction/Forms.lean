import Amd64.Instruction.Form

/-!
The machine forms that exist, one inductive rule for each pair of places.
Choosing a form is deciding whether a rule applies, as the equivalences say,
and where none does the operands are blamed or, for one type, the type.
-/

namespace Amd64

/-- Where there is no result, the operands of the instruction are blamed. -/
def BlamesOperands {α : Type} (mnemonic : String) (result : Except Refusal α) : Prop :=
  ∀ reason, result = .error reason → ∃ misuse, reason = .invalidOperands mnemonic misuse

/-- A register of the wrong class is a misuse of the operands, whatever the
instruction is. -/
theorem requireGeneral_blamesOperands (mnemonic : String) (register : Register) :
    BlamesOperands mnemonic (requireGeneral mnemonic register) := by
  intro reason h
  cases register <;> cases h
  exact ⟨_, rfl⟩

theorem requireXmm_blamesOperands (mnemonic : String) (register : Register) :
    BlamesOperands mnemonic (requireXmm mnemonic register) := by
  intro reason h
  cases register <;> cases h
  exact ⟨_, rfl⟩

namespace Form

/-- A copy of an integer, with the opcode for operands wider than a byte. -/
def integerCopy (access : Access) (opcode : UInt8) (force : Bool) (reg : Fin 16)
    (other : RegisterOrMemory) (trailing : List UInt8) : Form :=
  ⟨if access = .word then [0x66] else [], access = .quad, access = .byte && force,
    [if access = .byte then opcode - 1 else opcode], reg, other, trailing⟩

/-- A copy between XMM registers and memory. -/
def floatCopy (type : ValueType) (opcode : UInt8) (reg : Fin 16) (other : RegisterOrMemory) :
    Form :=
  ⟨floatSelector type, false, false, [0x0F, opcode], reg, other, []⟩

/-- A byte that a condition sets. -/
def conditionByte (condition : Condition) (force : Bool) (other : RegisterOrMemory) : Form :=
  ⟨[], false, force, [0x0F, UInt8.ofNat (0x90 + condition.code)], noRegister, other, []⟩

/-- A comparison of the lanes of a register. -/
def laneComparison (predicate : Predicate) (dest : Fin 16) (other : RegisterOrMemory) : Form :=
  ⟨[], false, false, [0x0F, 0xC2], dest, other, [UInt8.ofNat predicate.code]⟩

/-- The copies of integers. The register field holds the source of a store and
the destination of a load, and a copy between registers is a store. -/
inductive CopiesInteger (access : Access) : Place → Place → Form → Prop where
  | registers (d s : Fin 16) :
      CopiesInteger access (.register (.general d)) (.register (.general s))
        (integerCopy access 0x89 (lowByteNeedsRex d || lowByteNeedsRex s) s (.register d) [])
  | load (d : Fin 16) (address : Address) :
      CopiesInteger access (.register (.general d)) (.memory address)
        (integerCopy access 0x8B (lowByteNeedsRex d) d (.memory address) [])
  | store (address : Address) (s : Fin 16) :
      CopiesInteger access (.memory address) (.register (.general s))
        (integerCopy access 0x89 (lowByteNeedsRex s) s (.memory address) [])
  | setRegister (d : Fin 16) (value : Int32) :
      CopiesInteger access (.register (.general d)) (.immediate value)
        (integerCopy access 0xC7 (lowByteNeedsRex d) noRegister (.register d)
          (immediateBytes access value))
  | setMemory (address : Address) (value : Int32) :
      CopiesInteger access (.memory address) (.immediate value)
        (integerCopy access 0xC7 false noRegister (.memory address) (immediateBytes access value))

/-- The copies of floats and vectors. A copy between registers is a load. -/
inductive CopiesFloat (type : ValueType) : Place → Place → Form → Prop where
  | registers (d s : Fin 16) :
      CopiesFloat type (.register (.xmm d)) (.register (.xmm s))
        (floatCopy type 0x10 d (.register s))
  | load (d : Fin 16) (address : Address) :
      CopiesFloat type (.register (.xmm d)) (.memory address)
        (floatCopy type 0x10 d (.memory address))
  | store (address : Address) (s : Fin 16) :
      CopiesFloat type (.memory address) (.register (.xmm s))
        (floatCopy type 0x11 s (.memory address))

/-- The second operand that a place can be, where registers are of one
class. -/
inductive IsOther (registers : Fin 16 → Register) : Place → RegisterOrMemory → Prop where
  | register (number : Fin 16) : IsOther registers (.register (registers number)) (.register number)
  | memory (address : Address) : IsOther registers (.memory address) (.memory address)

/-- There is a form for a copy of an integer exactly where one of the five
rules applies, and the rule gives the form. -/
theorem moveInteger_eq_ok_iff (access : Access) (dest src : Place) (form : Form) :
    moveInteger access dest src = .ok form ↔ CopiesInteger access dest src form := by
  constructor
  · intro h
    cases dest with
    | register d =>
        cases d with
        | general d =>
            cases src with
            | register s =>
                cases s with
                | general s =>
                    cases h
                    exact .registers d s
                | xmm s => cases h
            | memory address =>
                cases h
                exact .load d address
            | immediate value =>
                cases h
                exact .setRegister d value
        | xmm d => cases src <;> cases h
    | memory address =>
        cases src with
        | register s =>
            cases s with
            | general s =>
                cases h
                exact .store address s
            | xmm s => cases h
        | memory other => cases h
        | immediate value =>
            cases h
            exact .setMemory address value
    | immediate value => cases src <;> cases h
  · intro h
    cases h <;> rfl

/-- The same for floats and vectors, which have three rules: they have no
immediates. -/
theorem moveXmm_eq_ok_iff (type : ValueType) (dest src : Place) (form : Form) :
    moveXmm type dest src = .ok form ↔ CopiesFloat type dest src form := by
  constructor
  · intro h
    cases dest with
    | register d =>
        cases d with
        | general d => cases src <;> cases h
        | xmm d =>
            cases src with
            | register s =>
                cases s with
                | general s => cases h
                | xmm s =>
                    cases h
                    exact .registers d s
            | memory address =>
                cases h
                exact .load d address
            | immediate value => cases h
    | memory address =>
        cases src with
        | register s =>
            cases s with
            | general s => cases h
            | xmm s =>
                cases h
                exact .store address s
        | memory other => cases h
        | immediate value => cases h
    | immediate value => cases src <;> cases h
  · intro h
    cases h <;> rfl

/-- The type decides between the two kinds of copies. For integers it also has
to have a width, which the type of nothing has not. -/
theorem move_eq_ok_iff (type : ValueType) (dest src : Place) (form : Form) :
    move type dest src = .ok form ↔
      (type.isXmm = true ∧ CopiesFloat type dest src form) ∨
        (type.isXmm = false ∧ ∃ access, integerAccess? type = some access ∧
          CopiesInteger access dest src form) := by
  unfold move
  cases hXmm : type.isXmm with
  | true => simp [moveXmm_eq_ok_iff]
  | false =>
      cases hAccess : integerAccess? type with
      | none => simp
      | some access => simp [moveInteger_eq_ok_iff]

/-- A condition sets a byte in a general-purpose register or in memory. The
register may need a prefix to name its low byte, and memory never does. -/
theorem setByte_eq_ok_iff (condition : Condition) (dest : Place) (form : Form) :
    setByte condition dest = .ok form ↔
      ∃ other, IsOther .general dest other ∧
        form = conditionByte condition
          (match other with
            | .register number => lowByteNeedsRex number
            | .memory _ => false) other := by
  constructor
  · intro h
    cases dest with
    | register d =>
        cases d with
        | general d =>
            cases h
            exact ⟨_, .register d, rfl⟩
        | xmm d => cases h
    | memory address =>
        cases h
        exact ⟨_, .memory address, rfl⟩
    | immediate value => cases h
  · rintro ⟨other, hOther, rfl⟩
    cases hOther <;> rfl

/-- A comparison of lanes has its destination in a register; only the source
may be in memory. -/
theorem compareLanes_eq_ok_iff (predicate : Predicate) (dest : Fin 16) (src : Place)
    (form : Form) :
    compareLanes predicate dest src = .ok form ↔
      ∃ other, IsOther .xmm src other ∧ form = laneComparison predicate dest other := by
  constructor
  · intro h
    cases src with
    | register s =>
        cases s with
        | general s => cases h
        | xmm s =>
            cases h
            exact ⟨_, .register s, rfl⟩
    | memory address =>
        cases h
        exact ⟨_, .memory address, rfl⟩
    | immediate value => cases h
  · rintro ⟨other, hOther, rfl⟩
    cases hOther <;> rfl

/-! Which places have a form, and what is blamed for it where they have none. -/

/-- Two places between which values of one kind of register can be copied, as
far as that does not depend on an immediate source. -/
structure Copyable (general : Bool) (dest src : Place) : Prop where
  destination : ∀ value, dest ≠ .immediate value
  memory : ¬ ((∃ address, dest = .memory address) ∧ ∃ address, src = .memory address)
  registers : ∀ register, dest = .register register ∨ src = .register register →
    register.isGeneral = general

/-- A rule for floats only applies to places that can be copied between, and to
no immediate. -/
theorem CopiesFloat.copyable {type : ValueType} {dest src : Place} {form : Form}
    (h : CopiesFloat type dest src form) :
    Copyable false dest src ∧ ∀ value, src ≠ .immediate value := by
  have hRegisters : ∀ register, dest = .register register ∨ src = .register register →
      register.isGeneral = false := by
    rintro register (hPlace | hPlace) <;> cases h <;> cases hPlace <;> rfl
  cases h <;> exact ⟨⟨nofun, by simp, hRegisters⟩, nofun⟩

theorem CopiesInteger.copyable {access : Access} {dest src : Place} {form : Form}
    (h : CopiesInteger access dest src form) : Copyable true dest src := by
  have hRegisters : ∀ register, dest = .register register ∨ src = .register register →
      register.isGeneral = true := by
    rintro register (hPlace | hPlace) <;> cases h <;> cases hPlace <;> rfl
  cases h <;> exact ⟨nofun, by simp, hRegisters⟩

/-- The rules for floats cover all places that can be copied between, but for
immediates. The other direction is that no rule is missing. -/
theorem exists_moveXmm_iff (type : ValueType) (dest src : Place) :
    (∃ form, moveXmm type dest src = .ok form) ↔
      Copyable false dest src ∧ ∀ value, src ≠ .immediate value := by
  simp only [moveXmm_eq_ok_iff]
  constructor
  · rintro ⟨form, h⟩
    exact h.copyable
  · rintro ⟨⟨hDest, hMemory, hRegisters⟩, hSrc⟩
    -- Three pairs of places break none of the rules.
    match dest, src with
    | .immediate value, _ => exact absurd rfl (hDest value)
    | _, .immediate value => exact absurd rfl (hSrc value)
    | .memory _, .memory _ => exact absurd ⟨⟨_, rfl⟩, _, rfl⟩ hMemory
    | .register (.general d), _ => cases hRegisters (.general d) (.inl rfl)
    | _, .register (.general s) => cases hRegisters (.general s) (.inr rfl)
    | .register (.xmm d), .register (.xmm s) => exact ⟨_, .registers d s⟩
    | .register (.xmm d), .memory address => exact ⟨_, .load d address⟩
    | .memory address, .register (.xmm s) => exact ⟨_, .store address s⟩

/-- The rules for integers cover all places that can be copied between: not two
in memory, and no register of the other class. -/
theorem exists_moveInteger_iff (access : Access) (dest src : Place) :
    (∃ form, moveInteger access dest src = .ok form) ↔ Copyable true dest src := by
  simp only [moveInteger_eq_ok_iff]
  constructor
  · rintro ⟨form, h⟩
    exact h.copyable
  · rintro ⟨hDest, hMemory, hRegisters⟩
    -- Five pairs of places break none of the rules.
    match dest, src with
    | .immediate value, _ => exact absurd rfl (hDest value)
    | .memory _, .memory _ => exact absurd ⟨⟨_, rfl⟩, _, rfl⟩ hMemory
    | .register (.xmm d), _ => cases hRegisters (.xmm d) (.inl rfl)
    | _, .register (.xmm s) => cases hRegisters (.xmm s) (.inr rfl)
    | .register (.general d), .register (.general s) => exact ⟨_, .registers d s⟩
    | .register (.general d), .memory address => exact ⟨_, .load d address⟩
    | .memory address, .register (.general s) => exact ⟨_, .store address s⟩
    | .register (.general d), .immediate value => exact ⟨_, .setRegister d value⟩
    | .memory address, .immediate value => exact ⟨_, .setMemory address value⟩

/-- Of the types whose values live in general-purpose registers only one has no
operand width. -/
theorem exists_integerAccess?_iff {type : ValueType} (h : type.isXmm = false) :
    (∃ access, integerAccess? type = some access) ↔ type ≠ .void := by
  cases type <;> first | exact absurd h (by decide) | simp [integerAccess?]

/-- A copy has a form if its type is a type of values and its places fit that
type. This is where the two kinds of copies are put together. -/
theorem exists_move_iff (type : ValueType) (dest src : Place) :
    (∃ form, move type dest src = .ok form) ↔
      type ≠ .void ∧ Copyable (!type.isXmm) dest src ∧
        (type.isXmm = true → ∀ value, src ≠ .immediate value) := by
  unfold move
  cases hXmm : type.isXmm with
  | true =>
      have hType : type ≠ .void := by
        rintro rfl
        cases hXmm
      simpa [hType] using exists_moveXmm_iff type dest src
  | false =>
      cases hAccess : integerAccess? type with
      | none =>
          have hVoid : type = .void := by
            by_cases hType : type = .void
            · exact hType
            · obtain ⟨access, hSome⟩ := (exists_integerAccess?_iff hXmm).mpr hType
              cases hAccess.symm.trans hSome
          simp [hVoid]
      | some access =>
          have hType := (exists_integerAccess?_iff hXmm).mp ⟨access, hAccess⟩
          simpa [hType] using exists_moveInteger_iff access dest src

/-- A copy of a float is refused for its operands only. Its type has been
looked at before, to choose this kind of copy. -/
theorem moveXmm_blamesOperands (type : ValueType) (dest src : Place) :
    BlamesOperands "mov" (moveXmm type dest src) := by
  intro reason h
  rcases dest with (d | d) | address | value <;>
    rcases src with (s | s) | other | immediate <;> cases h <;> exact ⟨_, rfl⟩

theorem moveInteger_blamesOperands (access : Access) (dest src : Place) :
    BlamesOperands "mov" (moveInteger access dest src) := by
  intro reason h
  rcases dest with (d | d) | address | value <;>
    rcases src with (s | s) | other | immediate <;> cases h <;> exact ⟨_, rfl⟩

/-- For the type of nothing this would be false: there the type is blamed,
whatever the operands are. -/
theorem move_blamesOperands {type : ValueType} (hType : type ≠ .void) (dest src : Place) :
    BlamesOperands "mov" (move type dest src) := by
  unfold move
  cases hXmm : type.isXmm with
  | true => exact moveXmm_blamesOperands type dest src
  | false =>
      obtain ⟨access, hAccess⟩ := (exists_integerAccess?_iff hXmm).mpr hType
      simp only [hAccess, Bool.false_eq_true, if_false]
      exact moveInteger_blamesOperands access dest src

/-- Setting a byte has no type that could be wrong, so that a refusal blames
the operands. -/
theorem setByte_blamesOperands (condition : Condition) (dest : Place) :
    BlamesOperands "setcc" (setByte condition dest) := by
  intro reason h
  rcases dest with (d | d) | address | value <;> cases h <;> exact ⟨_, rfl⟩

/-- The type of a comparison is that of its destination, which is checked
elsewhere. -/
theorem compareLanes_blamesOperands (predicate : Predicate) (dest : Fin 16) (src : Place) :
    BlamesOperands "cmpps" (compareLanes predicate dest src) := by
  intro reason h
  rcases src with (s | s) | address | value <;> cases h <;> exact ⟨_, rfl⟩

end Form

end Amd64
