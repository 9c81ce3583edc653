import Amd64.Operand.Place
import Amd64.Proofs.Assembler.Ending

/-!
What turning a memory operand into an address does to the code, and what it
depends on. The address itself is `MemoryOperand.resolve`, which never looks at
the code. All that the code contributes is the number of the next fixup, and
all that it receives is the fixup that the operand requests:
`MemoryOperand.toAddress_eq_done_iff` says both.
-/

namespace Amd64

namespace Assembler

/-- The code with more fixups at the end. -/
def withFixups (a : Assembler) (fixups : List Fixup) : Assembler :=
  { a with fixups := a.fixups ++ fixups }

def nextFixup (a : Assembler) : FixupRef :=
  ⟨UInt32.ofNat a.fixups.length⟩

@[simp] theorem fixups_withFixups (a : Assembler) (fixups : List Fixup) :
    (a.withFixups fixups).fixups = a.fixups ++ fixups := rfl

@[simp] theorem position_withFixups (a : Assembler) (fixups : List Fixup) :
    (a.withFixups fixups).position = a.position := rfl

@[simp] theorem withFixups_nil (a : Assembler) : a.withFixups [] = a := by
  simp [withFixups]

@[simp] theorem withFixups_withFixups (a : Assembler) (first second : List Fixup) :
    (a.withFixups first).withFixups second = a.withFixups (first ++ second) := by
  simp [withFixups]

/-- Fixups that came after a mark, without any byte, are gone. Translating an
operand adds nothing else. -/
theorem rollback_withFixups (a : Assembler) (fixups : List Fixup) :
    (a.withFixups fixups).rollback a.mark = a := by
  have h := rollback_of_append a [] fixups
  rwa [List.append_nil] at h

end Assembler

namespace MemoryOperand

/-- The symbol in the offset of an operand. -/
def symbol? (operand : MemoryOperand) : Option Relocatable :=
  match operand.offset with
  | some (.relocatable target) => some target
  | _ => none

/-- The fixup that an operand requests: one without a position for its symbol,
if it has one. -/
def requested (operand : MemoryOperand) : List Fixup :=
  operand.symbol?.toList.map fun target => ⟨.signed32, target.symbol, none⟩

/-- The fixup that the address of an operand carries, by its number in this
code. -/
def carried (operand : MemoryOperand) (a : Assembler) : Option FixupRef :=
  operand.symbol?.map fun _ => a.nextFixup

/-- The address of an operand without its fixup. It depends on the function
alone. -/
def resolve (f : Function) (operand : MemoryOperand) : Except Fault Address := do
  let displacement ← operand.baseDisplacement f
  operand.checkIndex f
  operand.addressWith f (displacement + operand.offsetValue) none

/-- A symbol requests one fixup and carries its number; an operand without a
symbol requests nothing. -/
theorem requestFixup_apply (operand : MemoryOperand) (a : Assembler) :
    operand.requestFixup a = .done (operand.carried a) (a.withFixups operand.requested) := by
  unfold requestFixup carried requested symbol?
  rcases operand.offset with _ | value | target
  · simp
  · simp
  · rfl

/-- An address is made of four parts, of which the fixup is only passed
through. The index must not be the stack pointer, and each register must be
there. -/
theorem addressWith_eq_ok_iff (f : Function) (operand : MemoryOperand) (displacement : Int32)
    (fixup : Option FixupRef) (address : Address) :
    operand.addressWith f displacement fixup = .ok address ↔
      ∃ base index, operand.baseNumber f = .ok base ∧ operand.scaledIndex f = .ok index ∧
        address = ⟨base, index, displacement, fixup⟩ ∧
        ∀ scaled ∈ index, scaled.register ≠ .rsp := by
  unfold addressWith
  simp only [Except.bind_eq_ok_iff, Address.make_eq_ok_iff]
  constructor
  · rintro ⟨base, hBase, index, hIndex, hAddress⟩
    exact ⟨base, index, hBase, hIndex, hAddress⟩
  · rintro ⟨base, index, hBase, hIndex, hAddress⟩
    exact ⟨base, hBase, index, hIndex, hAddress⟩

/-- What has to be right for an operand to have an address, in the order in
which it is looked at. The displacement is the sum of two parts, and wraps
around. -/
theorem resolve_eq_ok_iff (f : Function) (operand : MemoryOperand) (address : Address) :
    operand.resolve f = .ok address ↔
      ∃ displacement base index, operand.baseDisplacement f = .ok displacement ∧
        operand.checkIndex f = .ok () ∧ operand.baseNumber f = .ok base ∧
        operand.scaledIndex f = .ok index ∧
        address = ⟨base, index, displacement + operand.offsetValue, none⟩ ∧
        ∀ scaled ∈ index, scaled.register ≠ .rsp := by
  unfold resolve
  simp only [Except.bind_eq_ok_iff, addressWith_eq_ok_iff]
  constructor
  · rintro ⟨displacement, hDisplacement, _, hCheck, base, index, hRest⟩
    exact ⟨displacement, base, index, hDisplacement, hCheck, hRest⟩
  · rintro ⟨displacement, base, index, hDisplacement, hCheck, hRest⟩
    exact ⟨displacement, hDisplacement, (), hCheck, base, index, hRest⟩

/-- An operand becomes its resolved address with the next fixup, and the code
receives the fixup that the operand requests and nothing else. -/
theorem toAddress_eq_done_iff (f : Function) (operand : MemoryOperand) (a after : Assembler)
    (address : Address) :
    operand.toAddress f a = .done address after ↔
      ∃ resolved, operand.resolve f = .ok resolved ∧
        address = { resolved with fixup := operand.carried a } ∧
        after = a.withFixups operand.requested := by
  unfold toAddress
  simp only [Assembly.bind_eq_done_iff, Assembly.ofFaulty_eq_done_iff, requestFixup_apply,
    addressWith_eq_ok_iff, resolve_eq_ok_iff]
  constructor
  · rintro ⟨displacement, _, ⟨hDisplacement, rfl⟩, _, _, ⟨hCheck, rfl⟩, _, _, hRequest,
      ⟨base, index, hBase, hIndex, rfl, hRsp⟩, rfl⟩
    cases hRequest
    exact ⟨_, ⟨displacement, base, index, hDisplacement, hCheck, hBase, hIndex, rfl, hRsp⟩,
      rfl, rfl⟩
  · rintro ⟨_, ⟨displacement, base, index, hDisplacement, hCheck, hBase, hIndex, rfl, hRsp⟩,
      rfl, rfl⟩
    exact ⟨displacement, a, ⟨hDisplacement, rfl⟩, (), a, ⟨hCheck, rfl⟩, _, _, rfl,
      ⟨base, index, hBase, hIndex, rfl, hRsp⟩, rfl⟩

/-- A memory operand that has no address is a fault, never a refusal: the
allocator has broken its promise. -/
theorem toAddress_neverRefused (f : Function) (operand : MemoryOperand) :
    (operand.toAddress f).NeverRefused := by
  apply Assembly.NeverRefused.bind (.ofFaulty _)
  intro displacement
  apply Assembly.NeverRefused.bind (.ofFaulty _)
  intro _
  apply Assembly.NeverRefused.bind
  · intro a after reason
    simp [requestFixup_apply]
  · intro fixup
    exact .ofFaulty _

end MemoryOperand

/-- The operand is in memory, and this is its address in this code. A variable
counts if it has no register, whatever else is true of it. -/
inductive Operand.TranslatesTo (f : Function) (a : Assembler) :
    Operand → Address → Assembler → Prop where
  | slot {id : VariableId} {address : Address} (h : f.stackAddress id = .ok address) :
      TranslatesTo f a (.var id) address a
  | half {part : SlotHalf} {address : Address} (h : part.toAddress f = .ok address) :
      TranslatesTo f a (.half part) address a
  | memory {operand : MemoryOperand} {address : Address} {after : Assembler}
      (h : operand.toAddress f a = .done address after) :
      TranslatesTo f a (.memory operand) address after

/-- The operand is at this place in this code, and may be read or written
there. A rematerializable variable is at no place. -/
inductive Operand.LocatedAt (f : Function) (a : Assembler) :
    Operand → Place → Assembler → Prop where
  | register {id : VariableId} {found : Variable} {register : Register}
      (hFound : f.lookup id = .ok found) (hStored : found.rematerializable = false)
      (hRegister : found.register = some register) :
      LocatedAt f a (.var id) (.register register) a
  | slot {id : VariableId} {found : Variable} {address : Address}
      (hFound : f.lookup id = .ok found) (hStored : found.rematerializable = false)
      (hAddress : f.stackAddress id = .ok address) :
      LocatedAt f a (.var id) (.memory address) a
  | immediate (value : Int32) : LocatedAt f a (.constant (.integer value)) (.immediate value) a
  | memory {operand : MemoryOperand} {address : Address} {after : Assembler}
      (hAddress : operand.toAddress f a = .done address after) :
      LocatedAt f a (.memory operand) (.memory address) after
  | half {part : SlotHalf} {address : Address} (hAddress : part.toAddress f = .ok address) :
      LocatedAt f a (.half part) (.memory address) a

/-- The operand is no place to read or write: a rematerializable variable, or a
symbol in the place of an immediate. -/
inductive Operand.Placeless (f : Function) : Operand → Prop where
  | rematerializable {id : VariableId} {found : Variable} (hFound : f.lookup id = .ok found)
      (h : found.rematerializable = true) : Placeless f (.var id)
  | relocatable (target : Relocatable) : Placeless f (.constant (.relocatable target))

namespace Operand

/-- The fixups that an operand requests. Only memory operands request any. -/
def requested : Operand → List Fixup
  | memory operand => operand.requested
  | _ => []

/-- Locating an operand finds exactly the place that the operand has. The name
of the instruction has no influence on that; it only appears in refusals. -/
theorem locate_eq_done_iff (f : Function) (mnemonic : String) (operand : Operand)
    (a after : Assembler) (place : Place) :
    operand.locate f mnemonic a = .done place after ↔ operand.LocatedAt f a place after := by
  constructor
  · intro h
    cases operand with
    | var id =>
        obtain ⟨found, _, hLookup, hRest⟩ := (Assembly.bind_eq_done_iff _ _ _ _ _).mp h
        obtain ⟨hFound, rfl⟩ := (Assembly.ofFaulty_eq_done_iff _ _ _ _).mp hLookup
        cases hStored : found.rematerializable with
        | true => simp [hStored] at hRest
        | false =>
            cases hRegister : found.register with
            | some register =>
                simp only [hStored, hRegister, Bool.false_eq_true, if_false,
                  Assembly.pure_eq_done_iff] at hRest
                obtain ⟨rfl, rfl⟩ := hRest
                exact .register hFound hStored hRegister
            | none =>
                simp only [hStored, hRegister, Bool.false_eq_true, if_false,
                  Assembly.bind_eq_done_iff, Assembly.ofFaulty_eq_done_iff,
                  Assembly.pure_eq_done_iff] at hRest
                obtain ⟨address, _, ⟨hAddress, rfl⟩, rfl, rfl⟩ := hRest
                exact .slot hFound hStored hAddress
    | constant value =>
        cases value with
        | integer value =>
            obtain ⟨rfl, rfl⟩ := (Assembly.pure_eq_done_iff _ _ _ _).mp h
            exact .immediate value
        | relocatable target => simp [locate] at h
    | memory operand =>
        obtain ⟨address, _, hAddress, hPlace⟩ := (Assembly.bind_eq_done_iff _ _ _ _ _).mp h
        obtain ⟨rfl, rfl⟩ := (Assembly.pure_eq_done_iff _ _ _ _).mp hPlace
        exact .memory hAddress
    | half part =>
        obtain ⟨address, _, hTranslated, hPlace⟩ := (Assembly.bind_eq_done_iff _ _ _ _ _).mp h
        obtain ⟨hAddress, rfl⟩ := (Assembly.ofFaulty_eq_done_iff _ _ _ _).mp hTranslated
        obtain ⟨rfl, rfl⟩ := (Assembly.pure_eq_done_iff _ _ _ _).mp hPlace
        exact .half hAddress
  · intro h
    cases h with
    | register hFound hStored hRegister =>
        simp [locate, Assembly.ofFaulty, hFound, hStored, hRegister]
    | @slot id found address hFound hStored hAddress =>
        -- Only a variable without a register has an address on the stack.
        have hNone : found.register = none := by
          cases hRegister : found.register with
          | none => rfl
          | some register => simp [Function.stackAddress, hFound, hRegister] at hAddress
        simp only [locate, Assembly.bind_eq_done_iff, Assembly.ofFaulty_eq_done_iff]
        refine ⟨found, a, ⟨hFound, rfl⟩, ?_⟩
        simp only [hStored, hNone, Bool.false_eq_true, if_false, Assembly.bind_eq_done_iff,
          Assembly.ofFaulty_eq_done_iff, Assembly.pure_eq_done_iff]
        exact ⟨address, a, ⟨hAddress, rfl⟩, rfl, rfl⟩
    | immediate value => rfl
    | memory hAddress => simp [locate, hAddress]
    | half hAddress => simp [locate, Assembly.ofFaulty, hAddress]

/-- Only an operand that is no place is refused, and the code stays as it was.
The refusal names the instruction and says how the operand was misused. -/
theorem placeless_of_locate {f : Function} {mnemonic : String} {operand : Operand}
    {a after : Assembler} {reason : Refusal}
    (h : operand.locate f mnemonic a = .refused reason after) :
    operand.Placeless f ∧ (∃ misuse, reason = .invalidOperands mnemonic misuse) ∧ after = a := by
  cases operand with
  | var id =>
      rcases (Assembly.bind_eq_refused_iff _ _ _ _ _).mp h with h | ⟨found, _, hLookup, hRest⟩
      · exact absurd h (Assembly.NeverRefused.ofFaulty _ _ _ _)
      · obtain ⟨hFound, rfl⟩ := (Assembly.ofFaulty_eq_done_iff _ _ _ _).mp hLookup
        by_cases hStored : found.rematerializable
        · rw [if_pos hStored] at hRest
          cases hRest
          exact ⟨.rematerializable hFound hStored, ⟨_, rfl⟩, rfl⟩
        · rw [if_neg hStored] at hRest
          cases hRegister : found.register with
          | some register => simp [hRegister] at hRest
          | none =>
              rw [hRegister] at hRest
              exact absurd hRest
                (Assembly.NeverRefused.bind (.ofFaulty _) (fun _ => .pure _) _ _ _)
  | constant value =>
      cases value with
      | integer value => cases h
      | relocatable target =>
          cases h
          exact ⟨.relocatable target, ⟨_, rfl⟩, rfl⟩
  | memory operand =>
      exact absurd h
        (Assembly.NeverRefused.bind (operand.toAddress_neverRefused f) (fun _ => .pure _) _ _ _)
  | half part =>
      exact absurd h (Assembly.NeverRefused.bind (.ofFaulty _) (fun _ => .pure _) _ _ _)

theorem eq_of_locate_refused {f : Function} {mnemonic : String} {operand : Operand}
    {a after : Assembler} {reason : Refusal}
    (h : operand.locate f mnemonic a = .refused reason after) : after = a :=
  (placeless_of_locate h).2.2

variable {f : Function} {operand : Operand} {a after : Assembler}

/-- Having a place and having none exclude each other, so a refusal is never in
doubt. -/
theorem LocatedAt.not_placeless {place : Place} (h : operand.LocatedAt f a place after) :
    ¬ operand.Placeless f := by
  intro hPlaceless
  cases h with
  | register hFound hStored _ | slot hFound hStored _ =>
      cases hPlaceless with
      | rematerializable hAgain hRematerializable =>
          cases hFound.symm.trans hAgain
          cases hStored.symm.trans hRematerializable
  | immediate | memory | half => cases hPlaceless

/-- Of the code an operand in memory changes nothing but the list of fixups. -/
theorem TranslatesTo.after_eq {address : Address} (h : operand.TranslatesTo f a address after) :
    after = a.withFixups operand.requested := by
  cases h with
  | slot => simp [requested]
  | half => simp [requested]
  | memory h =>
      obtain ⟨_, _, _, hAfter⟩ := (MemoryOperand.toAddress_eq_done_iff _ _ _ _ _).mp h
      exact hAfter

/-- Locating an operand adds the fixups that it requests and changes nothing
else. A register or a constant requests none. -/
theorem LocatedAt.after_eq {place : Place} (h : operand.LocatedAt f a place after) :
    after = a.withFixups operand.requested := by
  cases h with
  | register => simp [requested]
  | slot => simp [requested]
  | immediate => simp [requested]
  | memory hAddress => exact TranslatesTo.after_eq (.memory hAddress)
  | half => simp [requested]

end Operand

end Amd64
