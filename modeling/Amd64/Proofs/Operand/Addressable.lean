import Amd64.Proofs.Operand.Value
import Mathlib.Tactic.ByContra

/-!
Which memory operands have an address. The base and the index are judged apart
from each other, each by its variable alone, and an operand that fails is a
fault whatever the code is: `MemoryOperand.toAddress_eq_fault_iff`.
-/

namespace Amd64

/-- The variables that exist are those below the number of variables. A lookup
asks nothing else of them. -/
theorem Function.exists_lookup_iff (f : Function) (id : VariableId) :
    (∃ found, f.lookup id = .ok found) ↔ id.number.toNat < f.locals.size := by
  unfold lookup
  cases hFound : f.locals[id.number.toNat]? with
  | none => simpa using hFound
  | some found => simpa using (Array.getElem?_eq_some_iff.mp hFound).1

namespace Variable

/-- The variable can be the base of an address. -/
structure FitsBase (var : Variable) : Prop where
  general : ∃ number, var.register = some (.general number)
  pointer : var.rematerializable = true → var.register = some .rbp ∨ var.register = some .rsp

/-- The variable can be the index of an address. -/
structure FitsIndex (var : Variable) : Prop where
  general : ∃ number, var.register = some (.general number)
  stored : var.rematerializable = false
  not_stackPointer : var.register ≠ some .rsp

/-- A rematerializable variable has a displacement in the frame pointer and in
the stack pointer, whichever of them slots are addressed from. -/
theorem exists_rematerialize_iff (frame : FrameConfig) {var : Variable}
    (h : var.rematerializable = true) :
    (∃ displacement, frame.layout.rematerialize var = .ok displacement) ↔
      var.register = some .rbp ∨ var.register = some .rsp := by
  have hFrame : frame.layout.framePointer = .rbp := rfl
  have hStack : frame.layout.stackPointer = .rsp := rfl
  simp only [FrameLayout.rematerialize, h, if_true, hFrame, hStack]
  split
  · simp [*]
  · split <;> simp [*]

/-- No register, or an XMM register, is what a register that is not
general-purpose means. Each of the two is a fault of its own. -/
theorem not_general_iff (var : Variable) :
    (¬ ∃ number, var.register = some (.general number)) ↔
      var.register = none ∨ ∃ number, var.register = some (.xmm number) := by
  rcases var.register with _ | number | number <;> simp

end Variable

/-- Of the general-purpose registers only the stack pointer has its number. -/
theorem Register.general_eq_rsp_iff (number : Fin 16) :
    general number = .rsp ↔ RegisterNumber.ofFin number = .rsp := by
  rw [RegisterNumber.ofFin_eq_rsp_iff, rsp, general.injEq, Fin.ext_iff]
  rfl

/-- A variable is found by its address number if it is in a general-purpose
register. Rematerializable variables are no exception. -/
theorem Function.exists_addressNumber_iff (f : Function) (id : VariableId) :
    (∃ register, f.addressNumber id = .ok register) ↔
      ∃ found, f.lookup id = .ok found ∧ ∃ number, found.register = some (.general number) := by
  simp only [addressNumber_eq_ok_iff]
  constructor
  · rintro ⟨_, found, number, hFound, hRegister, -⟩
    exact ⟨found, hFound, number, hRegister⟩
  · rintro ⟨found, hFound, number, hRegister⟩
    exact ⟨_, found, number, hFound, hRegister, rfl⟩

namespace MemoryOperand

variable {f : Function} {operand : MemoryOperand}

/-- The displacement of the base is there unless the base does not exist or is
rematerialized outside the two pointers. -/
theorem exists_baseDisplacement_iff :
    (∃ displacement, operand.baseDisplacement f = .ok displacement) ↔
      ∀ id ∈ operand.base, ∃ found, f.lookup id = .ok found ∧
        (found.rematerializable = true →
          found.register = some .rbp ∨ found.register = some .rsp) := by
  unfold baseDisplacement rematerializableBase
  cases operand.base with
  | none => simp
  | some id =>
      cases hFound : f.lookup id with
      | error cause => simp [hFound]
      | ok found =>
          cases hStored : found.rematerializable with
          | true => simpa [hFound, hStored] using found.exists_rematerialize_iff f.frame hStored
          | false => simp [hFound, hStored]

/-- The number of the base is there if the base is in a general-purpose
register, or if there is no base. -/
theorem exists_baseNumber_iff :
    (∃ base, operand.baseNumber f = .ok base) ↔
      ∀ id ∈ operand.base, ∃ found, f.lookup id = .ok found ∧
        ∃ number, found.register = some (.general number) := by
  unfold baseNumber
  cases operand.base with
  | none => simp
  | some id =>
      simp only [Option.mem_def, Option.some.injEq, forall_eq', ← f.exists_addressNumber_iff]
      cases f.addressNumber id <;> simp [Except.map]

/-- The base of an operand is fit exactly if both of what it is asked for is
there. One question is about its displacement and the other about its
register. -/
theorem exists_base_iff :
    ((∃ displacement, operand.baseDisplacement f = .ok displacement) ∧
      ∃ base, operand.baseNumber f = .ok base) ↔
        ∀ id ∈ operand.base, ∃ found, f.lookup id = .ok found ∧ found.FitsBase := by
  rw [exists_baseDisplacement_iff, exists_baseNumber_iff]
  constructor
  · rintro ⟨hDisplacement, hNumber⟩ id hId
    obtain ⟨found, hFound, hPointer⟩ := hDisplacement id hId
    obtain ⟨_, hAgain, hGeneral⟩ := hNumber id hId
    cases hFound.symm.trans hAgain
    exact ⟨found, hFound, hGeneral, hPointer⟩
  · intro hFits
    refine ⟨fun id hId => ?_, fun id hId => ?_⟩
    · obtain ⟨found, hFound, hFit⟩ := hFits id hId
      exact ⟨found, hFound, hFit.pointer⟩
    · obtain ⟨found, hFound, hFit⟩ := hFits id hId
      exact ⟨found, hFound, hFit.general⟩

/-- The index is fit exactly if no question about it ends in a fault: that it
is not rematerializable, that it is in a general-purpose register, and that
this is not the stack pointer. -/
theorem exists_index_iff :
    (operand.checkIndex f = .ok () ∧ ∃ index, operand.scaledIndex f = .ok index ∧
      ∀ scaled ∈ index, scaled.register ≠ .rsp) ↔
        ∀ id ∈ operand.index, ∃ found, f.lookup id = .ok found ∧ found.FitsIndex := by
  unfold checkIndex scaledIndex
  cases operand.index with
  | none => simp
  | some id =>
      simp only [Option.mem_def, Option.some.injEq, forall_eq', Except.map_eq_ok_iff,
        Function.addressNumber_eq_ok_iff]
      constructor
      · rintro ⟨hCheck, _, ⟨_, ⟨found, number, hFound, hRegister, rfl⟩, rfl⟩, hRsp⟩
        have hStored : found.rematerializable = false := by simpa [hFound] using hCheck
        refine ⟨found, hFound, ⟨number, hRegister⟩, hStored, fun hSame => ?_⟩
        rw [hRegister, Option.some.injEq, Register.general_eq_rsp_iff] at hSame
        exact hRsp _ rfl hSame
      · rintro ⟨found, hFound, ⟨number, hRegister⟩, hStored, hRsp⟩
        refine ⟨by simp [hFound, hStored], _, ⟨_, ⟨found, number, hFound, hRegister, rfl⟩, rfl⟩, ?_⟩
        rintro _ ⟨⟩ hSame
        rw [hRegister, ne_eq, Option.some.injEq, Register.general_eq_rsp_iff] at hRsp
        exact hRsp hSame

/-- An operand resolves to an address if its base and its index fit. The offset
and the scale are never in the way. -/
theorem exists_resolve_iff :
    (∃ address, operand.resolve f = .ok address) ↔
      (∀ id ∈ operand.base, ∃ found, f.lookup id = .ok found ∧ found.FitsBase) ∧
        ∀ id ∈ operand.index, ∃ found, f.lookup id = .ok found ∧ found.FitsIndex := by
  rw [← exists_base_iff, ← exists_index_iff]
  simp only [resolve_eq_ok_iff]
  constructor
  · rintro ⟨_, displacement, base, index, hDisplacement, hCheck, hBase, hIndex, -, hRsp⟩
    exact ⟨⟨⟨displacement, hDisplacement⟩, base, hBase⟩, hCheck, index, hIndex, hRsp⟩
  · rintro ⟨⟨⟨displacement, hDisplacement⟩, base, hBase⟩, hCheck, index, hIndex, hRsp⟩
    exact ⟨_, displacement, base, index, hDisplacement, hCheck, hBase, hIndex, rfl, hRsp⟩

/-- What keeps an operand from having an address. -/
inductive Unaddressable (f : Function) (operand : MemoryOperand) : Prop where
  | missing {id : VariableId} (hId : id ∈ operand.base ∨ id ∈ operand.index)
      (hMissing : f.locals.size ≤ id.number.toNat)
  /-- A rematerializable base is in the frame pointer or in the stack
  pointer. -/
  | strayBase {id : VariableId} {found : Variable} (hBase : id ∈ operand.base)
      (hFound : f.lookup id = .ok found) (hRematerializable : found.rematerializable = true)
      (hFrame : found.register ≠ some .rbp) (hStack : found.register ≠ some .rsp)
  | rematerializableIndex {id : VariableId} {found : Variable} (hIndex : id ∈ operand.index)
      (hFound : f.lookup id = .ok found) (hRematerializable : found.rematerializable = true)
  | notGeneral {id : VariableId} {found : Variable}
      (hId : id ∈ operand.base ∨ id ∈ operand.index) (hFound : f.lookup id = .ok found)
      (hRegister : found.register = none ∨ ∃ number, found.register = some (.xmm number))
  | stackPointerIndex {id : VariableId} {found : Variable} (hIndex : id ∈ operand.index)
      (hFound : f.lookup id = .ok found) (hRegister : found.register = some .rsp)

/-- A base or an index is there and general-purpose unless that keeps the
operand from having an address. -/
theorem exists_general_of_not_unaddressable (h : ¬ operand.Unaddressable f) {id : VariableId}
    (hId : id ∈ operand.base ∨ id ∈ operand.index) :
    ∃ found, f.lookup id = .ok found ∧ ∃ number, found.register = some (.general number) := by
  have hKnown : id.number.toNat < f.locals.size :=
    Nat.lt_of_not_le fun hMissing => h (.missing hId hMissing)
  obtain ⟨found, hFound⟩ := (f.exists_lookup_iff id).mpr hKnown
  refine ⟨found, hFound, ?_⟩
  by_contra hGeneral
  exact h (.notGeneral hId hFound (found.not_general_iff.mp hGeneral))

/-- The obstacles that are listed are all that there are, and each of them is
one. -/
theorem unaddressable_iff :
    operand.Unaddressable f ↔ ¬ ∃ address, operand.resolve f = .ok address := by
  rw [exists_resolve_iff]
  constructor
  · rintro hUnaddressable ⟨hBase, hIndex⟩
    have hGeneral {id : VariableId} (hId : id ∈ operand.base ∨ id ∈ operand.index) :
        ∃ found, f.lookup id = .ok found ∧ ∃ number, found.register = some (.general number) := by
      rcases hId with hId | hId
      · obtain ⟨found, hFound, hFits⟩ := hBase id hId
        exact ⟨found, hFound, hFits.general⟩
      · obtain ⟨found, hFound, hFits⟩ := hIndex id hId
        exact ⟨found, hFound, hFits.general⟩
    cases hUnaddressable with
    | @missing id hId hMissing =>
        obtain ⟨found, hFound, -⟩ := hGeneral hId
        have hKnown := (f.exists_lookup_iff id).mp ⟨found, hFound⟩
        omega
    | @strayBase id found hId hFound hRematerializable hFrame hStack =>
        obtain ⟨_, hAgain, hFits⟩ := hBase id hId
        cases hFound.symm.trans hAgain
        exact (hFits.pointer hRematerializable).elim hFrame hStack
    | @rematerializableIndex id found hId hFound hRematerializable =>
        obtain ⟨_, hAgain, hFits⟩ := hIndex id hId
        cases hFound.symm.trans hAgain
        cases hFits.stored.symm.trans hRematerializable
    | @notGeneral id found hId hFound hRegister =>
        obtain ⟨_, hAgain, hRegistered⟩ := hGeneral hId
        cases hFound.symm.trans hAgain
        exact found.not_general_iff.mpr hRegister hRegistered
    | @stackPointerIndex id found hId hFound hRegister =>
        obtain ⟨_, hAgain, hFits⟩ := hIndex id hId
        cases hFound.symm.trans hAgain
        exact hFits.not_stackPointer hRegister
  · intro hUnfit
    -- Without any of the obstacles both variables fit.
    by_contra hAddressable
    refine hUnfit ⟨fun id hId => ?_, fun id hId => ?_⟩
    · obtain ⟨found, hFound, hGeneral⟩ :=
        exists_general_of_not_unaddressable hAddressable (.inl hId)
      refine ⟨found, hFound, hGeneral, fun hRematerializable => ?_⟩
      by_contra hStray
      rw [not_or] at hStray
      exact hAddressable (.strayBase hId hFound hRematerializable hStray.1 hStray.2)
    · obtain ⟨found, hFound, hGeneral⟩ :=
        exists_general_of_not_unaddressable hAddressable (.inr hId)
      refine ⟨found, hFound, hGeneral, ?_, fun hRegister =>
        hAddressable (.stackPointerIndex hId hFound hRegister)⟩
      rw [← Bool.not_eq_true]
      exact fun hRematerializable =>
        hAddressable (.rematerializableIndex hId hFound hRematerializable)

/-- An operand is a fault in one code if it has no address in any. What was
written before makes no difference. -/
theorem toAddress_eq_fault_iff (f : Function) (operand : MemoryOperand) (a : Assembler) :
    (∃ cause, operand.toAddress f a = .fault cause) ↔ operand.Unaddressable f := by
  rw [unaddressable_iff]
  cases hOutcome : operand.toAddress f a with
  | done address after =>
      obtain ⟨resolved, hResolved, -⟩ := (toAddress_eq_done_iff _ _ _ _ _).mp hOutcome
      simp [hResolved]
  | refused reason after => exact absurd hOutcome (operand.toAddress_neverRefused f _ _ _)
  | fault cause =>
      refine iff_of_true ⟨cause, rfl⟩ ?_
      rintro ⟨resolved, hResolved⟩
      have hDone := (toAddress_eq_done_iff f operand a _ _).mpr ⟨resolved, hResolved, rfl, rfl⟩
      cases hOutcome.symm.trans hDone

/-- Without an obstacle the translation has no fault, and then it has a result
as well. -/
theorem toAddress_faultFree {a : Assembler} (h : ¬ operand.Unaddressable f) :
    (operand.toAddress f).FaultFree a :=
  fun cause hFault => h ((toAddress_eq_fault_iff f operand a).mp ⟨cause, hFault⟩)

end MemoryOperand

end Amd64
