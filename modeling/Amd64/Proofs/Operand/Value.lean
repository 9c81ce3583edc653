import Amd64.Operand.Meaning
import Amd64.Proofs.Operand.Reference

/-!
The address of an operand as a number. Every contribution to the displacement
is one summand of what the operand denotes, but the displacement has 32 bits of
the sum and the denotation has 64. The two numbers are equal as long as the sum
has room in 32 bits, and otherwise differ by a multiple of it.
-/

namespace Amd64

/-- The number is right as long as this sum has room in 32 bits with its sign,
and otherwise it is wrong by a multiple of their room. -/
def AgreesWithin (sum : Int) (value meaning : BitVec 64) : Prop :=
  (-2147483648 ≤ sum → sum < 2147483648 → value = meaning) ∧
    ∃ turns : Int, value = meaning + BitVec.ofInt 64 (turns * 4294967296)

/-- A displacement is the sum of its contributions modulo its room, and its
sign is extended. If the sum has room the two numbers are the same. -/
theorem agreesWithin_displacement (rest : BitVec 64) (sum : Int) :
    AgreesWithin sum (rest + signExtended (Int32.ofInt sum)) (rest + BitVec.ofInt 64 sum) := by
  refine ⟨?_, -(sum.bdiv 4294967296), ?_⟩
  · intro hLow hHigh
    rw [signExtended, Int32.toInt_ofInt_of_le hLow hHigh]
  · have hTurns : (Int32.ofInt sum).toInt = sum + -(sum.bdiv 4294967296) * 4294967296 := by
      have hSplit := Int.bmod_add_bdiv' sum 4294967296
      have hWrapped : (Int32.ofInt sum).toInt = sum.bmod 4294967296 := Int32.toInt_ofInt
      rw [hWrapped]
      omega
    rw [signExtended, hTurns, BitVec.ofInt_add, BitVec.add_assoc]

/-- The address that a processor computes from what it has read. -/
def MemoryReference.value (registers : RegisterFile) (reference : MemoryReference) : BitVec 64 :=
  let base := match reference.base with
    | none => 0
    | some number => registers number
  let index := match reference.index with
    | none => 0
    | some (number, scale) => registers number * BitVec.ofNat 64 scale.factor
  base + index + signExtended reference.displacement

def Address.linkedValue (linked : FixupRef → BitVec 64) (address : Address) : BitVec 64 :=
  match address.fixup with
  | none => 0
  | some ref => linked ref

/-- The value of an address is the sum of its four parts modulo two to the
power of 64. -/
theorem Address.value_eq (registers : RegisterFile) (linked : FixupRef → BitVec 64)
    (address : Address) :
    address.value registers linked =
      (address.base.elim 0 fun register => registers register.toFin) +
        (address.index.elim 0 fun scaled =>
          registers scaled.register.toFin * BitVec.ofNat 64 scaled.scale.factor) +
        signExtended address.displacement + address.linkedValue linked := by
  obtain ⟨base, index, displacement, fixup⟩ := address
  cases base <;> cases index <;> cases fixup <;> rfl

/-- Reading an address back loses nothing but the fixup, as the index is not
the stack pointer. With that number the index would be read as absent. -/
theorem Address.value_eq_reference (registers : RegisterFile) (linked : FixupRef → BitVec 64)
    {address : Address} (hIndex : ∀ scaled ∈ address.index, scaled.register.toFin.val ≠ 4) :
    address.value registers linked =
      address.reference.value registers + address.linkedValue linked := by
  obtain ⟨base, index, displacement, fixup⟩ := address
  cases index with
  | none => cases base <;> rfl
  | some scaled =>
      have hNumber := hIndex scaled rfl
      cases base <;> cases fixup <;>
        simp [Address.value, reference, MemoryReference.value, linkedValue, hNumber]

namespace Variable

/-- What a variable adds to the displacement of an address that it is the base
of. -/
def contribution (frame : FrameConfig) (var : Variable) : Int :=
  if var.rematerializable then
    if var.register = some .rbp then var.stackOffset.toInt + frame.allocaOffset.toInt
    else var.stackOffset.toInt
  else 0

/-- A rematerializable variable is what its register holds and its contribution
to the displacement. It is in the frame pointer or in the stack pointer. -/
theorem value?_of_rematerialize {frame : FrameConfig} {var : Variable} {displacement : Int32}
    {number : Fin 16} (registers : RegisterFile) (hRematerializable : var.rematerializable = true)
    (hRegister : var.register = some (.general number))
    (hDisplacement : frame.layout.rematerialize var = .ok displacement) :
    var.value? frame registers =
        some (registers number + BitVec.ofInt 64 (var.contribution frame)) ∧
      displacement = Int32.ofInt (var.contribution frame) := by
  rw [FrameLayout.rematerialize, if_pos hRematerializable] at hDisplacement
  rw [value?, hRegister, contribution, if_pos hRematerializable]
  simp only [hRematerializable, if_true]
  by_cases hFrame : var.register = some .rbp
  · have hNumber : number.val = 5 := by
      cases hRegister.symm.trans hFrame
      rfl
    have hSum : displacement = var.stackOffset + frame.allocaOffset := by
      rw [if_pos (by exact hFrame)] at hDisplacement
      cases hDisplacement
      rfl
    rw [if_pos hNumber, if_pos hFrame, hSum, BitVec.ofInt_add, Int32.ofInt_add, Int32.ofInt_toInt,
      Int32.ofInt_toInt, ← BitVec.add_assoc]
    exact ⟨rfl, rfl⟩
  · rw [if_neg (by exact hFrame)] at hDisplacement
    by_cases hStack : var.register = some .rsp
    · have hNumber : number.val = 4 := by
        cases hRegister.symm.trans hStack
        rfl
      have hSum : displacement = var.stackOffset := by
        rw [if_pos (by exact hStack)] at hDisplacement
        cases hDisplacement
        rfl
      rw [if_neg (by omega), if_pos hNumber, if_neg hFrame, hSum, Int32.ofInt_toInt]
      exact ⟨rfl, rfl⟩
    · rw [if_neg (by exact hStack)] at hDisplacement
      cases hDisplacement

end Variable

/-- Among the numbers of registers only one means the stack pointer. Number
twelve, which has the same low bits, does not. -/
theorem RegisterNumber.ofFin_eq_rsp_iff (number : Fin 16) :
    RegisterNumber.ofFin number = .rsp ↔ number.val = 4 := by
  constructor
  · intro h
    have hNumber := congrArg RegisterNumber.toFin h
    rw [toFin_ofFin] at hNumber
    rw [hNumber]
    rfl
  · intro h
    obtain ⟨value, hValue⟩ := number
    cases h
    rfl

namespace Function

/-- A variable is addressed by the number of its general-purpose register, and
in no other way. -/
theorem addressNumber_eq_ok_iff (f : Function) (id : VariableId) (register : RegisterNumber) :
    f.addressNumber id = .ok register ↔
      ∃ found number, f.lookup id = .ok found ∧ found.register = some (.general number) ∧
        register = .ofFin number := by
  unfold addressNumber addressRegister
  cases f.lookup id with
  | error cause => simp
  | ok found =>
      rcases hRegister : found.register with _ | number | number
      · simp [hRegister]
      · simp [hRegister, Register.generalNumber, eq_comm]
      · simp [hRegister, Register.generalNumber]

/-- What an operand adds for a base or an index, which is nothing if there is
none. -/
def partValue? (f : Function) (registers : RegisterFile) : Option VariableId → Option (BitVec 64)
  | none => some 0
  | some id => f.value? registers id

/-- What the base of an operand adds to the displacement of its address. -/
def contribution (f : Function) : Option VariableId → Int
  | none => 0
  | some id =>
      match f.lookup id with
      | .ok var => var.contribution f.frame
      | .error _ => 0

end Function

namespace MemoryOperand

variable {f : Function} {operand : MemoryOperand}

/-- The base of an operand is its register and its contribution. The
contribution is zero unless the base is rematerializable. -/
theorem partValue?_base (registers : RegisterFile) {displacement : Int32}
    {base : Option RegisterNumber} (hDisplacement : operand.baseDisplacement f = .ok displacement)
    (hBase : operand.baseNumber f = .ok base) :
    f.partValue? registers operand.base =
        some ((base.elim 0 fun register => registers register.toFin) +
          BitVec.ofInt 64 (f.contribution operand.base)) ∧
      displacement = Int32.ofInt (f.contribution operand.base) := by
  unfold baseDisplacement rematerializableBase at hDisplacement
  unfold baseNumber at hBase
  cases hId : operand.base with
  | none =>
      rw [hId] at hDisplacement hBase
      cases hDisplacement
      cases hBase
      exact ⟨rfl, rfl⟩
  | some id =>
      rw [hId] at hDisplacement hBase
      obtain ⟨register, hNumber, rfl⟩ := (Except.map_eq_ok_iff _ _ _).mp hBase
      obtain ⟨found, number, hFound, hRegister, rfl⟩ := (f.addressNumber_eq_ok_iff _ _).mp hNumber
      simp only [hFound] at hDisplacement
      simp only [Function.partValue?, Function.value?, Function.contribution, hFound,
        Option.elim_some, RegisterNumber.toFin_ofFin]
      cases hStored : found.rematerializable with
      | true =>
          simp only [hStored, if_true] at hDisplacement
          exact found.value?_of_rematerialize registers hStored hRegister hDisplacement
      | false =>
          simp only [hStored, Bool.false_eq_true, if_false] at hDisplacement
          cases hDisplacement
          simp [Variable.value?, Variable.contribution, hRegister, hStored]

/-- The index of an operand contributes its register times the factor. A
rematerializable index, which would be more than its register, does not pass
the check. -/
theorem partValue?_index (registers : RegisterFile) {index : Option ScaledIndex}
    (hCheck : operand.checkIndex f = .ok ()) (hIndex : operand.scaledIndex f = .ok index) :
    ∃ value, f.partValue? registers operand.index = some value ∧
      value * BitVec.ofNat 64 operand.scale.factor =
        index.elim 0 fun scaled =>
          registers scaled.register.toFin * BitVec.ofNat 64 scaled.scale.factor := by
  unfold checkIndex at hCheck
  unfold scaledIndex at hIndex
  cases hId : operand.index with
  | none =>
      rw [hId] at hIndex
      cases hIndex
      exact ⟨0, rfl, BitVec.zero_mul⟩
  | some id =>
      rw [hId] at hCheck hIndex
      obtain ⟨register, hNumber, rfl⟩ := (Except.map_eq_ok_iff _ _ _).mp hIndex
      obtain ⟨found, number, hFound, hRegister, rfl⟩ := (f.addressNumber_eq_ok_iff _ _).mp hNumber
      simp only [hFound] at hCheck
      cases hStored : found.rematerializable with
      | true => simp [hStored] at hCheck
      | false =>
          refine ⟨registers number, ?_, ?_⟩
          · simp [Function.partValue?, Function.value?, hFound, Variable.value?, hRegister, hStored]
          · simp

/-- An index that is not refused is not read as the absence of an index. -/
theorem toFin_ne_of_scaledIndex {index : Option ScaledIndex}
    (hIndex : operand.scaledIndex f = .ok index)
    (hRsp : ∀ scaled ∈ index, scaled.register ≠ .rsp) :
    ∀ scaled ∈ index, scaled.register.toFin.val ≠ 4 := by
  intro scaled hScaled
  unfold scaledIndex at hIndex
  cases hId : operand.index with
  | none =>
      rw [hId] at hIndex
      cases hIndex
      cases hScaled
  | some id =>
      rw [hId] at hIndex
      obtain ⟨register, hNumber, rfl⟩ := (Except.map_eq_ok_iff _ _ _).mp hIndex
      obtain ⟨found, number, -, -, rfl⟩ := (f.addressNumber_eq_ok_iff _ _).mp hNumber
      cases hScaled
      rw [RegisterNumber.toFin_ofFin]
      exact fun hFour => hRsp _ rfl ((RegisterNumber.ofFin_eq_rsp_iff number).mpr hFour)

/-- What the symbol of an operand adds to its address. -/
def symbolValue (symbols : String → BitVec 64) (operand : MemoryOperand) : BitVec 64 :=
  operand.symbol?.elim 0 fun target => symbols target.symbol

/-- The fixup of an address adds the symbol of the operand, if it is linked to
what was requested. Where other fixups are linked to does not matter. -/
theorem linkedValue_of_carried {symbols : String → BitVec 64} {linked : FixupRef → BitVec 64}
    {a : Assembler} (address : Address) (hCarried : address.fixup = operand.carried a)
    (hLinked : ∀ ref ∈ address.fixup, ∀ fixup ∈ operand.requested,
      linked ref = symbols fixup.symbol) :
    address.linkedValue linked = operand.symbolValue symbols := by
  unfold Address.linkedValue symbolValue
  unfold carried at hCarried
  unfold requested at hLinked
  rw [hCarried] at hLinked ⊢
  cases hSymbol : operand.symbol? with
  | none => rfl
  | some target =>
      rw [hSymbol] at hLinked
      exact hLinked a.nextFixup rfl ⟨.signed32, target.symbol, none⟩ (List.mem_singleton.mpr rfl)

def offsetMeaning (symbols : String → BitVec 64) (operand : MemoryOperand) : BitVec 64 :=
  operand.offset.elim 0 fun constant => constant.value symbols

theorem offsetMeaning_eq (symbols : String → BitVec 64) (operand : MemoryOperand) :
    operand.offsetMeaning symbols =
      operand.symbolValue symbols + signExtended operand.offsetValue := by
  unfold offsetMeaning symbolValue symbol? offsetValue
  rcases operand.offset with _ | value | target
  · rfl
  · exact (BitVec.zero_add _).symm
  · rfl

theorem value?_eq (f : Function) (registers : RegisterFile) (symbols : String → BitVec 64)
    (operand : MemoryOperand) :
    operand.value? f registers symbols =
      (f.partValue? registers operand.base).bind fun base =>
        (f.partValue? registers operand.index).bind fun index =>
          some (base + index * BitVec.ofNat 64 operand.scale.factor +
            operand.offsetMeaning symbols) := by
  obtain ⟨type, base, index, offset, scale, uses, hUses⟩ := operand
  cases base <;> cases index <;> cases offset <;> rfl

end MemoryOperand

namespace Operand

/-- The address of the memory that an operand stands for. A variable and a half
of one are in the stack slot of the variable. -/
def location? (f : Function) (registers : RegisterFile) (symbols : String → BitVec 64) :
    Operand → Option (BitVec 64)
  | var id =>
      match f.lookup id with
      | .ok found => some (registers f.slotNumber + signExtended found.stackOffset)
      | .error _ => none
  | constant _ => none
  | memory operand => operand.value? f registers symbols
  | half part =>
      match f.lookup part.slot with
      | .ok found =>
          some (registers f.slotNumber + signExtended found.stackOffset +
            signExtended part.offset)
      | .error _ => none

/-- The exact sum of all that adds to the displacement of an address. -/
def displacementSum (f : Function) : Operand → Int
  | var id =>
      match f.lookup id with
      | .ok found => found.stackOffset.toInt
      | .error _ => 0
  | constant _ => 0
  | memory operand => f.contribution operand.base + operand.offsetValue.toInt
  | half part =>
      match f.lookup part.slot with
      | .ok found => found.stackOffset.toInt + part.offset.toInt
      | .error _ => 0

/-- An operand and its address are the same number, but for the width of the
displacement. What they share is named, so that only the displacements are left
to compare. -/
theorem TranslatesTo.value_eq {f : Function} {operand : Operand} {a after : Assembler}
    {address : Address} (h : operand.TranslatesTo f a address after) (registers : RegisterFile)
    {symbols : String → BitVec 64} {linked : FixupRef → BitVec 64}
    (hLinked : ∀ ref ∈ address.fixup, ∀ fixup ∈ operand.requested,
      linked ref = symbols fixup.symbol) :
    (∀ scaled ∈ address.index, scaled.register.toFin.val ≠ 4) ∧
      ∃ rest, operand.location? f registers symbols =
          some (rest + BitVec.ofInt 64 (operand.displacementSum f)) ∧
        address.value registers linked =
          rest + signExtended (Int32.ofInt (operand.displacementSum f)) := by
  cases h with
  | slot h =>
      obtain ⟨found, hFound, -, rfl⟩ := (f.stackAddress_eq_ok_iff _ _).mp h
      refine ⟨by simp [Address.based], registers f.slotNumber, ?_, ?_⟩
      · simp [location?, displacementSum, hFound, signExtended]
      · simp [displacementSum, hFound, Address.value, Address.based]
  | half h =>
      obtain ⟨found, hFound, -, rfl⟩ := (SlotHalf.toAddress_eq_ok_iff _ _ _).mp h
      refine ⟨by simp [Address.based], registers f.slotNumber, ?_, ?_⟩
      · simp only [location?, displacementSum, hFound, signExtended, BitVec.ofInt_add,
          BitVec.add_assoc]
      · simp [displacementSum, hFound, Address.value, Address.based]
  | @memory operand address after h =>
      obtain ⟨_, hResolved, rfl, -⟩ := (MemoryOperand.toAddress_eq_done_iff _ _ _ _ _).mp h
      obtain ⟨displacement, base, index, hDisplacement, hCheck, hBase, hIndex, rfl, hRsp⟩ :=
        (MemoryOperand.resolve_eq_ok_iff _ _ _).mp hResolved
      -- The base gives the register and a part of the displacement, the index gives its product,
      -- and the rest of the displacement is the offset.
      obtain ⟨hBaseValue, hContribution⟩ :=
        MemoryOperand.partValue?_base registers hDisplacement hBase
      obtain ⟨value, hIndexValue, hScaled⟩ :=
        MemoryOperand.partValue?_index registers hCheck hIndex
      refine ⟨?_, (base.elim 0 fun register => registers register.toFin) +
        (index.elim 0 fun scaled =>
          registers scaled.register.toFin * BitVec.ofNat 64 scaled.scale.factor) +
          operand.symbolValue symbols, ?_, ?_⟩
      · exact MemoryOperand.toFin_ne_of_scaledIndex hIndex hRsp
      · simp only [location?, MemoryOperand.value?_eq, hBaseValue, hIndexValue, Option.bind_some,
          hScaled, MemoryOperand.offsetMeaning_eq, displacementSum, BitVec.ofInt_add, signExtended]
        ac_rfl
      · have hSymbol := MemoryOperand.linkedValue_of_carried
          ⟨base, index, displacement + operand.offsetValue, operand.carried a⟩ rfl hLinked
        rw [Address.value_eq, hSymbol, displacementSum, Int32.ofInt_add, Int32.ofInt_toInt,
          ← hContribution]
        ac_rfl

/-- The fixup that an address carries is the one that its operand requested, as
long as the number of fixups has room in a reference. -/
theorem TranslatesTo.fixup_eq_ok {f : Function} {operand : Operand} {a after : Assembler}
    {address : Address} (h : operand.TranslatesTo f a address after)
    (hRoom : a.fixups.length < 4294967296) {ref : FixupRef} (hRef : ref ∈ address.fixup) :
    ∃ fixup ∈ operand.requested, after.fixup ref = .ok fixup := by
  cases h with
  | slot h =>
      obtain ⟨found, -, -, rfl⟩ := (f.stackAddress_eq_ok_iff _ _).mp h
      cases hRef
  | half h =>
      obtain ⟨found, -, -, rfl⟩ := (SlotHalf.toAddress_eq_ok_iff _ _ _).mp h
      cases hRef
  | @memory operand address after h =>
      obtain ⟨_, -, rfl, rfl⟩ := (MemoryOperand.toAddress_eq_done_iff _ _ _ _ _).mp h
      obtain ⟨target, hTarget, rfl⟩ := Option.map_eq_some_iff.mp hRef
      refine ⟨⟨.signed32, target.symbol, none⟩, ?_, ?_⟩
      · simp [requested, MemoryOperand.requested, hTarget]
      · have hNumber : (UInt32.ofNat a.fixups.length).toNat = a.fixups.length :=
          Nat.mod_eq_of_lt hRoom
        simp [Assembler.fixup, Assembler.nextFixup, MemoryOperand.requested, hTarget, hNumber]

/-- An operand in memory has a meaning, and its address agrees with it for all
contents of registers and all places of symbols, both as it is returned and as
a processor reads it back. -/
theorem agreesWithin_of_translatesTo {f : Function} {operand : Operand} {a after : Assembler}
    {address : Address} (h : operand.TranslatesTo f a address after) :
    after = a.withFixups operand.requested ∧
      (a.fixups.length < 4294967296 → ∀ ref ∈ address.fixup,
        ∃ fixup ∈ operand.requested, after.fixup ref = .ok fixup) ∧
      ∀ (registers : RegisterFile) (symbols : String → BitVec 64)
        (linked : FixupRef → BitVec 64),
        (∀ ref ∈ address.fixup, ∀ fixup ∈ operand.requested,
          linked ref = symbols fixup.symbol) →
        ∃ meaning, operand.location? f registers symbols = some meaning ∧
          AgreesWithin (operand.displacementSum f) (address.value registers linked) meaning ∧
          ∀ (reg : Nat) (rest : List UInt8), ∃ reference,
            ModRM.read (address.encode reg).rexX (address.encode reg).rexB
                ((address.encode reg).bytes ++ rest) =
              some (⟨⟨reg % 8, Nat.mod_lt _ (by decide)⟩, .memory reference⟩, rest) ∧
            AgreesWithin (operand.displacementSum f)
              (reference.value registers + address.linkedValue linked) meaning := by
  refine ⟨h.after_eq, fun hRoom _ hRef => h.fixup_eq_ok hRoom hRef, ?_⟩
  intro registers symbols linked hLinked
  obtain ⟨hIndex, base, hMeaning, hValue⟩ := h.value_eq registers hLinked
  have hAgrees := agreesWithin_displacement base (operand.displacementSum f)
  rw [← hValue] at hAgrees
  refine ⟨_, hMeaning, hAgrees, ?_⟩
  intro reg rest
  refine ⟨address.reference, address.read_encode reg rest, ?_⟩
  rw [← Address.value_eq_reference registers linked hIndex]
  exact hAgrees

/-- A rematerializable base whose contribution has no room beside that of an
addend, with an index and a symbol. -/
theorem agreesWithin_of_translatesTo_rematerializable :
    let f : Function := ⟨"f", ⟨true, 2147483647⟩,
      #[⟨"p", .i64, some .rbp, 1, true⟩, ⟨"i", .i64, some (.general ⟨12, by decide⟩), 0, false⟩]⟩
    let operand : Operand :=
      .memory (.ofParts .i32 (some ⟨0⟩) (some ⟨1⟩) (some (.relocatable ⟨"g", 4⟩)) .eight)
    let address : Address := ⟨some ⟨5⟩, some ⟨⟨12⟩, .eight⟩, 1 + 2147483647 + 4, some ⟨0⟩⟩
    let registers : RegisterFile := fun number => BitVec.ofNat 64 number.val
    let linked : FixupRef → BitVec 64 := fun _ => 4096
    operand.TranslatesTo f .empty address ⟨[], [⟨.signed32, "g", none⟩], []⟩ ∧
      operand.displacementSum f = 2147483652 ∧
      ∃ meaning, operand.location? f registers (fun _ => 4096) = some meaning ∧
        AgreesWithin 2147483652 (address.value registers linked) meaning := by
  intro f operand address registers linked
  have hTranslates : operand.TranslatesTo f .empty address ⟨[], [⟨.signed32, "g", none⟩], []⟩ :=
    .memory rfl
  have hSum : operand.displacementSum f = 2147483652 := by decide
  obtain ⟨-, -, hAgrees⟩ := agreesWithin_of_translatesTo hTranslates
  obtain ⟨meaning, hMeaning, hValue, -⟩ :=
    hAgrees registers (fun _ => 4096) linked fun _ _ _ _ => rfl
  rw [hSum] at hValue
  exact ⟨hTranslates, hSum, meaning, hMeaning, hValue⟩

end Operand

end Amd64
