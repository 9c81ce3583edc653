import Amd64.Proofs.Address.Legible

/-!
No encoding of an address is shorter than the one that is written. Any bytes
that a processor reads as the same memory need a SIB byte where the address has
one, and a displacement field that is no shorter: `Address.shortest_encode`. A
fixup asks for four bytes of displacement, and then the bytes with such a field
are the ones to compare with.
-/

namespace Amd64

namespace MemoryReference

/-- A processor reads this memory operand from the bytes, beside this register
field, and all of them belong to it. The bits of the REX prefix may be any. -/
def ReadFrom (reference : MemoryReference) (reg : Nat) (bytes : List UInt8) : Prop :=
  ∃ x b, ModRM.read x b bytes =
    some (⟨⟨reg % 8, Nat.mod_lt _ (by decide)⟩, .memory reference⟩, [])

/-- Only a SIB byte can name an index, leave out the base, or name `rsp` or
`r12` as the base. -/
def sibSize (reference : MemoryReference) : Nat :=
  match reference.base, reference.index with
  | some base, none => if base.val % 8 = 4 then 1 else 0
  | _, _ => 1

theorem sibSize_le_one (reference : MemoryReference) : reference.sibSize ≤ 1 := by
  unfold sibSize
  split
  · split <;> omega
  · omega

/-- The fewest bytes that the displacement can have. Without a base there are
always four, and `rbp` and `r13` are no base without any. -/
def leastSize (reference : MemoryReference) : Nat :=
  match reference.base with
  | none => 4
  | some base =>
      if reference.displacement = 0 ∧ base.val % 8 ≠ 5 then 0
      else if Displacement.fitsByte reference.displacement then 1
      else 4

end MemoryReference

namespace LittleEndian

theorem length_of_readWord {bytes rest : List UInt8} {value : Int32}
    (h : readWord bytes = some (value, rest)) : bytes.length = 4 + rest.length := by
  match bytes, h with
  | _ :: _ :: _ :: _ :: _, rfl => simp; omega

end LittleEndian

namespace ModRM

/-- The size of the displacement field under a mode. Under mode zero four bytes
stand in for a base that is left out. -/
def fieldSize (mode : Nat) (noBase : Bool) : Nat :=
  match mode with
  | 0 => if noBase then 4 else 0
  | 1 => 1
  | 2 => 4
  | _ => 0

/-- How many bytes of displacement a ModR/M byte announces, together with the
SIB byte after it. -/
def displacementSize : List UInt8 → Nat
  | [] => 0
  | byte :: rest =>
      let low := byte.toNat % 8
      let noBase := low = 5 || low = 4 && rest.head?.any fun sib => sib.toNat % 8 = 5
      fieldSize (byte.toNat / 64) noBase

theorem fitsByte_toInt32 (value : Int8) : Displacement.fitsByte value.toInt32 = true := by
  have hLow := value.le_toInt
  have hHigh := value.toInt_lt
  simp only [Displacement.fitsByte, Int8.toInt_toInt32, decide_eq_true_eq]
  omega

/-- A field has the size that its mode announces, and its value has room in it.
So no mode announces less than the displacement needs beside the base. -/
theorem size_of_readDisplacement {mode : Nat} {bytes rest : List UInt8} {displacement : Int32}
    (h : readDisplacement mode bytes = some (displacement, rest)) :
    bytes.length = fieldSize mode false + rest.length ∧
      ∀ base index, (base.val % 8 = 5 → mode ≠ 0) →
        MemoryReference.leastSize ⟨some base, index, displacement⟩ ≤ fieldSize mode false := by
  match mode, bytes, h with
  | 0, _, rfl =>
      refine ⟨by simp [fieldSize], fun base index hBase => ?_⟩
      have hBase : base.val % 8 ≠ 5 := fun hFive => hBase hFive rfl
      simp [MemoryReference.leastSize, hBase]
  | 1, byte :: _, rfl =>
      refine ⟨by simp [fieldSize, Nat.add_comm], fun base index _ => ?_⟩
      simp only [MemoryReference.leastSize, fitsByte_toInt32, if_true, fieldSize]
      split <;> omega
  | 2, _, h =>
      refine ⟨LittleEndian.length_of_readWord h, fun base index _ => ?_⟩
      simp only [MemoryReference.leastSize, fieldSize]
      split
      · omega
      · split <;> omega

/-- Only mode zero depends on whether there is a base: without one it stands
for four bytes and not for none. -/
theorem fieldSize_of_not {mode : Nat} {noBase : Bool} (h : ¬ (mode = 0 ∧ noBase = true)) :
    fieldSize mode noBase = fieldSize mode false := by
  match mode, noBase, h with
  | 0, false, _ => rfl
  | 0, true, h => exact absurd ⟨rfl, rfl⟩ h
  | 1, _, _ => rfl
  | 2, _, _ => rfl
  | _ + 3, _, _ => rfl

theorem registerOfBits_mod_eight (high : Bool) (low : Nat) :
    (registerOfBits high low).val % 8 = low % 8 := by
  simp only [registerOfBits]
  omega

/-- What is read after a SIB byte has as many bytes as the mode and the base
field of that byte announce, and these are enough for the displacement. -/
theorem size_of_readSib {mode : Nat} {x b : Bool} {bytes rest : List UInt8}
    {reference : MemoryReference} (h : readSib mode x b bytes = some (reference, rest)) :
    ∃ sib tail, bytes = sib :: tail ∧
      tail.length = fieldSize mode (sib.toNat % 8 = 5) + rest.length ∧
      reference.leastSize ≤ fieldSize mode (sib.toNat % 8 = 5) := by
  cases bytes with
  | nil => cases h
  | cons sib tail =>
      refine ⟨sib, tail, rfl, ?_⟩
      simp only [readSib, Option.bind_eq_bind, Option.bind_eq_some_iff] at h
      obtain ⟨scale, -, h⟩ := h
      by_cases hNoBase : mode = 0 ∧ sib.toNat % 8 = 5
      · rw [if_pos hNoBase] at h
        obtain ⟨⟨displacement, _⟩, hWord, h⟩ := Option.bind_eq_some_iff.mp h
        cases h
        have hSize : fieldSize mode (sib.toNat % 8 = 5) = 4 := by
          simp [hNoBase, fieldSize]
        rw [hSize]
        exact ⟨LittleEndian.length_of_readWord hWord, Nat.le_refl _⟩
      · rw [if_neg hNoBase] at h
        obtain ⟨⟨displacement, _⟩, hField, h⟩ := Option.bind_eq_some_iff.mp h
        cases h
        have hSize : fieldSize mode (sib.toNat % 8 = 5) = fieldSize mode false :=
          fieldSize_of_not (by simpa using hNoBase)
        obtain ⟨hLength, hLeast⟩ := size_of_readDisplacement hField
        rw [hSize]
        refine ⟨hLength, hLeast _ _ fun hFive hMode => hNoBase ⟨hMode, ?_⟩⟩
        rwa [registerOfBits_mod_eight] at hFive

/-- The bytes of a memory operand are a ModR/M byte, a SIB byte at least where
one is needed, and a field that is not smaller than the displacement. This
bounds every encoding from below, whoever wrote it. -/
theorem size_of_read {x b : Bool} {bytes rest : List UInt8} {reg : Fin 8}
    {reference : MemoryReference}
    (h : read x b bytes = some (⟨reg, .memory reference⟩, rest)) :
    1 + reference.sibSize + displacementSize bytes + rest.length ≤ bytes.length ∧
      reference.leastSize ≤ displacementSize bytes := by
  cases bytes with
  | nil => cases h
  | cons byte tail =>
      simp only [read] at h
      by_cases hRegister : byte.toNat / 64 = 3
      · rw [if_pos hRegister] at h
        cases h
      rw [if_neg hRegister] at h
      by_cases hSib : byte.toNat % 8 = 4
      · -- A SIB byte stands here, whether it is needed or not.
        have hOne := reference.sibSize_le_one
        rw [if_pos hSib] at h
        obtain ⟨⟨found, left⟩, hRead, h⟩ := Option.bind_eq_some_iff.mp h
        simp only [Option.pure_def, Option.some.injEq, Prod.mk.injEq, ModRM.mk.injEq,
          ModRMOperand.memory.injEq] at h
        obtain ⟨⟨-, rfl⟩, rfl⟩ := h
        obtain ⟨sib, field, rfl, hLength, hLeast⟩ := size_of_readSib hRead
        have hSize : displacementSize (byte :: sib :: field) =
            fieldSize (byte.toNat / 64) (sib.toNat % 8 = 5) := by
          simp [displacementSize, hSib]
        rw [hSize]
        refine ⟨?_, hLeast⟩
        simp only [List.length_cons]
        omega
      rw [if_neg hSib] at h
      by_cases hRelative : byte.toNat / 64 = 0 ∧ byte.toNat % 8 = 5
      · rw [if_pos hRelative] at h
        obtain ⟨⟨_, _⟩, -, h⟩ := Option.bind_eq_some_iff.mp h
        cases h
      rw [if_neg hRelative] at h
      -- The base is named by the ModR/M byte, so it is neither `rsp` nor `r12`.
      obtain ⟨⟨displacement, _⟩, hField, h⟩ := Option.bind_eq_some_iff.mp h
      cases h
      obtain ⟨hLength, hLeast⟩ := size_of_readDisplacement hField
      have hSize : displacementSize (byte :: tail) = fieldSize (byte.toNat / 64) false := by
        simp only [displacementSize, hSib, decide_false, Bool.false_and, Bool.or_false]
        exact fieldSize_of_not (by simpa using hRelative)
      have hNone : MemoryReference.sibSize
          ⟨some (registerOfBits b (byte.toNat % 8)), none, displacement⟩ = 0 := by
        simp [MemoryReference.sibSize, registerOfBits_mod_eight, hSib]
      rw [hSize, hNone]
      refine ⟨by simp only [List.length_cons]; omega, hLeast _ _ fun hFive hMode => ?_⟩
      rw [registerOfBits_mod_eight, Nat.mod_mod] at hFive
      exact hRelative ⟨hMode, hFive⟩

/-- A field has the size that its mode announces, as the mode is not zero where
that means four bytes. -/
theorem fieldSize_choose (displacement : Int32) (hasFixup noBase : Bool) :
    fieldSize (Displacement.choose displacement hasFixup noBase).mode noBase =
      (Displacement.choose displacement hasFixup noBase).length := by
  rw [fieldSize_of_not]
  · cases Displacement.choose displacement hasFixup noBase <;> rfl
  · rintro ⟨hMode, rfl⟩
    exact Displacement.mode_choose_ne_zero displacement hasFixup hMode

/-- Behind a SIB byte it is the base field of that byte that counts. -/
theorem displacementSize_of_sib (mode reg : Nat) (sib : UInt8) (rest : List UInt8)
    (hMode : mode < 3) :
    displacementSize (packFields mode reg Address.sibField :: sib :: rest) =
      fieldSize mode (sib.toNat % 8 = 5) := by
  have hFour : mode % 4 = mode := by omega
  simp [displacementSize, hFour, Address.sibField]

/-- Without a SIB byte it is the register field of the ModR/M byte that
counts. -/
theorem displacementSize_of_base (mode reg base : Nat) (rest : List UInt8) (hMode : mode < 3)
    (hBase : base < 8) (hSib : base ≠ 4) :
    displacementSize (packFields mode reg base :: rest) = fieldSize mode (base = 5) := by
  have hFour : mode % 4 = mode := by omega
  have hEight : base % 8 = base := by omega
  simp [displacementSize, hFour, hEight, hSib]

end ModRM

theorem RegisterNumber.toFin_mod_eight (register : RegisterNumber) :
    register.toFin.val % 8 = register.low := by
  simp only [toFin, low]
  omega

/-- A displacement that no fixup completes is chosen as short as it can be. The
base decides whether there has to be a field at all. -/
theorem Displacement.length_choose (displacement : Int32) (base : Fin 16) (needsField : Bool)
    (index : Option (Fin 16 × Scale)) (h : needsField = true ↔ base.val % 8 = 5) :
    (choose displacement false needsField).length =
      MemoryReference.leastSize ⟨some base, index, displacement⟩ := by
  have hNone : (displacement = 0 && !needsField) = true ↔
      displacement = 0 ∧ base.val % 8 ≠ 5 := by
    simp [← h]
  simp only [choose, MemoryReference.leastSize, Bool.false_eq_true, if_false, hNone]
  split
  · rfl
  · split <;> rfl

namespace Address

/-- The bytes of an address announce the displacement field that they have,
with a fixup and without. -/
theorem displacementSize_encode (address : Address) (reg : Nat) :
    ModRM.displacementSize (address.encode reg).bytes =
      (address.encode reg).displacement.length := by
  obtain ⟨base, index, displacement, fixup⟩ := address
  cases base with
  | none =>
      cases index with
      | none => exact ModRM.displacementSize_of_sib _ _ _ _ (by decide)
      | some scaled =>
          simp only [encode, AddressEncoding.bytes, Option.toList, List.cons_append]
          rw [ModRM.displacementSize_of_sib _ _ _ _ (by decide), packFields_mod_8]
          rfl
  | some base =>
      have hBase := base.low_lt
      have hMode := (Displacement.choose displacement fixup.isSome
        (base.low = noBaseField)).mode_lt
      have hSize := ModRM.fieldSize_choose displacement fixup.isSome (base.low = noBaseField)
      have hEight : base.low % 8 = base.low := by omega
      cases index with
      | none =>
          by_cases hSib : base.low = sibField
          · simp only [encode, AddressEncoding.bytes, if_pos hSib, Option.toList,
              List.cons_append]
            rw [ModRM.displacementSize_of_sib _ _ _ _ hMode, packFields_mod_8, hEight]
            exact hSize
          · simp only [encode, AddressEncoding.bytes, if_neg hSib, Option.toList,
              List.nil_append, List.cons_append]
            rw [ModRM.displacementSize_of_base _ _ _ _ hMode hBase hSib]
            exact hSize
      | some scaled =>
          simp only [encode, AddressEncoding.bytes, Option.toList, List.cons_append]
          rw [ModRM.displacementSize_of_sib _ _ _ _ hMode, packFields_mod_8, hEight]
          exact hSize

/-- An address that a constructor makes is written with a SIB byte only where
one is needed. Of other addresses this is not true: an index that is no index
would need none. -/
theorem length_sib_encode {address : Address} (h : address.Constructed) (reg : Nat) :
    (address.encode reg).sib.toList.length = address.reference.sibSize := by
  have hIndex := ((constructed_iff address).mp h).2
  obtain ⟨base, index, displacement, fixup⟩ := address
  cases index with
  | none =>
      cases base with
      | none => rfl
      | some base =>
          have hSize : (reference ⟨some base, none, displacement, fixup⟩).sibSize =
              if base.low = sibField then 1 else 0 := by
            simp only [reference, MemoryReference.sibSize, Option.map_some, base.toFin_mod_eight]
            rfl
          rw [hSize]
          by_cases hSib : base.low = sibField
          · simp only [encode, if_pos hSib]
            rfl
          · simp only [encode, if_neg hSib]
            rfl
  | some scaled =>
      -- The number of `rsp` would be read as no index at all.
      have hNumber : scaled.register.toFin.val ≠ 4 :=
        (scaled.register.ne_rsp_iff.mpr (hIndex scaled rfl)).1
      cases base <;> simp [encode, reference, MemoryReference.sibSize, hNumber]

/-- An address without a fixup is written with the shortest displacement that a
processor reads as the same number. -/
theorem length_displacement_encode {address : Address} (h : address.fixup = none) (reg : Nat) :
    (address.encode reg).displacement.length = address.reference.leastSize := by
  obtain ⟨base, index, displacement, fixup⟩ := address
  cases base with
  | none => cases index <;> rfl
  | some base =>
      have hField : decide (base.low = noBaseField) = true ↔ base.toFin.val % 8 = 5 := by
        rw [base.toFin_mod_eight]
        exact decide_eq_true_iff
      have hLength := Displacement.length_choose displacement base.toFin
        (base.low = noBaseField) (reference ⟨some base, index, displacement, none⟩).index hField
      cases h
      cases index with
      | none =>
          simp only [encode]
          split <;> exact hLength
      | some scaled => exact hLength

/-- The encoding of an address that a constructor makes is read as this
address, and nothing that is read as the same address is shorter. A fixup has
four bytes of displacement there, and where one is carried, nothing with as
many bytes of displacement is shorter. -/
theorem shortest_encode {address : Address} (h : address.Constructed) (reg : Nat) :
    address.reference.ReadFrom reg (address.encode reg).bytes ∧
    (address.fixup.isSome = true → ModRM.displacementSize (address.encode reg).bytes = 4) ∧
    ∀ bytes, address.reference.ReadFrom reg bytes →
      (address.fixup.isSome = true → ModRM.displacementSize bytes = 4) →
        (address.encode reg).bytes.length ≤ bytes.length := by
  have hFour (hFixup : address.fixup.isSome = true) :
      (address.encode reg).displacement.length = 4 := by
    rw [address.displacement_encode_of_fixup reg hFixup, Displacement.length]
  refine ⟨⟨(address.encode reg).rexX, (address.encode reg).rexB, ?_⟩, ?_, ?_⟩
  · have hRead := address.read_encode reg []
    rwa [List.append_nil] at hRead
  · intro hFixup
    rw [displacementSize_encode, hFour hFixup]
  · rintro bytes ⟨x, b, hRead⟩ hField
    obtain ⟨hBytes, hSize⟩ := ModRM.size_of_read hRead
    have hDisplacement : (address.encode reg).displacement.length ≤
        ModRM.displacementSize bytes := by
      cases hFixup : address.fixup with
      | none =>
          rw [length_displacement_encode hFixup reg]
          exact hSize
      | some ref =>
          have hSome : address.fixup.isSome = true := by rw [hFixup, Option.isSome_some]
          exact Nat.le_of_eq ((hFour hSome).trans (hField hSome).symm)
    rw [AddressEncoding.length_bytes, AddressEncoding.length, AddressEncoding.displacementStart,
      length_sib_encode h]
    simp only [List.length_nil] at hBytes
    omega

/-- The base `r13` with an index, at displacement zero, for which one byte must
stand. -/
theorem shortest_encode_r13 :
    let address : Address := ⟨some ⟨13⟩, some ⟨⟨12⟩, .two⟩, 0, none⟩
    address.Constructed ∧ (address.encode 3).bytes = [0x5C, 0x65, 0x00] ∧
      ∀ bytes, address.reference.ReadFrom 3 bytes → 3 ≤ bytes.length := by
  intro address
  have hBase : RegisterNumber.make 13 = .ok ⟨13⟩ := rfl
  have hIndex : RegisterNumber.make 12 = .ok ⟨12⟩ := rfl
  have hMake : Address.make (some ⟨13⟩) (some ⟨⟨12⟩, .two⟩) 0 none = .ok address := rfl
  have hConstructed : address.Constructed := by
    refine Constructed.indexed ?_ hIndex hMake
    rintro _ ⟨⟩
    exact ⟨13, hBase⟩
  refine ⟨hConstructed, rfl, fun bytes hRead => ?_⟩
  exact (shortest_encode hConstructed 3).2.2 bytes hRead nofun

end Address

end Amd64
