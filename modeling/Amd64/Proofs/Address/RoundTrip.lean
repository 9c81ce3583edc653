import Amd64.Address.Decoding

/-!
A processor reads an encoded address as the address it was. The registers 4, 5,
12 and 13 are where this could fail: their low bits announce a SIB byte, the
absence of a base or the absence of an index, and every encoding has to step
around that.
-/

namespace Amd64

@[simp] theorem packFields_div_64 (high middle low : Nat) :
    (packFields high middle low).toNat / 64 = high % 4 := by
  rw [toNat_packFields]
  omega

@[simp] theorem packFields_div_8_mod_8 (high middle low : Nat) :
    (packFields high middle low).toNat / 8 % 8 = middle % 8 := by
  rw [toNat_packFields]
  omega

@[simp] theorem packFields_mod_8 (high middle low : Nat) :
    (packFields high middle low).toNat % 8 = low % 8 := by
  rw [toNat_packFields]
  omega

/-- A register number depends on nothing but the three low bits of its byte and
the bit from the prefix. -/
theorem registerOfBits_congr (high : Bool) {first second : Nat} (h : first % 8 = second % 8) :
    registerOfBits high first = registerOfBits high second := by
  simp [registerOfBits, h]

theorem Scale.shift_mod_four (scale : Scale) : scale.shift % 4 = scale.shift := by
  cases scale <;> rfl

namespace RegisterNumber

theorem low_lt (register : RegisterNumber) : register.low < 8 :=
  Nat.mod_lt _ (by decide)

theorem registerOfBits_eq_toFin (register : RegisterNumber) :
    registerOfBits register.isHigh register.low = register.toFin := by
  apply Fin.ext
  have hHigh : register.isHigh.toNat = register.value.toNat / 8 % 2 := by
    unfold isHigh
    by_cases h : register.value.toNat / 8 % 2 = 1
    · simp [h]
    · simp only [h, decide_false, Bool.toNat_false]
      omega
  simp only [registerOfBits, toFin, hHigh, low]
  omega

@[simp] theorem toFin_ofFin (number : Fin 16) : (ofFin number).toFin = number := by
  apply Fin.ext
  have hByte : (UInt8.ofNat number.val).toNat = number.val % 256 := UInt8.toNat_ofNat'
  simp only [ofFin, toFin, hByte]
  omega

end RegisterNumber

namespace Displacement

def value : Displacement → Int32
  | none => 0
  | byte value => value.toInt32
  | word value => value

theorem toInt32_toInt8 {value : Int32} (h : fitsByte value = true) :
    value.toInt8.toInt32 = value := by
  simp only [fitsByte, decide_eq_true_eq] at h
  apply Int32.toInt_inj.mp
  rw [Int8.toInt_toInt32, Int32.toInt_toInt8]
  apply Int.bmod_eq_of_le
  · omega
  · omega

/-- Whatever field is chosen, it holds the displacement. One byte is chosen
only where the displacement fits, and no byte only where it is zero. -/
theorem value_choose (displacement : Int32) (hasFixup needsField : Bool) :
    (choose displacement hasFixup needsField).value = displacement := by
  unfold choose
  split
  · rfl
  · split
    · rename_i hZero
      simp only [Bool.and_eq_true, decide_eq_true_eq] at hZero
      exact hZero.1.symm
    · split
      · rename_i hFits
        exact toInt32_toInt8 hFits
      · rfl

/-- The one mode without a displacement is not chosen where a field is needed.
This is what keeps a base with these low bits from being read as none. -/
theorem mode_choose_ne_zero (displacement : Int32) (hasFixup : Bool) :
    (choose displacement hasFixup true).mode ≠ 0 := by
  unfold choose
  split
  · simp [mode]
  · split
    · simp_all
    · split <;> simp [mode]

theorem mode_lt (field : Displacement) : field.mode < 3 := by
  cases field <;> simp [mode]

/-- A mode announces a size, so that fields of the same size have the same
mode. -/
theorem mode_eq_of_length {first second : Displacement} (h : second.length = first.length) :
    first.mode = second.mode := by
  cases first <;> cases second <;> simp_all [mode, length]

theorem eq_word_of_length {field : Displacement} (h : field.length = 4) :
    ∃ value, field = word value := by
  cases field with
  | none => cases h
  | byte value => cases h
  | word value => exact ⟨value, rfl⟩

end Displacement

/-- A ModR/M byte, a SIB byte and four more are the most that an address
takes. -/
theorem AddressEncoding.length_bytes_le (encoding : AddressEncoding) :
    encoding.bytes.length ≤ 6 := by
  rw [encoding.length_bytes, length, displacementStart]
  have hSib : encoding.sib.toList.length ≤ 1 := by
    cases encoding.sib <;> simp
  have hField : encoding.displacement.length ≤ 4 := by
    cases encoding.displacement <;> simp [Displacement.length]
  omega

namespace ModRM

/-- The mode tells how many bytes a field has, and they hold its value. What
follows the field is left for the next reader. -/
theorem readDisplacement_bytes (field : Displacement) (rest : List UInt8) :
    readDisplacement field.mode (field.bytes ++ rest) = some (field.value, rest) := by
  cases field with
  | none => rfl
  | byte value =>
      simp [Displacement.mode, Displacement.bytes, Displacement.value, readDisplacement,
        UInt8.toInt8]
  | word value =>
      simp only [Displacement.mode, Displacement.bytes, readDisplacement,
        LittleEndian.readWord_word, Displacement.value]

/-- The index that a SIB byte with this register number stands for. The number
of the stack pointer stands for none. -/
def sibIndex (number : Fin 16) (scale : Scale) : Option (Fin 16 × Scale) :=
  if number.val = 4 then none else some (number, scale)

/-- Under mode zero a base field of five stands for no base and four bytes. The
index is read like anywhere else. -/
theorem readSib_of_no_base (x b : Bool) (scale : Scale) (index : Nat) (displacement : Int32)
    (rest : List UInt8) :
    readSib 0 x b
        (packFields scale.shift index 5 :: (LittleEndian.word displacement ++ rest)) =
      some (⟨none, sibIndex (registerOfBits x index) scale, displacement⟩, rest) := by
  have hIndex : registerOfBits x ((packFields scale.shift index 5).toNat / 8) =
      registerOfBits x index :=
    registerOfBits_congr x (packFields_div_8_mod_8 _ _ _)
  simp [readSib, scale.shift_mod_four, Scale.ofShift?_shift, hIndex, LittleEndian.readWord_word,
    sibIndex]

/-- In every other case the base field stands for a register, and the mode
announces the field. The condition excludes the case above. -/
theorem readSib_of_base (x b : Bool) (scale : Scale) (index base : Nat) (field : Displacement)
    (rest : List UInt8) (hBase : base < 8) (hField : base = 5 → field.mode ≠ 0) :
    readSib field.mode x b (packFields scale.shift index base :: (field.bytes ++ rest)) =
      some (⟨some (registerOfBits b base), sibIndex (registerOfBits x index) scale,
        field.value⟩, rest) := by
  have hIndex : registerOfBits x ((packFields scale.shift index base).toNat / 8) =
      registerOfBits x index :=
    registerOfBits_congr x (packFields_div_8_mod_8 _ _ _)
  have hRegister : registerOfBits b (packFields scale.shift index base).toNat =
      registerOfBits b base :=
    registerOfBits_congr b (packFields_mod_8 _ _ _)
  have hNot : ¬ (field.mode = 0 ∧ base % 8 = 5) := by
    rintro ⟨hMode, hFive⟩
    exact hField (by omega) hMode
  simp [readSib, scale.shift_mod_four, Scale.ofShift?_shift, hIndex, hRegister, hNot,
    readDisplacement_bytes, sibIndex]

/-- A register field of four announces a SIB byte, and everything but the field
beside it is read from there. -/
theorem read_of_sib (x b : Bool) (mode reg : Nat) (bytes : List UInt8) (hMode : mode < 3) :
    read x b (packFields mode reg Address.sibField :: bytes) =
      (readSib mode x b bytes).map fun (reference, rest) =>
        (⟨⟨reg % 8, Nat.mod_lt _ (by decide)⟩, .memory reference⟩, rest) := by
  have hFour : mode % 4 = mode := by omega
  have hThree : mode ≠ 3 := by omega
  simp only [read, packFields_div_64, packFields_div_8_mod_8, packFields_mod_8, hFour, hThree,
    Address.sibField, if_false, Nat.reduceMod, if_true]
  cases readSib mode x b bytes <;> rfl

/-- Any other register field is the base, and there is no index. Under mode
zero a field of five would not be a base but a distance from the next
instruction, and is excluded. -/
theorem read_of_base (x b : Bool) (reg base : Nat) (field : Displacement) (rest : List UInt8)
    (hBase : base < 8) (hSib : base ≠ 4) (hField : base = 5 → field.mode ≠ 0) :
    read x b (packFields field.mode reg base :: (field.bytes ++ rest)) =
      some (⟨⟨reg % 8, Nat.mod_lt _ (by decide)⟩,
        .memory ⟨some (registerOfBits b base), none, field.value⟩⟩, rest) := by
  have hMode := field.mode_lt
  have hFour : field.mode % 4 = field.mode := by omega
  have hThree : field.mode ≠ 3 := by omega
  have hEight : base % 8 = base := by omega
  have hNot : ¬ (field.mode = 0 ∧ base = 5) := by
    rintro ⟨hZero, hFive⟩
    exact hField hFive hZero
  simp [read, hFour, hThree, hEight, hSib, hNot, readDisplacement_bytes]

theorem read_of_register (x b : Bool) (reg low : Nat) (rest : List UInt8) :
    read x b (packFields 3 reg low :: rest) =
      some (⟨⟨reg % 8, Nat.mod_lt _ (by decide)⟩, .register (registerOfBits b low)⟩, rest) := by
  have hLow : registerOfBits b (low % 8) = registerOfBits b low :=
    registerOfBits_congr b (Nat.mod_mod _ _)
  simp [read, hLow]

end ModRM

/-- The bytes of an encoding before its displacement. -/
def AddressEncoding.head (encoding : AddressEncoding) : List UInt8 :=
  encoding.modrm :: encoding.sib.toList

/-- The displacement starts where the head ends, which is after one byte or
two. -/
theorem AddressEncoding.length_head (encoding : AddressEncoding) :
    encoding.head.length = encoding.displacementStart := by
  simp only [displacementStart, head, List.length_cons]
  omega

namespace Address

/-- The field of an encoded address holds the displacement of the address, of
whatever size it is. -/
theorem value_displacement_encode (address : Address) (reg : Nat) :
    (address.encode reg).displacement.value = address.displacement := by
  obtain ⟨base, index, displacement, fixup⟩ := address
  cases base with
  | none => cases index <;> rfl
  | some base =>
      have hValue := Displacement.value_choose displacement fixup.isSome
      cases index with
      | none =>
          simp only [encode]
          split <;> exact hValue _
      | some scaled => exact hValue _

/-- The displacement can be exchanged for any other of the same size. A
processor then reads the other one, and nothing else of what it reads
changes. -/
theorem read_head (address : Address) (reg : Nat) (field : Displacement) (rest : List UInt8)
    (hLength : field.length = (address.encode reg).displacement.length) :
    ModRM.read (address.encode reg).rexX (address.encode reg).rexB
        ((address.encode reg).head ++ (field.bytes ++ rest)) =
      some (⟨⟨reg % 8, Nat.mod_lt _ (by decide)⟩,
        .memory { address.reference with displacement := field.value }⟩, rest) := by
  obtain ⟨base, index, displacement, fixup⟩ := address
  cases base with
  | none =>
      obtain ⟨value, rfl⟩ : ∃ value, field = .word value :=
        Displacement.eq_word_of_length (by cases index <;> exact hLength)
      cases index with
      | none =>
          -- A SIB byte with neither base nor index, because mode zero alone would be relative.
          have h := ModRM.readSib_of_no_base false false .one sibField value rest
          simp only [encode, AddressEncoding.head, Option.toList, Displacement.bytes,
            List.cons_append, List.nil_append, noBaseField]
          rw [ModRM.read_of_sib _ _ _ _ _ (by decide)]
          simp only [Scale.shift] at h
          rw [h]
          rfl
      | some scaled =>
          have h := ModRM.readSib_of_no_base scaled.register.isHigh false scaled.scale
            scaled.register.low value rest
          simp only [encode, AddressEncoding.head, Option.toList, Displacement.bytes,
            List.cons_append, List.nil_append, noBaseField]
          rw [ModRM.read_of_sib _ _ _ _ _ (by decide), h,
            scaled.register.registerOfBits_eq_toFin]
          rfl
  | some base =>
      have hBase := base.low_lt
      have hSame : (Displacement.choose displacement fixup.isSome
          (base.low = noBaseField)).mode = field.mode := by
        apply Displacement.mode_eq_of_length
        rw [hLength]
        cases index with
        | none =>
            simp only [encode]
            split <;> rfl
        | some scaled => rfl
      have hField : base.low = 5 → field.mode ≠ 0 := by
        intro hFive
        rw [← hSame]
        simpa [noBaseField, hFive] using
          Displacement.mode_choose_ne_zero displacement fixup.isSome
      have hMode := field.mode_lt
      cases index with
      | none =>
          by_cases hSib : base.low = sibField
          · -- The low bits of `rsp` and `r12` announce a SIB byte, which then names them.
            have h := ModRM.readSib_of_base false base.isHigh .one sibField base.low field rest
              hBase hField
            simp only [encode, AddressEncoding.head, if_pos hSib, Option.toList, hSame,
              List.cons_append, List.nil_append]
            simp only [Scale.shift] at h
            rw [ModRM.read_of_sib _ _ _ _ _ hMode, h, base.registerOfBits_eq_toFin]
            rfl
          · simp only [encode, AddressEncoding.head, if_neg hSib, Option.toList, hSame,
              List.nil_append, List.cons_append]
            rw [ModRM.read_of_base _ _ _ _ _ _ hBase hSib hField, base.registerOfBits_eq_toFin]
            rfl
      | some scaled =>
          have h := ModRM.readSib_of_base scaled.register.isHigh base.isHigh scaled.scale
            scaled.register.low base.low field rest hBase hField
          simp only [encode, AddressEncoding.head, Option.toList, hSame, List.cons_append,
            List.nil_append]
          rw [ModRM.read_of_sib _ _ _ _ _ hMode, h, scaled.register.registerOfBits_eq_toFin,
            base.registerOfBits_eq_toFin]
          rfl

/-- Reading an encoded address gives its registers, its displacement and the
register field beside it, and stops right after it. -/
theorem read_encode (address : Address) (reg : Nat) (rest : List UInt8) :
    ModRM.read (address.encode reg).rexX (address.encode reg).rexB
        ((address.encode reg).bytes ++ rest) =
      some (⟨⟨reg % 8, Nat.mod_lt _ (by decide)⟩, .memory address.reference⟩, rest) := by
  have h := address.read_head reg (address.encode reg).displacement rest rfl
  rw [value_displacement_encode, ← List.append_assoc] at h
  exact h

end Address

end Amd64
