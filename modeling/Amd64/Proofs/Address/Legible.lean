import Amd64.Proofs.Assembler.Emission
import Amd64.Proofs.Address.RoundTrip

/-!
Addresses written after other bytes. Whatever the register numbers are, a
processor reads memory in exactly the bytes that were added, the returned
offset is where it finds the displacement, and it finds the address itself
exactly if a constructor could have made it.
-/

namespace Amd64

/-- The address of memory as a processor reads it, with a fixup for its
displacement. -/
def MemoryReference.toAddress (reference : MemoryReference) (fixup : Option FixupRef) :
    Address where
  base := reference.base.map .ofFin
  index := reference.index.map fun (number, scale) => ⟨.ofFin number, scale⟩
  displacement := reference.displacement
  fixup := fixup

/-- The constructor takes the numbers below sixteen as they are, and nothing
else. -/
theorem RegisterNumber.make_eq_ok_iff (value : UInt8) (register : RegisterNumber) :
    make value = .ok register ↔ value < 16 ∧ register = ⟨value⟩ := by
  unfold make
  by_cases hLt : value < 16 <;> simp [hLt, eq_comm]

/-- Only numbers below sixteen come back from their four bits. A number that
was read from data need not be one of them. -/
theorem RegisterNumber.ofFin_toFin_iff (register : RegisterNumber) :
    ofFin register.toFin = register ↔ ∃ value, make value = .ok register := by
  obtain ⟨value⟩ := register
  have hValue : (UInt8.ofNat (value.toNat % 16)).toNat = value.toNat % 16 % 256 :=
    UInt8.toNat_ofNat'
  simp only [ofFin, toFin, RegisterNumber.mk.injEq, make_eq_ok_iff]
  rw [← UInt8.toNat_inj, hValue]
  constructor
  · intro hSame
    exact ⟨value, UInt8.lt_iff_toNat_lt.mpr (by change value.toNat < 16; omega), rfl⟩
  · rintro ⟨_, hLt, rfl⟩
    have hLt : value.toNat < 16 := UInt8.lt_iff_toNat_lt.mp hLt
    omega

/-- A number of four bits other than that of the stack pointer is one that an
index can have. The bits alone do not decide it, as a larger number may have
the same ones. -/
theorem RegisterNumber.ne_rsp_iff (register : RegisterNumber) :
    (register.value.toNat % 16 ≠ 4 ∧ ofFin register.toFin = register) ↔
      register ≠ .rsp ∧ ∃ value, make value = .ok register := by
  rw [ofFin_toFin_iff]
  apply and_congr_left
  rintro ⟨value, hMake⟩
  obtain ⟨hLt, rfl⟩ := (make_eq_ok_iff _ _).mp hMake
  have hLt : value.toNat < 16 := UInt8.lt_iff_toNat_lt.mp hLt
  simp only [rsp, ne_eq, RegisterNumber.mk.injEq]
  rw [← UInt8.toNat_inj, Nat.mod_eq_of_lt hLt]
  rfl

/-- Writing adds the head and the displacement, and the offset lies between the
two. Without a displacement there is no offset. -/
theorem AddressEncoding.writeTo_eq (encoding : AddressEncoding) (before : List UInt8) :
    encoding.writeTo before =
      (before ++ (encoding.head ++ encoding.displacement.bytes),
        if encoding.displacement.bytes = [] then none
        else some (before.length + encoding.head.length)) := by
  simp only [writeTo, bytes, ← encoding.length_head, head]
  cases encoding.displacement <;> simp [Displacement.isEmpty, Displacement.bytes,
    LittleEndian.word, LittleEndian.bytes]

namespace Address

/-- The address is what a constructor makes of register numbers below
sixteen. -/
inductive Constructed : Address → Prop where
  | absolute (displacement : Int32) (fixup : Option FixupRef) :
      Constructed (.absolute displacement fixup)
  | based {value : UInt8} {base : RegisterNumber} (hBase : RegisterNumber.make value = .ok base)
      (displacement : Int32) (fixup : Option FixupRef) :
      Constructed (.based base displacement fixup)
  | indexed {value : UInt8} {base : Option RegisterNumber} {index : ScaledIndex}
      {displacement : Int32} {fixup : Option FixupRef} {address : Address}
      (hBase : ∀ register ∈ base, ∃ value, RegisterNumber.make value = .ok register)
      (hIndex : RegisterNumber.make value = .ok index.register)
      (hMake : make base (some index) displacement fixup = .ok address) :
      Constructed address

/-- An address written beside a register field, after other bytes. -/
structure Legible (address : Address) (reg : Nat) (before : List UInt8) : Prop where
  /-- As many bytes as the encoding has are added, and a processor reads memory
  in them, whatever follows. -/
  read : ∃ added, ((address.encode reg).writeTo before).1 = before ++ added ∧
    added.length = (address.encode reg).length ∧
    ∀ rest, ModRM.read (address.encode reg).rexX (address.encode reg).rexB (added ++ rest) =
      some (⟨⟨reg % 8, Nat.mod_lt _ (by decide)⟩, .memory address.reference⟩, rest)
  displacement : address.reference.displacement = address.displacement
  base : address.reference.base.map Fin.val =
    address.base.map fun register => register.value.toNat % 16
  /-- Four bits of an index number count, and the number of the stack pointer
  is no index. -/
  index : (address.reference.index.map fun (number, scale) => (number.val, scale)) =
    address.index.bind fun scaled =>
      if scaled.register.value.toNat % 16 = 4 then none
      else some (scaled.register.value.toNat % 16, scaled.scale)
  /-- The bytes of the displacement begin at the offset, and there is no offset
  if there are none. Other bytes in their place are read as another
  displacement, and nothing else changes. -/
  start : ((address.encode reg).writeTo before).1 =
      before ++ ((address.encode reg).head ++ (address.encode reg).displacement.bytes) ∧
    ((address.encode reg).writeTo before).2 =
      (if (address.encode reg).displacement.bytes = [] then none
      else some (before.length + (address.encode reg).head.length)) ∧
    ∀ other : Displacement, other.length = (address.encode reg).displacement.length → ∀ rest,
      ModRM.read (address.encode reg).rexX (address.encode reg).rexB
          ((address.encode reg).head ++ (other.bytes ++ rest)) =
        some (⟨⟨reg % 8, Nat.mod_lt _ (by decide)⟩,
          .memory { address.reference with displacement := other.value }⟩, rest)
  /-- A fixup finds four bytes at the offset. -/
  fixup : address.fixup.isSome = true → ∃ offset,
    ((address.encode reg).writeTo before).2 = some offset ∧
      ((address.encode reg).writeTo before).1.drop offset =
        LittleEndian.word address.displacement
  /-- What is read is the address itself exactly if a constructor makes it. -/
  itself : address.reference.toAddress address.fixup = address ↔ address.Constructed

/-- A processor reads the four low bits of the base, whatever number the base
was given. -/
theorem map_val_base_reference (address : Address) :
    address.reference.base.map Fin.val =
      address.base.map fun register => register.value.toNat % 16 := by
  simp only [reference, Option.map_map]
  rfl

/-- An index whose four low bits are those of the stack pointer is not read as
an index, even if the number is a larger one. -/
theorem index_reference (address : Address) :
    address.reference.index = address.index.bind fun scaled =>
      if scaled.register.value.toNat % 16 = 4 then none
      else some (scaled.register.toFin, scaled.scale) := by
  cases hIndex : address.index with
  | none => simp only [reference, hIndex, Option.bind_none]
  | some scaled =>
      simp only [reference, hIndex, Option.bind_some]
      rfl

theorem map_val_index_reference (address : Address) :
    (address.reference.index.map fun (number, scale) => (number.val, scale)) =
      address.index.bind fun scaled =>
        if scaled.register.value.toNat % 16 = 4 then none
        else some (scaled.register.value.toNat % 16, scaled.scale) := by
  rw [index_reference, Option.map_bind]
  congr 1
  funext scaled
  simp only [Function.comp_apply, apply_ite (Option.map _)]
  rfl

/-- An address is one that a constructor makes if its registers have numbers
below sixteen and the index is not the stack pointer. The displacement and the
fixup are free. -/
theorem constructed_iff (address : Address) :
    address.Constructed ↔
      (∀ register ∈ address.base, ∃ value, RegisterNumber.make value = .ok register) ∧
        ∀ scaled ∈ address.index, scaled.register ≠ .rsp ∧
          ∃ value, RegisterNumber.make value = .ok scaled.register := by
  constructor
  · intro h
    cases h with
    | absolute => simp [absolute]
    | based hBase =>
        refine ⟨?_, by simp [based]⟩
        rintro register ⟨⟩
        exact ⟨_, hBase⟩
    | indexed hBase hIndex hMake =>
        obtain ⟨rfl, hRsp⟩ := (make_eq_ok_iff _ _ _ _ _).mp hMake
        refine ⟨hBase, ?_⟩
        rintro scaled ⟨⟩
        exact ⟨hRsp _ rfl, _, hIndex⟩
  · obtain ⟨base, index, displacement, fixup⟩ := address
    rintro ⟨hBase, hIndex⟩
    cases index with
    | none =>
        cases base with
        | none => exact .absolute displacement fixup
        | some register =>
            obtain ⟨value, hMake⟩ := hBase register rfl
            exact .based hMake displacement fixup
    | some scaled =>
        obtain ⟨hRsp, value, hMake⟩ := hIndex scaled rfl
        apply Constructed.indexed hBase hMake
        apply (make_eq_ok_iff _ _ displacement fixup _).mpr
        refine ⟨rfl, ?_⟩
        rintro _ ⟨⟩
        exact hRsp

/-- What a processor reads is the whole of an address that a constructor makes.
Of any other it misses a register number above fifteen, or an index. -/
theorem toAddress_reference_iff (address : Address) :
    address.reference.toAddress address.fixup = address ↔ address.Constructed := by
  rw [constructed_iff]
  have hParts : address.reference.toAddress address.fixup = address ↔
      address.reference.base.map .ofFin = address.base ∧
        (address.reference.index.map fun (number, scale) =>
          (⟨.ofFin number, scale⟩ : ScaledIndex)) = address.index := by
    obtain ⟨base, index, displacement, fixup⟩ := address
    simp [MemoryReference.toAddress, reference]
  rw [hParts]
  apply and_congr
  · cases hBase : address.base <;> simp [reference, hBase, RegisterNumber.ofFin_toFin_iff]
  · rw [index_reference]
    cases hIndex : address.index with
    | none => simp
    | some scaled =>
        obtain ⟨register, scale⟩ := scaled
        have hNumber := register.ne_rsp_iff
        by_cases hFour : register.value.toNat % 16 = 4
        · simpa [hFour] using hNumber
        · simpa [hFour] using hNumber

/-- An address is read back from the bytes that are written of it, whatever it
is made of, whatever stands before it and whatever follows. -/
theorem legible_writeTo (address : Address) (reg : Nat) (before : List UInt8) :
    address.Legible reg before where
  read := ⟨(address.encode reg).bytes, rfl, (address.encode reg).length_bytes,
    address.read_encode reg⟩
  displacement := rfl
  base := address.map_val_base_reference
  index := address.map_val_index_reference
  start := by
    rw [AddressEncoding.writeTo_eq]
    exact ⟨rfl, rfl, fun other hLength rest => address.read_head reg other rest hLength⟩
  fixup := by
    intro hFixup
    have hWord := address.displacement_encode_of_fixup reg hFixup
    have hBytes : Displacement.bytes (.word address.displacement) ≠ [] := by
      simp [Displacement.bytes, LittleEndian.word, LittleEndian.bytes]
    rw [AddressEncoding.writeTo_eq, hWord, if_neg hBytes]
    refine ⟨_, rfl, ?_⟩
    rw [← List.append_assoc, ← List.length_append, List.drop_left]
    rfl
  itself := address.toAddress_reference_iff

end Address

end Amd64
