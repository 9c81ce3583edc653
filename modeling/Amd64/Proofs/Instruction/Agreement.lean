import Amd64.Instruction.Encoding
import Amd64.Instruction.Listing
import Amd64.Proofs.Operand.Agreement

/-!
What an instruction depends on: the variables in the use lists of its operands,
the variable that it computes into, and the frame. Whoever knows these knows
its texts and its encoding, so an allocator that follows the use lists
overlooks nothing: `Instruction.use_lists_complete`.
-/

namespace Amd64

namespace Instruction

/-- The variables that an instruction names: the one it computes into, if that
is no operand, and the uses of its operands. -/
def named (instruction : Instruction) : List VariableId :=
  instruction.result?.toList ++ instruction.operands.flatMap fun operand => operand.uses.toList

/-- Nothing that can be learned about an instruction tells two functions apart:
neither its texts nor what encoding it does to any code. -/
structure SameIn (f g : Function) (instruction : Instruction) : Prop where
  dump : instruction.dump f = instruction.dump g
  listing : instruction.listing f = instruction.listing g
  encode : ∀ a, instruction.encode f a = instruction.encode g a

section

variable {f g : Function} {dest : VariableId}

/-- The destination of an instruction is looked up once, and everything else
follows from what is found. -/
theorem destinationRegister_congr (mnemonic : String) (h : f.lookup dest = g.lookup dest) :
    destinationRegister f mnemonic dest = destinationRegister g mnemonic dest := by
  simp only [destinationRegister, h]

theorem addressTarget_congr (h : f.lookup dest = g.lookup dest) :
    addressTarget f dest = addressTarget g dest := by
  simp only [addressTarget, h, destinationRegister_congr "lea" h]

theorem comparisonTarget_congr (h : f.lookup dest = g.lookup dest) :
    comparisonTarget f dest = comparisonTarget g dest := by
  simp only [comparisonTarget, h, destinationRegister_congr "cmpps" h]

/-- The byte register of a condition is that of the operand, so that the use
list of the operand is enough. -/
theorem listByte_congr {dest : Operand} (h : f.AgreesOn g dest.uses.toList) :
    listByte f dest = listByte g dest := by
  have hListing := (Operand.sameIn_of_agreesOn h).listing
  cases dest with
  | var id => simp only [listByte, h.lookup (List.mem_singleton_self id), hListing]
  | constant | memory | half => exact hListing

end

/-- An instruction is the same in functions that agree on the variables it
names. The result has to be among them, since it is no operand. -/
theorem sameIn_of_agreesOn {f g : Function} {instruction : Instruction}
    (h : f.AgreesOn g instruction.named) : instruction.SameIn f g := by
  have hOperand (operand : Operand) (hMem : operand ∈ instruction.operands) :
      operand.SameIn f g := by
    refine Operand.sameIn_of_agreesOn (h.mono fun id hId => ?_)
    exact List.mem_append_right _ (List.mem_flatMap.mpr ⟨operand, hMem, hId⟩)
  have hResult (id : VariableId) (hSome : instruction.result? = some id) : f.AgreesOn g [id] := by
    refine h.mono fun other hOther => ?_
    rw [List.mem_singleton] at hOther
    rw [hOther]
    exact List.mem_append_left _ (by simp [hSome])
  have hLocate (operand : Operand) (hMem : operand ∈ instruction.operands) (mnemonic : String) :
      operand.locate f mnemonic = operand.locate g mnemonic :=
    funext ((hOperand operand hMem).locate mnemonic)
  cases instruction with
  | mov type dest src =>
      have hDest : dest.SameIn f g := hOperand dest (.head _)
      have hSrc : src.SameIn f g := hOperand src (.tail _ (.head _))
      refine ⟨?_, ?_, fun a => ?_⟩
      · simp only [dump, hDest.dump, hSrc.dump]
      · simp only [listing, hDest.listing, hSrc.listing]
      · simp only [encode, write, hLocate dest (.head _), hLocate src (.tail _ (.head _))]
  | lea dest src =>
      have hAgrees := hResult dest rfl
      have hFound : f.lookup dest = g.lookup dest := hAgrees.lookup (List.mem_singleton_self dest)
      have hSrc : (Operand.memory src).SameIn f g := hOperand _ (.head _)
      have hDump : src.dump f = src.dump g := hSrc.dump
      have hListing : src.listing f = src.listing g := hSrc.listing
      have hAddress : src.toAddress f = src.toAddress g := funext (hSrc.memory src rfl)
      refine ⟨?_, ?_, fun a => ?_⟩
      · simp only [dump, hFound, hDump]
      · simp only [listing, hFound, hListing, Function.listVariable_congr hAgrees]
      · simp only [encode, write, addressTarget_congr hFound, hAddress]
  | jcc condition target => exact ⟨rfl, rfl, fun _ => rfl⟩
  | setcc condition dest =>
      have hDest : dest.SameIn f g := hOperand dest (.head _)
      have hAgrees : f.AgreesOn g dest.uses.toList := h.mono fun id hId =>
        List.mem_flatMap.mpr ⟨dest, .head _, hId⟩
      refine ⟨?_, ?_, fun a => ?_⟩
      · simp only [dump, hDest.dump]
      · simp only [listing, listByte_congr hAgrees]
      · simp only [encode, write, hLocate dest (.head _)]
  | cmpps predicate dest src =>
      have hAgrees := hResult dest rfl
      have hFound : f.lookup dest = g.lookup dest := hAgrees.lookup (List.mem_singleton_self dest)
      have hSrc : src.SameIn f g := hOperand src (.head _)
      refine ⟨?_, ?_, fun a => ?_⟩
      · simp only [dump, hFound, hSrc.dump]
      · simp only [listing, hSrc.listing, Function.listVariable_congr hAgrees]
      · simp only [encode, write, comparisonTarget_congr hFound, hLocate src (.head _)]

/-- Use lists are complete. The list that a memory operand stores is the one
that is collected from its base and its index, also where the operand is made
from a base and an offset alone; an operand is the same in any two functions
that agree on its use list; and an instruction is the same in any two that
agree on the use lists of its operands and on the variable it computes into. -/
theorem use_lists_complete :
    (∀ operand : MemoryOperand,
      MemoryOperand.collectUses operand.base operand.index = .ok operand.uses ∧
        operand.uses.toList = operand.base.toList ++ operand.index.toList) ∧
    (∀ (type : ValueType) (base : VariableId) (offset : Int32),
      MemoryOperand.make type (some base) none (some (.integer offset)) 0 =
          .ok (.atOffset type base offset) ∧
        (MemoryOperand.atOffset type base offset).uses.toList = [base]) ∧
    (∀ (f g : Function) (operand : Operand),
      f.AgreesOn g operand.uses.toList → operand.SameIn f g) ∧
    ∀ (f g : Function) (instruction : Instruction),
      f.AgreesOn g instruction.named → instruction.SameIn f g :=
  ⟨fun operand => ⟨operand.collected, operand.toList_uses⟩, MemoryOperand.make_atOffset,
    fun _ _ _ => Operand.sameIn_of_agreesOn, fun _ _ _ => sameIn_of_agreesOn⟩

/-- An address through a rematerializable base and an index, computed in two
functions with other names and with other variables around those that are
used. -/
theorem use_lists_complete_lea :
    let p : Variable := ⟨"p", .i64, some .rbp, 8, true⟩
    let i : Variable := ⟨"i", .i64, some (.general ⟨3, by decide⟩), 0, false⟩
    let d : Variable := ⟨"d", .i64, some (.general ⟨0, by decide⟩), 0, false⟩
    let f : Function := ⟨"f", ⟨true, 16⟩, #[p, i, d]⟩
    let g : Function := ⟨"g", ⟨true, 16⟩, #[p, i, d, ⟨"x", .f32, some .rsp, 4, true⟩]⟩
    let src : MemoryOperand :=
      .ofParts .i64 (some ⟨0⟩) (some ⟨1⟩) (some (.relocatable ⟨"t", 4⟩)) .four
    let after : Assembler :=
      ⟨[0x48, 0x8D, 0x84, 0x9D, 0x1C, 0x00, 0x00, 0x00], [⟨.signed32, "t", some 4⟩], []⟩
    f.AgreesOn g (Operand.memory src).uses.toList ∧ (Operand.memory src).SameIn f g ∧
      f.AgreesOn g (lea ⟨2⟩ src).named ∧ (lea ⟨2⟩ src).SameIn f g ∧
      (lea ⟨2⟩ src).encode g .empty = .done () after := by
  intro p i d f g src after
  have hAgrees : f.AgreesOn g (lea ⟨2⟩ src).named := by
    refine ⟨rfl, fun id hId => ?_⟩
    have hNamed : id ∈ [(⟨2⟩ : VariableId), ⟨0⟩, ⟨1⟩] := hId
    simp only [List.mem_cons, List.not_mem_nil, or_false] at hNamed
    rcases hNamed with rfl | rfl | rfl
    · exact ⟨d, rfl, rfl⟩
    · exact ⟨p, rfl, rfl⟩
    · exact ⟨i, rfl, rfl⟩
  have hUses : f.AgreesOn g (Operand.memory src).uses.toList :=
    hAgrees.mono fun _ hId => .tail _ hId
  have hEncode : (lea ⟨2⟩ src).encode g .empty = .done () after := by
    dsimp only [g, p, i, d, src, after]
    rfl
  exact ⟨hUses, use_lists_complete.2.2.1 f g _ hUses, hAgrees,
    use_lists_complete.2.2.2 f g _ hAgrees, hEncode⟩

end Instruction

end Amd64
