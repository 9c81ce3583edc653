import Amd64.Instruction.Listing
import Amd64.Proofs.Instruction.Relocation
import Amd64.Proofs.Instruction.Stored
import Amd64.Proofs.Operand.Listing

/-!
The listing of an encoded instruction beside its machine code: a mnemonic and
then the operands, the source first. A register is shown at the width of its
variable and encoded at the width of the instruction.
`Instruction.shows_registers_of_encode` says where the two are the same.
-/

namespace Amd64

open Rendering

/-- The names of one register at two widths differ, so that a name tells the
width. -/
theorem Register.at_names_inj {number : Fin 16} {first second : Access} :
    (general number).names.at first = (general number).names.at second ↔ first = second := by
  revert number
  cases first <;> cases second <;> decide

namespace MachineInstruction

/-- The width at which an instruction reads or writes its general-purpose
registers, if it can have any. -/
def access? : MachineInstruction → Option Access
  | move access _ _ | loadAddress access _ _ => some access
  | setByte _ _ => some .byte
  | moveFloat _ _ _ | jump _ _ | compareLanes _ _ _ => none

/-- The operands in the order of a listing, the source first. -/
def listedOperands : MachineInstruction → List MachineOperand
  | move _ dest src | moveFloat _ dest src => [src, dest]
  | loadAddress _ dest src => [src, .general dest]
  | jump _ distance => [.relative distance]
  | setByte _ dest => [dest]
  | compareLanes _ dest src => [src, .xmm dest]

end MachineInstruction

namespace Instruction

/-- What a listing shows before the tab. -/
def mnemonic (f : Function) : Instruction → String
  | mov type _ _ => type.moveMnemonic
  | lea dest _ =>
      match f.lookup dest with
      | .ok var => "lea" ++ var.type.attributes.sizeSuffix
      | .error _ => "lea"
  | jcc condition _ => condition.jump
  | setcc condition _ => "set" ++ condition.name
  | cmpps predicate _ _ => "cmp" ++ predicate.name ++ "ps"

/-- What a listing shows of each operand, the source first. -/
def shownOperands (f : Function) : Instruction → List Rendering
  | mov _ dest src => [src.listing f, dest.listing f]
  | lea dest src => [src.listing f, f.listVariable dest]
  | jcc _ target => [ofText (".L" ++ Decimal.ofNat target.number.toNat)]
  | setcc _ dest => [listByte f dest]
  | cmpps _ dest src => [src.listing f, f.listVariable dest]

/-- The pieces of a listing are texts that pass failures on, each by itself. -/
theorem propagates_shownOperands (f : Function) (instruction : Instruction) :
    ∀ rendering ∈ instruction.shownOperands f, rendering.Propagates := by
  have hPair {first second : Rendering} (hFirst : first.Propagates)
      (hSecond : second.Propagates) : ∀ rendering ∈ [first, second], rendering.Propagates :=
    List.forall_mem_cons.mpr ⟨hFirst, List.forall_mem_singleton.mpr hSecond⟩
  cases instruction with
  | mov type dest src => exact hPair (src.propagates_listing f) (dest.propagates_listing f)
  | lea dest src => exact hPair (src.propagates_listing f) (f.propagates_listVariable dest)
  | jcc condition target => exact List.forall_mem_singleton.mpr (.ofText _)
  | setcc condition dest => exact List.forall_mem_singleton.mpr (propagates_listByte f dest)
  | cmpps predicate dest src =>
      exact hPair (src.propagates_listing f) (f.propagates_listVariable dest)

/-- The width of the name under which the register of a variable is shown. -/
def shownAccess (var : Variable) : Instruction → Access
  | setcc _ _ => .byte
  | _ => var.type.access

variable {f : Function} {instruction : Instruction} {a after between : Assembler} {form : Form}
  {text : String}

/-- A listing is the mnemonic and then the operands, with commas between them.
Without a limit it makes no difference how the mnemonic is split into
writes. -/
theorem run_listing (hResult : ∀ id ∈ instruction.result?, ∃ found, f.lookup id = .ok found) :
    (instruction.listing f).run =
      (ofText (instruction.mnemonic f ++ "\t") ++ separated (instruction.shownOperands f)).run := by
  cases instruction with
  | mov type dest src => simp only [listing, mnemonic, shownOperands, separated, append_assoc]
  | lea dest src =>
      obtain ⟨found, hFound⟩ := hResult dest rfl
      simp only [listing, mnemonic, shownOperands, separated, append_assoc, hFound, withValue]
  | jcc condition target =>
      have hText : "\t.L" = "\t" ++ ".L" := by decide
      simp only [listing, mnemonic, shownOperands, separated, hText, ← String.append_assoc]
      rw [String.append_assoc, run_ofText_append]
  | setcc condition dest => rfl
  | cmpps predicate dest src =>
      have hText : "ps\t" = "ps" ++ "\t" := by decide
      simp only [listing, mnemonic, shownOperands, separated, append_assoc, hText,
        String.append_assoc]

/-- The result of an instruction that has a form is in a register. What is
asked of the class of that register is left out here. -/
theorem FormedAs.result (h : instruction.FormedAs f a form between) {id : VariableId}
    (hResult : instruction.result? = some id) :
    ∃ found register, f.lookup id = .ok found ∧ found.register = some register := by
  cases h with
  | mov | setcc => cases hResult
  | lea hFound _ hRegister | cmpps hFound _ hRegister _ _ =>
      cases hResult
      exact ⟨_, _, hFound, hRegister⟩

/-- The result of an encoded instruction exists, so that its listing has a
mnemonic. -/
theorem lookup_of_encode (h : instruction.encode f a = .done () after) {id : VariableId}
    (hResult : instruction.result? = some id) : ∃ found, f.lookup id = .ok found := by
  rcases (encode_eq_done_iff _ _ _ _).mp h with ⟨_, _, rfl, -⟩ | ⟨_, _, hFormed, -⟩
  · cases hResult
  · obtain ⟨found, _, hFound, -⟩ := hFormed.result hResult
    exact ⟨found, hFound⟩

/-- A listing is shown exactly if all of its pieces are, and then it is their
texts behind the mnemonic. -/
theorem shows_listing_iff (hResult : ∀ id ∈ instruction.result?, ∃ found, f.lookup id = .ok found) :
    (instruction.listing f).Shows text ↔
      ∃ shown, List.Forall₂ Shows (instruction.shownOperands f) shown ∧
        text = instruction.mnemonic f ++ "\t" ++ ", ".intercalate shown := by
  unfold Shows
  rw [run_listing hResult]
  have hPropagates := instruction.propagates_shownOperands f
  have hOperands := Propagates.separated hPropagates
  change (ofText _ ++ separated _).Shows text ↔ _
  simp only [shows_append_iff, shows_ofText_iff, shows_separated_iff hPropagates]
  constructor
  · rintro ⟨_, _, rfl, ⟨shown, hShown, rfl⟩, rfl⟩
    exact ⟨shown, hShown, rfl⟩
  · rintro ⟨shown, hShown, rfl⟩
    exact ⟨_, _, rfl, ⟨shown, hShown, rfl⟩, rfl⟩

/-- A machine register is shown in this piece of a listing, as the register of
a variable. -/
structure ShowsRegister (f : Function) (instruction : Instruction) (machine : MachineInstruction)
    (number : Fin 16) (piece : String) (id : VariableId) (var : Variable) (access : Access) :
    Prop where
  names : instruction.Names id
  found : f.lookup id = .ok var
  register : var.register = some (.general number)
  /-- The width that a processor reads from the code. -/
  encoded : machine.access? = some access
  piece : piece = "%" ++ (Register.general number).names.at (instruction.shownAccess var)
  /-- Only a copy can be of another width than its variable. -/
  width : instruction.shownAccess var = access ∨
    ∃ type dest src, instruction = .mov type dest src ∧ access = type.access ∧
      var.type.access ≠ type.access

/-- The name of a register tells its width, so the piece has the encoded width
exactly if the shown width is that width. -/
theorem ShowsRegister.piece_eq_iff {machine : MachineInstruction} {number : Fin 16}
    {piece : String} {id : VariableId} {var : Variable} {access : Access}
    (h : instruction.ShowsRegister f machine number piece id var access) :
    piece = "%" ++ (Register.general number).names.at access ↔
      instruction.shownAccess var = access := by
  rw [h.piece, String.append_right_inj, Register.at_names_inj]

/-- A machine operand is shown in this piece of a listing. If it is a
general-purpose register, the piece is a name of that register, and it has the
encoded width exactly if the shown width is the same. -/
def ShowsOperand (f : Function) (instruction : Instruction) (machine : MachineInstruction)
    (piece : String) (operand : MachineOperand) : Prop :=
  ∀ number, operand = .general number → ∃ id var access,
    instruction.ShowsRegister f machine number piece id var access ∧
      (piece = "%" ++ (Register.general number).names.at access ↔
        instruction.shownAccess var = access)

/-- Showing a register is showing an operand; for other operands nothing is
claimed. -/
theorem ShowsRegister.showsOperand {machine : MachineInstruction} {number : Fin 16}
    {piece : String} {id : VariableId} {var : Variable} {access : Access}
    (h : instruction.ShowsRegister f machine number piece id var access) :
    instruction.ShowsOperand f machine piece (.general number) := by
  rintro _ ⟨⟩
  exact ⟨id, var, access, h, h.piece_eq_iff⟩

theorem showsOperand_of_ne {machine : MachineInstruction} {piece : String}
    {operand : MachineOperand} (h : ∀ number, operand ≠ .general number) :
    instruction.ShowsOperand f machine piece operand :=
  fun number hGeneral => absurd hGeneral (h number)

end Instruction

/-- An operand that is placed in a general-purpose register is shown as the
variable in it, at the width of that variable and not of the operation. -/
theorem Operand.LocatedAt.shows_general {f : Function} {operand : Operand} {place : Place}
    {a after : Assembler} {access : Access} {number : Fin 16} {piece : String}
    (h : operand.LocatedAt f a place after) (hPlace : place.machine access = .general number)
    (hPiece : (operand.listing f).Shows piece) :
    ∃ id var, operand = .var id ∧ f.lookup id = .ok var ∧
      var.register = some (.general number) ∧
      piece = "%" ++ (Register.general number).names.at var.type.access := by
  obtain ⟨id, var, rfl, hFound, hRegister, -⟩ :=
    h.eq_var_of_general ((h.machine access).trans (congrArg some hPlace))
  exact ⟨id, var, rfl, hFound, hRegister,
    ((Function.shows_listVariable_of_register_iff hFound hRegister piece).mp hPiece).2⟩

namespace Form

/-- Copies of floats and vectors have no general-purpose registers as operands;
those inside addresses are not meant. -/
theorem CopiesFloat.ne_general {type : ValueType} {dest src : Place} {form : Form}
    (h : CopiesFloat type dest src form) (access : Access) (number : Fin 16) :
    dest.machine access ≠ .general number ∧ src.machine access ≠ .general number := by
  cases h <;> exact ⟨nofun, nofun⟩

/-- Nor have comparisons of lanes, whose source is in an XMM register or in
memory. -/
theorem IsOther.ne_general {src : Place} {other : RegisterOrMemory}
    (h : IsOther .xmm src other) (access : Access) (number : Fin 16) :
    src.machine access ≠ .general number := by
  cases h <;> exact nofun

end Form

namespace Instruction

variable {f : Function} {instruction : Instruction} {a after between : Assembler} {form : Form}
  {text : String}

/-- A register operand of a copy is shown at the width of its variable. If the
type of the copy has another width, this is where text and code part. -/
theorem showsOperand_of_mov {type : ValueType} {dest src operand : Operand} {place : Place}
    {machineDest machineSrc : MachineOperand} (hOperand : operand ∈ [dest, src])
    (hLocated : operand.LocatedAt f a place after) (piece : String)
    (hPiece : (operand.listing f).Shows piece) :
    (Instruction.mov type dest src).ShowsOperand f (.move type.access machineDest machineSrc) piece
      (place.machine type.access) := by
  intro number hGeneral
  obtain ⟨id, var, rfl, hFound, hRegister, hName⟩ := hLocated.shows_general hGeneral hPiece
  have hWidth : var.type.access = type.access ∨ ∃ other otherDest otherSrc,
      Instruction.mov type dest src = .mov other otherDest otherSrc ∧
        type.access = other.access ∧ var.type.access ≠ other.access := by
    by_cases hSame : var.type.access = type.access
    · exact Or.inl hSame
    · exact Or.inr ⟨type, dest, src, rfl, rfl, hSame⟩
  have hShows : (Instruction.mov type dest src).ShowsRegister f
      (.move type.access machineDest machineSrc) number piece id var type.access :=
    ⟨Or.inl hOperand, hFound, hRegister, rfl, hName, hWidth⟩
  exact ⟨id, var, _, hShows, hShows.piece_eq_iff⟩

/-- Piece by piece, the operands of an instruction that has a form are shown.
The order of the pieces is that of the operands, the source first. -/
theorem FormedAs.shows_operands (h : instruction.FormedAs f a form between) {distance : Int32}
    {machine : MachineInstruction} (hMachine : instruction.machine? f distance = some machine) :
    List.Forall₂ (fun (rendering : Rendering) operand => ∀ piece, rendering.Shows piece →
        instruction.ShowsOperand f machine piece operand)
      (instruction.shownOperands f) machine.listedOperands := by
  cases h with
  | @mov type dest src d s _ _ _ hDest hSrc hForm =>
      simp only [machine?, hDest.machine, hSrc.machine] at hMachine
      rcases (Form.move_eq_ok_iff _ _ _ _).mp hForm with ⟨hXmm, hCopy⟩ | ⟨hXmm, -⟩
      · simp only [hXmm, if_true] at hMachine
        cases hMachine
        exact .cons (fun _ _ => showsOperand_of_ne fun number => (hCopy.ne_general _ number).2)
          (.cons (fun _ _ => showsOperand_of_ne fun number => (hCopy.ne_general _ number).1) .nil)
      · simp only [hXmm, Bool.false_eq_true, if_false] at hMachine
        cases hMachine
        exact .cons (showsOperand_of_mov (by simp) hSrc)
          (.cons (showsOperand_of_mov (by simp) hDest) .nil)
  | @lea dest src found number wide address _ hFound hType hRegister hAddress =>
      simp only [machine?, hFound, generalRegister?_eq hFound hRegister,
        MemoryOperand.reference?_of_toAddress hAddress] at hMachine
      cases hMachine
      refine .cons (fun _ _ => showsOperand_of_ne (by simp)) (.cons ?_ .nil)
      intro piece hPiece
      have hName :=
        ((Function.shows_listVariable_of_register_iff hFound hRegister piece).mp hPiece).2
      exact ShowsRegister.showsOperand
        ⟨Or.inr rfl, hFound, hRegister, rfl, hName, Or.inl rfl⟩
  | @setcc condition dest d _ _ hDest hForm =>
      simp only [machine?, hDest.machine] at hMachine
      cases hMachine
      refine .cons ?_ .nil
      intro piece hPiece number hGeneral
      obtain ⟨id, var, rfl, hFound, hRegister, -⟩ :=
        hDest.eq_var_of_general ((hDest.machine .byte).trans (congrArg some hGeneral))
      have hName : piece = "%" ++ (Register.general number).nameFor .i8 := by
        simpa [listByte, hFound, hRegister, withValue] using hPiece
      have hShows : (Instruction.setcc condition (.var id)).ShowsRegister f
          (.setByte condition (d.machine .byte)) number piece id var .byte :=
        ⟨Or.inl (.head _), hFound, hRegister, rfl, hName, Or.inl rfl⟩
      exact ⟨id, var, _, hShows, hShows.piece_eq_iff⟩
  | @cmpps predicate dest src found number s _ _ hFound hType hRegister hSrc hForm =>
      obtain ⟨other, hOther, -⟩ := (Form.compareLanes_eq_ok_iff _ _ _ _).mp hForm
      simp only [machine?, xmmRegister?_eq hFound hRegister, hSrc.machine] at hMachine
      cases hMachine
      exact .cons (fun _ _ => showsOperand_of_ne fun number => hOther.ne_general _ number)
        (.cons (fun _ _ => showsOperand_of_ne (by simp)) .nil)

theorem shows_operands_of_encode (h : instruction.encode f a = .done () after)
    {distance : Int32} {machine : MachineInstruction}
    (hMachine : instruction.machine? f distance = some machine) {shown : List String}
    (hShown : List.Forall₂ Shows (instruction.shownOperands f) shown) :
    List.Forall₂ (instruction.ShowsOperand f machine) shown machine.listedOperands := by
  apply forall₂_of_shows hShown
  rcases (encode_eq_done_iff _ _ _ _).mp h with ⟨condition, target, rfl, -⟩ | ⟨_, _, hFormed, -⟩
  · cases hMachine
    exact .cons (fun _ _ => showsOperand_of_ne (by simp)) .nil
  · exact hFormed.shows_operands hMachine

/-- Code and listing name the same registers. What a processor reads from the
bytes of an encoded instruction is what the instruction stands for, and every
general-purpose register in it is shown in its place as the register of a
variable. The name has the width that is encoded, but for copies whose type is
not as wide as the variable. -/
theorem shows_registers_of_encode (h : instruction.encode f a = .done () after)
    (hText : (instruction.listing f).Shows text) :
    ∃ code machine shown, after.bytes = a.bytes ++ code ∧
      (∀ rest, MachineInstruction.read (code ++ rest) = some (machine, rest)) ∧
      instruction.machine? f (instruction.distance a) = some machine ∧
      text = instruction.mnemonic f ++ "\t" ++ ", ".intercalate shown ∧
      List.Forall₂ Shows (instruction.shownOperands f) shown ∧
      List.Forall₂ (instruction.ShowsOperand f machine) shown machine.listedOperands := by
  obtain ⟨shown, hShown, rfl⟩ := (shows_listing_iff fun _ => lookup_of_encode h).mp hText
  rcases (encode_eq_done_iff _ _ _ _).mp h with
    ⟨condition, target, rfl, hJump⟩ | ⟨form, between, hFormed, hEmit⟩
  · exact ⟨_, _, shown, Assembler.bytes_of_emitJump hJump,
      MachineInstruction.read_jump condition _, rfl, rfl, hShown,
      shows_operands_of_encode h rfl hShown⟩
  · obtain ⟨machine, hMachine, hRead⟩ := hFormed.read (instruction.distance a)
    obtain ⟨fixups, rfl⟩ := hFormed.after_eq
    exact ⟨form.bytes, machine, shown, (Form.emit_extends hEmit).1, hRead, hMachine, rfl, hShown,
      shows_operands_of_encode h hMachine hShown⟩

/-- A condition sets a byte of a register that only a REX prefix names. The
listing shows that byte although the variable has four. -/
theorem shows_registers_of_encode_setcc :
    let f : Function := ⟨"f", .initial, #[⟨"z", .i32, some (.general ⟨6, by decide⟩), 0, false⟩]⟩
    let setcc : Instruction := .setcc .e (.var ⟨0⟩)
    let after : Assembler := ⟨[0x40, 0x0F, 0x94, 0xC6], [], []⟩
    setcc.encode f .empty = .done () after ∧ (setcc.listing f).Shows "sete\t%sil" ∧
      ∃ code machine shown, after.bytes = Assembler.empty.bytes ++ code ∧
        (∀ rest, MachineInstruction.read (code ++ rest) = some (machine, rest)) ∧
        setcc.machine? f (setcc.distance .empty) = some machine ∧
        "sete\t%sil" = setcc.mnemonic f ++ "\t" ++ ", ".intercalate shown ∧
        List.Forall₂ Shows (setcc.shownOperands f) shown ∧
        List.Forall₂ (setcc.ShowsOperand f machine) shown machine.listedOperands := by
  intro f setcc after
  have hEncode : setcc.encode f .empty = .done () after := by rfl
  have hText : (setcc.listing f).Shows "sete\t%sil" := by decide
  exact ⟨hEncode, hText, shows_registers_of_encode hEncode hText⟩

/-- A copy of one byte between variables of four. The code moves `cl` to `al`,
and the listing shows both registers at their four bytes, under a mnemonic for
one. -/
theorem listing_mov_byte_of_long :
    let f : Function := ⟨"f", .initial, #[⟨"a", .i32, some (.general ⟨0, by decide⟩), 0, false⟩,
      ⟨"b", .i32, some (.general ⟨1, by decide⟩), 0, false⟩]⟩
    let copy : Instruction := .mov .i8 (.var ⟨0⟩) (.var ⟨1⟩)
    let after : Assembler := ⟨[0x88, 0xC8], [], []⟩
    let machine : MachineInstruction := .move .byte (.general ⟨0, by decide⟩)
      (.general ⟨1, by decide⟩)
    copy.encode f .empty = .done () after ∧ (copy.listing f).Shows "movb\t%ecx, %eax" ∧
      MachineInstruction.read after.bytes = some (machine, []) ∧
      copy.ShowsRegister f machine ⟨1, by decide⟩ "%ecx" ⟨1⟩
        ⟨"b", .i32, some (.general ⟨1, by decide⟩), 0, false⟩ .byte ∧
      "%ecx" ≠ "%" ++ (Register.general ⟨1, by decide⟩).names.at .byte := by
  intro f copy after machine
  refine ⟨by rfl, by decide, by rfl, ?_, by decide⟩
  exact ⟨Or.inl (by decide), rfl, rfl, rfl, rfl, Or.inr ⟨.i8, _, _, rfl, rfl, by decide⟩⟩

end Instruction

end Amd64
