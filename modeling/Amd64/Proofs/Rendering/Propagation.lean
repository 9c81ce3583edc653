import Amd64.Instruction.Listing
import Amd64.Proofs.Rendering.Sink

/-!
Renderer by renderer: every one passes the failure of each of its writes on.
The lemmas follow the texts from the inside out, constants and variables first,
then operands, and instructions at last.
-/

namespace Amd64

open Rendering

instance Relocatable.propagates_text (target : Relocatable) : target.text.Propagates :=
  .append (.ofText target.symbol) (.ofText (Decimal.addend target.addend))

instance Relocatable.propagates_dump (target : Relocatable) : target.dump.Propagates :=
  .append (.ofText "@") target.propagates_text

namespace Constant

instance propagates_dump (constant : Constant) : constant.dump.Propagates := by
  cases constant with
  | integer value => exact .ofText (Decimal.ofWord value)
  | relocatable target => exact target.propagates_dump

instance propagates_bare (constant : Constant) : constant.bare.Propagates := by
  cases constant with
  | integer value => exact .ofText (Decimal.ofWord value)
  | relocatable target => exact target.propagates_text

instance propagates_listing (constant : Constant) : constant.listing.Propagates :=
  .append (.ofText "$") constant.propagates_bare

end Constant

/-- A variable is one piece of text, in a register or not. -/
instance Variable.propagates_dump (var : Variable) : var.dump.Propagates := by
  unfold dump
  cases var.register with
  | some register => exact .ofText ("%" ++ register.nameFor var.type)
  | none => exact .ofText ("%" ++ var.name)

namespace Function

variable (f : Function)

instance propagates_dumpVariable (id : VariableId) : (f.dumpVariable id).Propagates :=
  .withValue Variable.propagates_dump

instance propagates_dumpScaled (scale : Scale) (id : VariableId) :
    (f.dumpScaled scale id).Propagates :=
  .append (.ite (.ofText (Decimal.ofNat scale.factor ++ "*")) .done) (f.propagates_dumpVariable id)

instance propagates_listSlot (displacement : Int32) : (f.listSlot displacement).Propagates :=
  .append (.ite .done (.ofText (Decimal.ofWord displacement)))
    (.ofText ("(%" ++ f.slotBase.name ++ ")"))

instance propagates_listVariable (id : VariableId) : (f.listVariable id).Propagates := by
  refine .withValue fun found => .ite (.stop (.rematerializableOperand found.name)) ?_
  cases found.register with
  | some register => exact .ofText ("%" ++ register.nameFor found.type)
  | none => exact f.propagates_listSlot found.stackOffset

instance propagates_listAddressRegister (id : VariableId) :
    (f.listAddressRegister id).Propagates :=
  .withValue fun register => .ofText ("%" ++ register.name)

instance propagates_listScaled (scale : Scale) (id : VariableId) :
    (f.listScaled scale id).Propagates :=
  .append (.append (.ofText ",") (f.propagates_listAddressRegister id))
    (.ite (.ofText ("," ++ Decimal.ofNat scale.factor)) .done)

end Function

namespace MemoryOperand

variable (f : Function) (operand : MemoryOperand)

/-- The events of the base are no text, and take no room. Whether the base
stands for a number is decided before anything is written. -/
theorem propagates_withBaseDisplacement {next : Int32 → Rendering}
    (h : ∀ displacement, (next displacement).Propagates) :
    (operand.withBaseDisplacement f next).Propagates :=
  .withValue fun displacement => .append (.note (operand.baseEvents f)) (h displacement)

instance {next : Int32 → Rendering} [h : ∀ displacement, (next displacement).Propagates] :
    (operand.withBaseDisplacement f next).Propagates :=
  operand.propagates_withBaseDisplacement f h

instance propagates_dumpVariables : (operand.dumpVariables f).Propagates :=
  .append (.withOption f.propagates_dumpVariable) (.withOption fun id =>
    .append (.ite (.ofText "+") .done) (f.propagates_dumpScaled operand.scale id))

instance propagates_dumpOffset (offset : Option Constant) (alone : Bool) :
    (dumpOffset offset alone).Propagates := by
  cases offset with
  | none =>
      cases alone with
      | true => exact .ofText "0"
      | false => exact .done
  | some constant =>
      cases alone with
      | true => exact constant.propagates_dump
      | false =>
          cases constant with
          | integer value =>
              exact .ite .done (.ite (.ofText (Decimal.ofWord value))
                (.append (.ofText "+") (.ofText (Decimal.ofWord value))))
          | relocatable target => exact .append (.ofText "+") target.propagates_dump

instance propagates_dump : (operand.dump f).Propagates := by
  refine .append (.ofText "[") (operand.propagates_withBaseDisplacement f fun displacement => ?_)
  exact .append (.append (.append (operand.propagates_dumpVariables f)
    (.ofText (Decimal.addend displacement))) (propagates_dumpOffset _ _)) (.ofText "]")

instance propagates_listOffset (displacement : Int32) :
    (operand.listOffset displacement).Propagates := by
  unfold listOffset
  rcases operand.offset with _ | value | target
  · exact .ite .done (.ofText (Decimal.ofWord displacement))
  · exact .ite .done (.ofText (Decimal.ofWord (value + displacement)))
  · exact .ite target.propagates_text (.stop (.rematerializedSymbol target.symbol displacement))

instance propagates_listRegisters : (operand.listRegisters f).Propagates :=
  .ite .done (.append (.append (.append (.ofText "(")
    (.withOption f.propagates_listAddressRegister))
    (.withOption (f.propagates_listScaled operand.scale))) (.ofText ")"))

/-- The index is checked between the base and the first write, so that a fault
of it is reached whether there is room or not. -/
instance propagates_listing : (operand.listing f).Propagates :=
  operand.propagates_withBaseDisplacement f fun displacement =>
    .withValue fun _ =>
      .append (operand.propagates_listOffset displacement) (operand.propagates_listRegisters f)

end MemoryOperand

instance SlotHalf.propagates_dump (f : Function) (part : SlotHalf) : (part.dump f).Propagates :=
  .append (.append (.ofText (part.half.name ++ "(")) (f.propagates_dumpVariable part.slot))
    (.ofText ")")

instance SlotHalf.propagates_listing (f : Function) (part : SlotHalf) :
    (part.listing f).Propagates :=
  .withValue f.propagates_listSlot

instance Operand.propagates_dump (f : Function) (operand : Operand) :
    (operand.dump f).Propagates := by
  cases operand with
  | var id => exact f.propagates_dumpVariable id
  | constant value => exact value.propagates_dump
  | memory part => exact part.propagates_dump f
  | half part => exact part.propagates_dump f

instance Operand.propagates_listing (f : Function) (operand : Operand) :
    (operand.listing f).Propagates := by
  cases operand with
  | var id => exact f.propagates_listVariable id
  | constant value => exact value.propagates_listing
  | memory part => exact part.propagates_listing f
  | half part => exact part.propagates_listing f

namespace Instruction

variable (f : Function)

/-- Two operands stand with a comma between them. Each of the four writes may
be the one that fails. -/
theorem propagates_pair {first second : Rendering} (hFirst : first.Propagates)
    (hSecond : second.Propagates) (mnemonic : String) :
    (ofText mnemonic ++ first ++ ofText ", " ++ second).Propagates :=
  .append (.append (.append (.ofText mnemonic) hFirst) (.ofText ", ")) hSecond

instance propagates_dump (instruction : Instruction) : (instruction.dump f).Propagates := by
  cases instruction with
  | mov type dest src => exact propagates_pair (dest.propagates_dump f) (src.propagates_dump f) _
  | lea dest src =>
      exact .withValue fun found =>
        .append (.append found.propagates_dump (.ofText _)) (src.propagates_dump f)
  | jcc condition target => exact .ofText _
  | setcc condition dest => exact .append (.ofText _) (dest.propagates_dump f)
  | cmpps predicate dest src =>
      exact .withValue fun found =>
        .append (.append (.append (.append found.propagates_dump (.ofText _))
          found.propagates_dump) (.ofText ", ")) (src.propagates_dump f)

instance propagates_listByte (dest : Operand) : (listByte f dest).Propagates := by
  cases dest with
  | var id =>
      refine .withValue fun found => ?_
      cases found.register with
      | some register => exact .ofText ("%" ++ register.nameFor .i8)
      | none => exact f.propagates_listVariable id
  | constant value => exact value.propagates_listing
  | memory part => exact part.propagates_listing f
  | half part => exact part.propagates_listing f

instance propagates_listing (instruction : Instruction) : (instruction.listing f).Propagates := by
  cases instruction with
  | mov type dest src =>
      exact propagates_pair (src.propagates_listing f) (dest.propagates_listing f) _
  | lea dest src =>
      exact .withValue fun found =>
        propagates_pair (src.propagates_listing f) (f.propagates_listVariable dest) _
  | jcc condition target => exact .ofText _
  | setcc condition dest => exact .append (.ofText _) (propagates_listByte f dest)
  | cmpps predicate dest src =>
      exact propagates_pair (src.propagates_listing f) (f.propagates_listVariable dest) _

end Instruction

end Amd64
