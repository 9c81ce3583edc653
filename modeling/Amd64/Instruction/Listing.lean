import Amd64.Operand.Listing

/-!
Instructions as text: debug text with the destination first, and assembly text
with the source first and a tab after the mnemonic.
-/

namespace Amd64

open Rendering

/-- The mnemonic that copies a value of this type. -/
def ValueType.moveMnemonic (type : ValueType) : String :=
  if type.isFloat then "mov" ++ type.attributes.scalarSuffix
  else if type.isVector then "movups"
  else "mov" ++ type.attributes.sizeSuffix

namespace Instruction

/-- The debug text of an instruction, the destination first. -/
def dump (f : Function) : Instruction → Rendering
  | mov type dest src =>
      ofText ("mov." ++ type.text ++ " ") ++ dest.dump f ++ ofText ", " ++ src.dump f
  | lea dest src =>
      withValue (f.lookup dest) fun var =>
        var.dump ++ ofText (" = lea." ++ var.type.text ++ " ") ++ src.dump f
  | jcc condition target =>
      ofText ("br " ++ condition.name ++ ", label %L" ++ Decimal.ofNat target.number.toNat)
  | setcc condition dest => ofText ("setcc." ++ condition.name ++ " ") ++ dest.dump f
  | cmpps predicate dest src =>
      withValue (f.lookup dest) fun var =>
        var.dump ++ ofText (" = cmp" ++ predicate.name ++ "ps." ++ var.type.text ++ " ") ++
          var.dump ++ ofText ", " ++ src.dump f

/-- The destination of a byte that a condition sets. A register shows the name
of its low byte, whatever the type of the variable in it. -/
def listByte (f : Function) (dest : Operand) : Rendering :=
  match dest with
  | .var id =>
      withValue (f.lookup id) fun var =>
        match var.register with
        | some register => ofText ("%" ++ register.nameFor .i8)
        | none => dest.listing f
  | _ => dest.listing f

/-- An instruction as an assembler reads it, the source first. -/
def listing (f : Function) : Instruction → Rendering
  | mov type dest src =>
      ofText (type.moveMnemonic ++ "\t") ++ src.listing f ++ ofText ", " ++ dest.listing f
  | lea dest src =>
      withValue (f.lookup dest) fun var =>
        ofText ("lea" ++ var.type.attributes.sizeSuffix ++ "\t") ++ src.listing f ++
          ofText ", " ++ f.listVariable dest
  | jcc condition target =>
      ofText (condition.jump ++ "\t.L" ++ Decimal.ofNat target.number.toNat)
  | setcc condition dest => ofText ("set" ++ condition.name ++ "\t") ++ listByte f dest
  | cmpps predicate dest src =>
      ofText ("cmp" ++ predicate.name ++ "ps\t") ++ src.listing f ++ ofText ", " ++
        f.listVariable dest

end Instruction

end Amd64
