import Amd64.Address.Basic
import Amd64.Instruction.Basic
import Amd64.Text.Unprintable

/-!
The structure of instructions and addresses as one line of text, constructor by
constructor, for logs. Records show their fields by name between braces, and
texts stand between double quotes, with a backslash before the characters that
need one.
-/

namespace Amd64

namespace Text

/-- The text of one character inside quotes. -/
def quotedChar (c : Char) : List Char :=
  if c = '"' then ['\\', '"']
  else if c = '\\' then ['\\', '\\']
  else if c = '\n' then ['\\', 'n']
  else if c = '\r' then ['\\', 'r']
  else if c = '\t' then ['\\', 't']
  else if c.toNat = 0 then ['\\', '0']
  else if isUnprintable c then
    ['\\', 'u', '\x7b'] ++ Nat.toDigits 16 c.toNat ++ ['\x7d']
  else [c]

def quoted (text : String) : String :=
  "\"" ++ String.ofList (text.toList.flatMap quotedChar) ++ "\""

end Text

namespace Inspection

/-- A constructor with one argument. -/
def wrap (name part : String) : String :=
  name ++ "(" ++ part ++ ")"

/-- A constructor with named fields. -/
def record (name : String) (fields : List (String × String)) : String :=
  name ++ " \x7b " ++
    String.intercalate ", " (fields.map fun (key, part) => key ++ ": " ++ part) ++ " \x7d"

def optional {α : Type} (inspect : α → String) : Option α → String
  | none => "None"
  | some value => wrap "Some" (inspect value)

def sequence (parts : List String) : String :=
  "[" ++ String.intercalate ", " parts ++ "]"

end Inspection

open Inspection

def VariableId.inspect (id : VariableId) : String :=
  wrap "VarId" (Decimal.ofNat id.number.toNat)

def Label.inspect (label : Label) : String :=
  wrap "Label" (Decimal.ofNat label.number.toNat)

def FixupRef.inspect (ref : FixupRef) : String :=
  wrap "FixupRef" (Decimal.ofNat ref.number.toNat)

def UseList.inspect (uses : UseList) : String :=
  sequence (uses.toList.map VariableId.inspect)

def RegisterNumber.inspect (register : RegisterNumber) : String :=
  wrap "GprEncoding" (Decimal.ofNat register.value.toNat)

def Constant.inspect : Constant → String
  | integer value => wrap "Integer" (Decimal.ofWord value)
  | relocatable target =>
      wrap "Relocatable" (record "RelocatableConstant" [
        ("symbol", Text.quoted target.symbol),
        ("offset", Decimal.ofWord target.addend)])

def MemoryOperand.inspect (operand : MemoryOperand) : String :=
  record "MemOperand" [
    ("ty", operand.type.tag),
    ("base", optional VariableId.inspect operand.base),
    ("index", optional VariableId.inspect operand.index),
    ("offset", optional Constant.inspect operand.offset),
    ("shift", Decimal.ofNat operand.scale.shift),
    ("vars", operand.uses.inspect)]

def SlotHalf.inspect (part : SlotHalf) : String :=
  record "VariableSplit" [
    ("var", part.slot.inspect),
    ("part", part.half.tag),
    ("offset", Decimal.ofWord part.offset)]

def Operand.inspect : Operand → String
  | var id => wrap "Var" id.inspect
  | constant value => wrap "Const" value.inspect
  | memory operand => wrap "Mem" operand.inspect
  | half part => wrap "Split" part.inspect

def Instruction.inspect : Instruction → String
  | mov type dest src =>
      record "Mov" [("ty", type.tag), ("dest", dest.inspect), ("src", src.inspect)]
  | lea dest src => record "Lea" [("dest", dest.inspect), ("src", src.inspect)]
  | jcc condition target => record "Br" [("cond", condition.tag), ("target", target.inspect)]
  | setcc condition dest => record "Setcc" [("cond", condition.tag), ("dest", dest.inspect)]
  | cmpps predicate dest src =>
      record "Cmpps" [("pred", predicate.tag), ("dest", dest.inspect), ("src", src.inspect)]

/-- The name of the form that an address has, after the registers in it. -/
def Address.formName (address : Address) : String :=
  match address.base, address.index with
  | none, none => "Absolute"
  | some _, none => "Base"
  | none, some _ => "Index"
  | some _, some _ => "BaseIndex"

def Address.inspect (address : Address) : String :=
  let base := address.base.toList.map fun register => ("base", register.inspect)
  let index := address.index.toList.flatMap fun scaled =>
    [("index", scaled.register.inspect), ("scale", scaled.scale.tag)]
  record address.formName (base ++ index ++ [
    ("disp", Decimal.ofWord address.displacement),
    ("fixup", optional FixupRef.inspect address.fixup)])

end Amd64
