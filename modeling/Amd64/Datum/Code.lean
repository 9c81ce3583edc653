import Amd64.Assembler.Basic
import Amd64.Datum.Operand
import Amd64.Inspection

/-!
The stored forms of addresses, fixups, instructions, finished code and
refusals. The cases of addresses and instructions store their fields as
objects, and are read from a parsed value in which they are objects.
-/

namespace Amd64

open Datum

namespace Address

/-- Whether the form with this name has a base and whether it has an index. -/
def formParts? : String → Option (Bool × Bool)
  | "Absolute" => some (false, false)
  | "Base" => some (true, false)
  | "Index" => some (false, true)
  | "BaseIndex" => some (true, true)
  | _ => none

/-- The base among the fields of a form, if the form has one. -/
def loadBase (present : Bool) (entries : List (String × Datum)) :
    Except LoadError (Option RegisterNumber) :=
  if present then do
    let register ← field? entries "base"
    return some (← required register)
  else .ok none

/-- The index among the fields of a form, if the form has one. -/
def loadIndex (present : Bool) (entries : List (String × Datum)) :
    Except LoadError (Option ScaledIndex) :=
  if present then do
    let register ← field? entries "index"
    let scale ← field? entries "scale"
    return some ⟨← required register, ← required scale⟩
  else .ok none

end Address

/-- The fields of a form are read from an object, as they stand in a value that
was parsed before. Where an address is read straight from text, a list of the
fields in their order would do as well; that way of reading is not modelled.
Nothing is checked about the register numbers. -/
instance : Storable Address where
  store address :=
    let base := address.base.toList.map fun register => ("base", store register)
    let index := address.index.toList.flatMap fun scaled =>
      [("index", store scaled.register), ("scale", store scaled.scale)]
    object [(address.formName, object (base ++ index ++ [
      ("disp", store address.displacement), ("fixup", store address.fixup)]))]
  load d := do
    let (name, content) ← d.asCaseOf
    let (hasBase, hasIndex) ← required (Address.formParts? name)
    let entries ← content.fields
    let base ← Address.loadBase hasBase entries
    let displacement ← field? entries "disp"
    let fixup ← optionalField entries "fixup"
    let index ← Address.loadIndex hasIndex entries
    return ⟨base, index, ← required displacement, fixup⟩

instance : Storable Fixup where
  store fixup := object [
    ("kind", store fixup.kind),
    ("symbol", store fixup.symbol),
    ("position", store fixup.position)]
  load d := do
    let entries ← d.recordFields ["kind", "symbol", "position"]
    let kind ← field? entries "kind"
    let position ← optionalField entries "position"
    let symbol ← field? entries "symbol"
    return ⟨← required kind, ← required symbol, position⟩

instance : Storable AssembledCode where
  store code := object [("bytes", store code.bytes), ("fixups", store code.fixups)]
  load d := do
    let entries ← d.recordFields ["bytes", "fixups"]
    let bytes ← field? entries "bytes"
    let fixups ← field? entries "fixups"
    return ⟨← required bytes, ← required fixups⟩

/-- The fields of a case are read from an object, as for addresses: the list of
fields that would do as well in an instruction read straight from text is not
modelled. -/
instance : Storable Instruction where
  store
    | .mov type dest src =>
        object [("Mov", object [("ty", store type), ("dest", store dest), ("src", store src)])]
    | .lea dest src => object [("Lea", object [("dest", store dest), ("src", store src)])]
    | .jcc condition target =>
        object [("Br", object [("cond", store condition), ("target", store target)])]
    | .setcc condition dest =>
        object [("Setcc", object [("cond", store condition), ("dest", store dest)])]
    | .cmpps predicate dest src =>
        object [("Cmpps", object [
          ("pred", store predicate), ("dest", store dest), ("src", store src)])]
  load d := do
    let (name, content) ← d.asCaseOf
    match name with
    | "Mov" =>
        let entries ← content.fields
        let dest ← field? entries "dest"
        let src ← field? entries "src"
        let type ← field? entries "ty"
        return .mov (← required type) (← required dest) (← required src)
    | "Lea" =>
        let entries ← content.fields
        let dest ← field? entries "dest"
        let src ← field? entries "src"
        return .lea (← required dest) (← required src)
    | "Br" =>
        let entries ← content.fields
        let condition ← field? entries "cond"
        let target ← field? entries "target"
        return .jcc (← required condition) (← required target)
    | "Setcc" =>
        let entries ← content.fields
        let condition ← field? entries "cond"
        let dest ← field? entries "dest"
        return .setcc (← required condition) (← required dest)
    | "Cmpps" =>
        let entries ← content.fields
        let dest ← field? entries "dest"
        let predicate ← field? entries "pred"
        let src ← field? entries "src"
        return .cmpps (← required predicate) (← required dest) (← required src)
    | _ => .error .malformed

/-- The name of the kind of a refusal. -/
def Refusal.kind : Refusal → String
  | invalidShift _ => "InvalidShift"
  | invalidOperands _ _ => "InvalidOperands"
  | unsupportedType _ _ => "UnsupportedType"
  | unplacedFixup _ => "UnplacedFixup"
  | unboundLabel _ => "UnboundLabel"

/-- The stored form of a refusal, which is written and never read. -/
def Refusal.toDatum (refusal : Refusal) : Datum :=
  let fields := match refusal with
    | invalidShift shift => [("shift", store shift)]
    | invalidOperands mnemonic misuse =>
        [("mnemonic", store mnemonic), ("detail", store misuse.text)]
    | unsupportedType mnemonic type => [("mnemonic", store mnemonic), ("ty", store type)]
    | unplacedFixup symbol => [("symbol", store symbol)]
    | unboundLabel label => [("label", store label)]
  object [(refusal.kind, object fields)]

end Amd64
