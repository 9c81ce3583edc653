import Amd64.Inspection

/-!
What code generation tells a log about its work: which instruction it takes up,
what its operands become, and where fixups and labels come to stand.
-/

namespace Amd64

/-- How closely a reader of the log follows the work. -/
inductive LogLevel where
  | trace
  | debug
  deriving DecidableEq

def LogLevel.name : LogLevel → String
  | trace => "TRACE"
  | debug => "DEBUG"

inductive Event where
  /-- The encoding of an instruction began at this position. -/
  | encoding (instruction : Instruction) (position : Nat)
  /-- The encoding was given up, and its traces were removed. -/
  | rolledBack (reason : Refusal)
  /-- A rematerializable variable became a displacement. -/
  | rematerialized (name : String) (displacement : Int32)
  | translated (address : Address)
  | fixupCreated (ref : FixupRef) (kind : FixupKind) (symbol : String)
  /-- The place that a fixup fills became known. -/
  | fixupPlaced (ref : FixupRef) (symbol : String) (position : Nat)
  /-- A label was bound, and this many fields had waited for it. -/
  | labelBound (label : Label) (position waiting : Nat)

namespace Event

def level : Event → LogLevel
  | rolledBack _ | fixupCreated _ _ _ | labelBound _ _ _ => .debug
  | encoding _ _ | rematerialized _ _ | translated _ | fixupPlaced _ _ _ => .trace

/-- The line that a log shows. -/
def message : Event → String
  | encoding instruction position =>
      "encode " ++ instruction.inspect ++ " at " ++ Decimal.ofNat position
  | rolledBack reason => "encode failed, rolling back: " ++ reason.message
  | rematerialized name displacement =>
      "remat %" ++ name ++ " -> disp " ++ Decimal.ofWord displacement
  | translated address => "mem operand -> " ++ address.inspect
  | fixupCreated ref kind symbol =>
      "create fixup #" ++ Decimal.ofNat ref.number.toNat ++ " " ++ kind.text ++ " -> " ++ symbol
  | fixupPlaced ref symbol position =>
      "fixup #" ++ Decimal.ofNat ref.number.toNat ++ " (" ++ symbol ++ ") at offset " ++
        Decimal.ofNat position
  | labelBound label position waiting =>
      "bind L" ++ Decimal.ofNat label.number.toNat ++ " at " ++ Decimal.ofNat position ++ " (" ++
        Decimal.ofNat waiting ++ " forward refs)"

end Event

end Amd64
