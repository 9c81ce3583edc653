import Amd64.Refusal

/-!
Values of a self-describing data format, and how they are taken apart. Objects
have distinct keys, and the order of the keys has no meaning.
-/

namespace Amd64

/-- A value of the data format. -/
inductive Datum where
  | null
  | boolean (value : Bool)
  | integer (value : Int)
  /-- A number with a fraction or an exponent. Nothing here reads one. -/
  | fraction
  | string (text : String)
  | array (parts : List Datum)
  | object (entries : List (String × Datum))
  deriving Inhabited

/-- Why a value cannot be read. -/
inductive LoadError where
  /-- The value does not have the form that was asked for. -/
  | malformed
  /-- The value has the form, and what it says is refused. -/
  | refused (reason : Refusal)
  | tooManyUses (count : Nat)
  deriving DecidableEq

/-- The explanation of an error that is not about the form alone. -/
def LoadError.explanation? : LoadError → Option String
  | malformed => none
  | refused reason => some reason.message
  | tooManyUses count =>
      some ("too many variables: " ++ Decimal.ofNat count ++ " > 2")

/-- A type whose values can be written in the data format and read back. -/
class Storable (α : Type) where
  store : α → Datum
  load : Datum → Except LoadError α

export Storable (store load)

namespace Datum

/-- An integer between two bounds. -/
def integerIn (low high : Int) : Datum → Except LoadError Int
  | integer value => if low ≤ value ∧ value ≤ high then .ok value else .error .malformed
  | _ => .error .malformed

/-- A case with its content: a name alone, or an object with the name as its
only key. -/
def asCase : Datum → Except LoadError (String × Option Datum)
  | string name => .ok (name, none)
  | object [(name, content)] => .ok (name, some content)
  | _ => .error .malformed

def asCaseOf (d : Datum) : Except LoadError (String × Datum) :=
  match d.asCase with
  | .ok (name, some content) => .ok (name, content)
  | .ok (_, none) => .error .malformed
  | .error error => .error error

def loadTag {α : Type} (ofTag? : String → Option α) (d : Datum) : Except LoadError α :=
  match d.asCase with
  | .ok (name, none) | .ok (name, some null) =>
      match ofTag? name with
      | some value => .ok value
      | none => .error .malformed
  | .ok _ => .error .malformed
  | .error error => .error error

def elements : Datum → Except LoadError (List Datum)
  | array parts => .ok parts
  | _ => .error .malformed

def fields : Datum → Except LoadError (List (String × Datum))
  | object entries => .ok entries
  | _ => .error .malformed

/-- The entries of a record: an object, or an array of all fields in the given
order. -/
def recordFields (names : List String) : Datum → Except LoadError (List (String × Datum))
  | object entries => .ok entries
  | array parts =>
      if parts.length = names.length then .ok (names.zip parts) else .error .malformed
  | _ => .error .malformed

/-- The field with this name, if it is there. -/
def field? {α : Type} [Storable α] (entries : List (String × Datum)) (name : String) :
    Except LoadError (Option α) :=
  match entries.lookup name with
  | none => .ok none
  | some part => (load part).map some

/-- A field that must be there. Absence is noticed after all fields that are
there are read. -/
def required {α : Type} : Option α → Except LoadError α
  | some value => .ok value
  | none => .error .malformed

end Datum

end Amd64
