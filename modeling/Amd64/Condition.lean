/-!
The sixteen conditions that flags can meet and the eight predicates that packed
comparisons test, with their codes in instructions and their spellings.
-/

namespace Amd64

/-- A condition on the flags, by its mnemonic letters. -/
inductive Condition where
  | o | no | b | ae | e | ne | be | a | s | ns | p | np | l | ge | le | g
  deriving DecidableEq

namespace Condition

/-- Every condition, in the order of the codes. -/
def all : List Condition :=
  [o, no, b, ae, e, ne, be, a, s, ns, p, np, l, ge, le, g]

/-- The four bits that stand for a condition in an opcode. -/
def code : Condition → Nat
  | o => 0 | no => 1 | b => 2 | ae => 3 | e => 4 | ne => 5 | be => 6 | a => 7
  | s => 8 | ns => 9 | p => 10 | np => 11 | l => 12 | ge => 13 | le => 14 | g => 15

/-- The condition that holds exactly when this one does not. -/
def opposite : Condition → Condition
  | o => no | no => o | b => ae | ae => b | e => ne | ne => e | be => a | a => be
  | s => ns | ns => s | p => np | np => p | l => ge | ge => l | le => g | g => le

/-- The letters that a condition adds to a mnemonic. -/
def name : Condition → String
  | o => "o" | no => "no" | b => "b" | ae => "ae" | e => "e" | ne => "ne" | be => "be"
  | a => "a" | s => "s" | ns => "ns" | p => "p" | np => "np" | l => "l" | ge => "ge"
  | le => "le" | g => "g"

def jump (condition : Condition) : String :=
  "j" ++ condition.name

def tag : Condition → String
  | o => "O" | no => "No" | b => "B" | ae => "Ae" | e => "E" | ne => "Ne" | be => "Be"
  | a => "A" | s => "S" | ns => "Ns" | p => "P" | np => "Np" | l => "L" | ge => "Ge"
  | le => "Le" | g => "G"

def ofTag? (tag : String) : Option Condition :=
  all.find? fun condition => condition.tag = tag

def ofCode? (code : Nat) : Option Condition :=
  all[code]?

theorem ofTag?_tag (condition : Condition) : ofTag? condition.tag = some condition := by
  cases condition <;> decide

end Condition

/-- What a packed comparison tests, lane by lane. -/
inductive Predicate where
  | eq | lt | le | unord | neq | nlt | nle | ord
  deriving DecidableEq

namespace Predicate

/-- Every predicate, in the order of the codes. -/
def all : List Predicate := [eq, lt, le, unord, neq, nlt, nle, ord]

/-- The byte that stands for a predicate at the end of a comparison. -/
def code : Predicate → Nat
  | eq => 0 | lt => 1 | le => 2 | unord => 3 | neq => 4 | nlt => 5 | nle => 6 | ord => 7

def name : Predicate → String
  | eq => "eq" | lt => "lt" | le => "le" | unord => "unord" | neq => "neq" | nlt => "nlt"
  | nle => "nle" | ord => "ord"

def tag : Predicate → String
  | eq => "Eq" | lt => "Lt" | le => "Le" | unord => "Unord" | neq => "Neq" | nlt => "Nlt"
  | nle => "Nle" | ord => "Ord"

def ofTag? (tag : String) : Option Predicate :=
  all.find? fun predicate => predicate.tag = tag

def ofCode? (code : Nat) : Option Predicate :=
  all[code]?

theorem ofTag?_tag (predicate : Predicate) : ofTag? predicate.tag = some predicate := by
  cases predicate <;> decide

end Predicate

end Amd64
