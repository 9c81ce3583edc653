/-!
A reader of the debug text of memory operands: a sum of terms between brackets.
A term is a name after a percent sign, perhaps with a factor, or a number, or a
symbol after an at sign. A minus sign belongs to the number after it and stands
in place of a plus sign. Nothing here refers to how operands are written.
-/

namespace Amd64

/-- A term of a sum. -/
inductive SumTerm where
  /-- A variable or register, and the factor before it; without one the factor
  is one. -/
  | name (factor : Nat) (text : String)
  | number (value : Int)
  | symbol (text : String)
  deriving DecidableEq

namespace SumTerm

/-- Cuts a text at its signs. A plus sign is dropped and a minus sign kept. -/
def split : List Char → List Char × List (List Char)
  | [] => ([], [])
  | c :: rest =>
      let (term, terms) := split rest
      if c = '+' then ([], term :: terms)
      else if c = '-' then ([], ('-' :: term) :: terms)
      else (c :: term, terms)

/-- The terms of a text. A minus sign may come first, and then no term is
before it. -/
def splitAll (text : List Char) : List (List Char) :=
  match split text with
  | ([], ('-' :: term) :: terms) => ('-' :: term) :: terms
  | (term, terms) => term :: terms

/-- Reads a name, which is not empty. -/
def readName (text : List Char) : Option String :=
  if text.isEmpty then none else some (String.ofList text)

/-- Reads digits and nothing else, at least one. -/
def readNat (text : List Char) : Option Nat :=
  if text.isEmpty || !text.all Char.isDigit then none
  else some (Nat.ofDigitChars 10 text 0)

def read (text : List Char) : Option SumTerm :=
  match text with
  | '%' :: rest => do return name 1 (← readName rest)
  | '@' :: rest => do return symbol (← readName rest)
  | '-' :: rest => do return number (-(← readNat rest))
  | text =>
      match text.dropWhile Char.isDigit with
      | '*' :: '%' :: rest => do
          return name (← readNat (text.takeWhile Char.isDigit)) (← readName rest)
      | _ => do return number (← readNat text)

def readSum (text : List Char) : Option (List SumTerm) :=
  match text with
  | '[' :: rest =>
      match rest.getLast? with
      | some ']' => (splitAll rest.dropLast).mapM read
      | _ => none
  | _ => none

/-- The sum of the numbers among terms. -/
def numbers (terms : List SumTerm) : Int :=
  terms.foldr (fun term sum =>
    match term with
    | number value => value + sum
    | _ => sum) 0

end SumTerm

end Amd64
