import Amd64.Register
import Amd64.Scale

/-!
A reader of addresses in assembly text: an optional symbol, an optional number,
and optionally between parentheses a base register, an index register and a
scale. The number after a symbol has a sign. Nothing here refers to how
addresses are written.
-/

namespace Amd64

/-- An address as its text states it. -/
structure AddressText where
  symbol : Option String
  /-- Zero where the text has no number. -/
  displacement : Int
  base : Option (Fin 16)
  /-- The scale is one where the text has none. -/
  index : Option (Fin 16 × Scale)
  deriving DecidableEq

namespace AddressText

/-- A letter of the alphabet, or any character beyond ASCII, of which text
knows no other use. -/
def isLetter (c : Char) : Bool :=
  c.isAlpha || 128 ≤ c.toNat

/-- A symbol starts with a letter or an underscore. -/
def startsSymbol (c : Char) : Bool :=
  isLetter c || c = '_'

/-- A symbol goes on with these or with digits. -/
def continuesSymbol (c : Char) : Bool :=
  startsSymbol c || c.isDigit

/-- Letters, digits and underscores, at least one of them and not a digit
first. -/
def isSymbol (text : String) : Bool :=
  match text.toList with
  | [] => false
  | c :: rest => startsSymbol c && rest.all continuesSymbol

/-- Reads the longest symbol at the beginning, if there is one. -/
def readSymbol (text : List Char) : Option String × List Char :=
  match text with
  | [] => (none, [])
  | c :: _ =>
      if startsSymbol c then
        (some (String.ofList (text.takeWhile continuesSymbol)), text.dropWhile continuesSymbol)
      else (none, text)

/-- Reads digits, at least one. -/
def readDigits (text : List Char) : Option (Nat × List Char) :=
  match text.takeWhile Char.isDigit with
  | [] => none
  | digits => some (Nat.ofDigitChars 10 digits 0, text.dropWhile Char.isDigit)

/-- Reads a number at the beginning, if there is one. A minus sign makes it
negative. -/
def readNumber (text : List Char) : Option (Int × List Char) :=
  match text with
  | '+' :: rest => do
      let (n, rest) ← readDigits rest
      return (n, rest)
  | '-' :: rest => do
      let (n, rest) ← readDigits rest
      return (-n, rest)
  | c :: _ =>
      if c.isDigit then do
        let (n, rest) ← readDigits text
        return (n, rest)
      else some (0, text)
  | [] => some (0, [])

/-- Reads the full name of a general-purpose register after a percent sign. -/
def readRegister : List Char → Option (Fin 16 × List Char)
  | '%' :: rest => do
      let name := rest.takeWhile Char.isAlphanum
      let number ← (List.finRange 16).find? fun number =>
        (Register.general number).name.toList = name
      return (number, rest.dropWhile Char.isAlphanum)
  | _ => none

/-- Reads a scale after a comma, if there is one. -/
def readScale : List Char → Option (Scale × List Char)
  | ',' :: rest => do
      let (factor, rest) ← readDigits rest
      let scale ← Scale.all.find? fun scale => scale.factor = factor
      return (scale, rest)
  | rest => some (.one, rest)

/-- Reads an index and its scale after a comma, if there is one. -/
def readIndex : List Char → Option (Option (Fin 16 × Scale) × List Char)
  | ',' :: rest => do
      let (number, rest) ← readRegister rest
      let (scale, rest) ← readScale rest
      return (some (number, scale), rest)
  | rest => some (none, rest)

/-- Reads a base, if there is one. -/
def readBase : List Char → Option (Option (Fin 16) × List Char)
  | '%' :: rest => do
      let (number, rest) ← readRegister ('%' :: rest)
      return (some number, rest)
  | rest => some (none, rest)

/-- Reads an address and nothing after it. -/
def read (text : List Char) : Option AddressText := do
  let (symbol, rest) := readSymbol text
  let (displacement, rest) ← readNumber rest
  match rest with
  | [] => return ⟨symbol, displacement, none, none⟩
  | '(' :: rest =>
      let (base, rest) ← readBase rest
      let (index, rest) ← readIndex rest
      match rest with
      | [')'] => return ⟨symbol, displacement, base, index⟩
      | _ => none
  | _ => none

end AddressText

end Amd64
