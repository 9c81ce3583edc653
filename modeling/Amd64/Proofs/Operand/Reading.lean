import Amd64.Numeral
import Amd64.Operand.Reader

/-!
The reader of addresses takes back what is written piece by piece: symbols,
numbers and registers, each as long as the text after it does not go on with a
character of the same kind.
-/

namespace Amd64.AddressText

/-- The text does not go on with a character of this kind. -/
def EndsBefore (kind : Char → Bool) (rest : List Char) : Prop :=
  ∀ c ∈ rest.head?, kind c = false

/-- At the end of a text nothing goes on. -/
theorem endsBefore_nil (kind : Char → Bool) : EndsBefore kind [] := by
  intro c h
  cases h

/-- One character decides whether a run of characters goes on. -/
theorem endsBefore_cons {kind : Char → Bool} {c : Char} (rest : List Char) (h : kind c = false) :
    EndsBefore kind (c :: rest) := by
  rintro _ ⟨⟩
  exact h

/-- If two parts both end a run, the second one only matters where the first
one is empty. -/
theorem EndsBefore.append {kind : Char → Bool} {first second : List Char}
    (hFirst : EndsBefore kind first) (hSecond : EndsBefore kind second) :
    EndsBefore kind (first ++ second) := by
  cases first with
  | nil => exact hSecond
  | cons c rest => exact endsBefore_cons _ (hFirst c rfl)

/-- The longest run of one kind is cut off where the kind ends. Readers take
the longest run, so this is what makes them stop at the right place. -/
theorem span_append {kind : Char → Bool} {run rest : List Char} (hRun : ∀ c ∈ run, kind c = true)
    (hRest : EndsBefore kind rest) :
    (run ++ rest).takeWhile kind = run ∧ (run ++ rest).dropWhile kind = rest := by
  rw [List.takeWhile_append_of_pos hRun, List.dropWhile_append_of_pos hRun]
  cases rest with
  | nil => simp
  | cons c rest => simp [hRest c rfl]

/-- A symbol is read up to the first character that could not belong to it. -/
theorem readSymbol_append {symbol : String} {rest : List Char} (hSymbol : isSymbol symbol = true)
    (hRest : EndsBefore continuesSymbol rest) :
    readSymbol (symbol.toList ++ rest) = (some symbol, rest) := by
  unfold isSymbol at hSymbol
  cases hChars : symbol.toList with
  | nil => simp [hChars] at hSymbol
  | cons c tail =>
      simp only [hChars, Bool.and_eq_true, List.all_eq_true] at hSymbol
      obtain ⟨hFirst, hTail⟩ := hSymbol
      have hRun : ∀ d ∈ c :: tail, continuesSymbol d = true := by
        intro d hd
        rcases List.mem_cons.mp hd with rfl | hd
        · simp [continuesSymbol, hFirst]
        · exact hTail d hd
      obtain ⟨hTaken, hDropped⟩ := span_append hRun hRest
      rw [List.cons_append] at hTaken hDropped ⊢
      rw [readSymbol, if_pos hFirst, hTaken, hDropped, ← hChars, String.ofList_toList]

/-- Where no symbol begins none is read, and no character is taken. -/
theorem readSymbol_of_endsBefore {text : List Char} (h : EndsBefore startsSymbol text) :
    readSymbol text = (none, text) := by
  cases text with
  | nil => rfl
  | cons c rest => simp [readSymbol, h c rfl]

/-- A natural number is written in digits and nothing else. -/
theorem isDigit_of_mem_ofNat {n : Nat} {c : Char} (h : c ∈ (Decimal.ofNat n).toList) :
    c.isDigit = true := by
  rw [Decimal.ofNat, String.toList_ofList] at h
  exact Nat.isDigit_of_mem_toDigits (by decide) (by decide) h

theorem toList_ofNat_ne_nil (n : Nat) : (Decimal.ofNat n).toList ≠ [] := by
  rw [Decimal.ofNat, String.toList_ofList]
  exact Nat.toDigits_ne_nil

/-- Digits are read up to the first character that is none, and give the number
back. -/
theorem readDigits_ofNat (n : Nat) {rest : List Char} (hRest : EndsBefore Char.isDigit rest) :
    readDigits ((Decimal.ofNat n).toList ++ rest) = some (n, rest) := by
  have hRun (c : Char) (h : c ∈ (Decimal.ofNat n).toList) : c.isDigit = true :=
    isDigit_of_mem_ofNat h
  obtain ⟨hTaken, hDropped⟩ := span_append hRun hRest
  have hValue : Nat.ofDigitChars 10 (Decimal.ofNat n).toList 0 = n := by
    rw [Decimal.ofNat, String.toList_ofList]
    exact Nat.ofDigitChars_toDigits (by decide) (by decide)
  unfold readDigits
  rw [hTaken, hDropped]
  cases hDigits : (Decimal.ofNat n).toList with
  | nil => exact absurd hDigits (toList_ofNat_ne_nil n)
  | cons d digits =>
      show some (Nat.ofDigitChars 10 (d :: digits) 0, rest) = some (n, rest)
      rw [← hDigits, hValue]

/-- The ways to write a number before the registers: not at all, as it is, or
with a plus sign. -/
inductive WritesNumber : String → Int → Prop where
  | absent : WritesNumber "" 0
  | plain (value : Int) : WritesNumber (Decimal.ofInt value) value
  | plus (n : Nat) : WritesNumber ("+" ++ Decimal.ofNat n) n

/-- No digit begins a symbol, although digits may be inside one. -/
theorem startsSymbol_of_isDigit {c : Char} (h : c.isDigit = true) : startsSymbol c = false := by
  obtain ⟨hLow, hHigh⟩ : 48 ≤ c.toNat ∧ c.toNat ≤ 57 := Char.isDigit_iff_toNat.mp h
  have hDigits : ∀ n < 10, startsSymbol (Char.ofNat (48 + n)) = false := by decide
  have hDigit := hDigits (c.toNat - 48) (by omega)
  rwa [Nat.add_sub_cancel' hLow, Char.ofNat_toNat] at hDigit

/-- No number looks like the beginning of a symbol. Hence a text without a
symbol is told from one with a symbol by its first character. -/
theorem WritesNumber.endsBefore {number : String} {value : Int} (h : WritesNumber number value) :
    EndsBefore startsSymbol number.toList := by
  have hDigits (n : Nat) : EndsBefore startsSymbol (Decimal.ofNat n).toList := by
    intro c hc
    exact startsSymbol_of_isDigit (isDigit_of_mem_ofNat (List.mem_of_head? hc))
  cases h with
  | absent => exact endsBefore_nil _
  | plus n =>
      rw [String.toList_append]
      exact endsBefore_cons _ (by decide : startsSymbol '+' = false)
  | plain value =>
      cases value with
      | ofNat n => exact hDigits n
      | negSucc n =>
          rw [Decimal.ofInt, String.toList_append]
          exact endsBefore_cons _ (by decide : startsSymbol '-' = false)

/-- What stands after a number: the parenthesis before the registers, or
nothing. -/
def EndsNumber (rest : List Char) : Prop :=
  rest = [] ∨ ∃ tail, rest = '(' :: tail

theorem EndsNumber.endsBefore {kind : Char → Bool} {rest : List Char} (h : EndsNumber rest)
    (hKind : kind '(' = false) : EndsBefore kind rest := by
  rcases h with rfl | ⟨tail, rfl⟩
  · exact endsBefore_nil kind
  · exact endsBefore_cons tail hKind

/-- A digit is no sign, so a number that starts with one is read from there.
The reader tries the signs first. -/
theorem readNumber_of_digit {d : Char} (rest : List Char) (h : d.isDigit = true) :
    readNumber (d :: rest) = (readDigits (d :: rest)).map fun (n, rest) => ((n : Int), rest) := by
  unfold readNumber
  split
  · simp_all
  · simp_all
  · rename_i c tail hPlus hMinus hCons
    cases hCons
    rw [if_pos h]
    cases readDigits (d :: rest) <;> rfl
  · contradiction

/-- However a number is written, it is read back, the absent one as zero. What
follows must be the parenthesis or the end. -/
theorem WritesNumber.readNumber {number : String} {value : Int} {rest : List Char}
    (h : WritesNumber number value) (hRest : EndsNumber rest) :
    AddressText.readNumber (number.toList ++ rest) = some (value, rest) := by
  have hDigits (n : Nat) := readDigits_ofNat n (hRest.endsBefore (by decide : '('.isDigit = false))
  cases h with
  | absent => rcases hRest with rfl | ⟨tail, rfl⟩ <;> rfl
  | plus n =>
      rw [String.toList_append]
      show (readDigits ((Decimal.ofNat n).toList ++ rest)).bind _ = _
      rw [hDigits]
      rfl
  | plain value =>
      cases value with
      | negSucc n =>
          rw [Decimal.ofInt, String.toList_append]
          show (readDigits ((Decimal.ofNat (n + 1)).toList ++ rest)).bind _ = _
          rw [hDigits]
          rfl
      | ofNat n =>
          have hRead := hDigits n
          rw [Decimal.ofInt]
          cases hChars : (Decimal.ofNat n).toList with
          | nil => exact absurd hChars (toList_ofNat_ne_nil n)
          | cons d digits =>
              have hDigit : d.isDigit = true :=
                isDigit_of_mem_ofNat (n := n) (by rw [hChars]; exact List.mem_cons_self)
              rw [hChars, List.cons_append] at hRead
              rw [List.cons_append, readNumber_of_digit _ hDigit, hRead]
              rfl

/-- A register inside an address. -/
def registerText (number : Fin 16) : String :=
  "%" ++ (Register.general number).name

/-- The scale of an index, which is left out when it is one. -/
def scaleText (scale : Scale) : String :=
  if 0 < scale.shift then "," ++ Decimal.ofNat scale.factor else ""

def baseText : Option (Fin 16) → String
  | none => ""
  | some number => registerText number

def indexText : Option (Fin 16 × Scale) → String
  | none => ""
  | some (number, scale) => "," ++ registerText number ++ scaleText scale

/-- The registers of an address, which are left out when there are none. -/
def registersText : Option (Fin 16) → Option (Fin 16 × Scale) → String
  | none, none => ""
  | base, index => "(" ++ baseText base ++ indexText index ++ ")"

/-- A register is read by its whole name, up to the first character that is
neither a letter nor a digit. -/
theorem readRegister_append (number : Fin 16) {rest : List Char}
    (hRest : EndsBefore Char.isAlphanum rest) :
    readRegister ((registerText number).toList ++ rest) = some (number, rest) := by
  have hRun : ∀ number : Fin 16,
      (Register.general number).name.toList.all Char.isAlphanum = true := by decide
  have hFound : ∀ number : Fin 16, ((List.finRange 16).find? fun other =>
      (Register.general other).name.toList = (Register.general number).name.toList) =
        some number := by decide
  obtain ⟨hTaken, hDropped⟩ := span_append (List.all_eq_true.mp (hRun number)) hRest
  rw [registerText, String.toList_append]
  show readRegister ('%' :: ((Register.general number).name.toList ++ rest)) = _
  simp only [readRegister, hTaken, hDropped, hFound]
  rfl

/-- The scale before the closing parenthesis is read back. A scale of one is
not written and is what is assumed. -/
theorem readScale_append (scale : Scale) (rest : List Char) :
    readScale ((scaleText scale).toList ++ ')' :: rest) = some (scale, ')' :: rest) := by
  have hDigits (n : Nat) :=
    readDigits_ofNat n (endsBefore_cons rest (by decide : ')'.isDigit = false))
  unfold scaleText
  split
  · rw [String.toList_append]
    show (readDigits ((Decimal.ofNat scale.factor).toList ++ ')' :: rest)).bind _ = _
    rw [hDigits]
    cases scale <;> rfl
  · cases scale with
    | one => rfl
    | two | four | eight => contradiction

/-- An index begins with a comma, and where there is none the parenthesis
closes. -/
theorem readIndex_append (index : Option (Fin 16 × Scale)) (rest : List Char) :
    readIndex ((indexText index).toList ++ ')' :: rest) = some (index, ')' :: rest) := by
  cases index with
  | none => rfl
  | some scaled =>
      obtain ⟨number, scale⟩ := scaled
      have hAfter : EndsBefore Char.isAlphanum ((scaleText scale).toList ++ ')' :: rest) := by
        cases scale <;> exact endsBefore_cons _ (by decide)
      have hText : (indexText (some (number, scale))).toList ++ ')' :: rest =
          ',' :: ((registerText number).toList ++ ((scaleText scale).toList ++ ')' :: rest)) := by
        simp [indexText]
      rw [hText]
      simp only [readIndex, readRegister_append number hAfter, readScale_append,
        Option.bind_eq_bind, Option.bind_some]
      rfl

/-- A base is told by its percent sign from what may follow it, which is a
comma or the closing parenthesis. -/
theorem readBase_append (base : Option (Fin 16)) {c : Char} (rest : List Char) (hSign : c ≠ '%')
    (hName : c.isAlphanum = false) :
    readBase ((baseText base).toList ++ c :: rest) = some (base, c :: rest) := by
  cases base with
  | none =>
      show readBase (c :: rest) = _
      unfold readBase
      split
      · simp_all
      · rfl
  | some number =>
      have hRead := readRegister_append number (endsBefore_cons rest hName)
      have hText : (registerText number).toList ++ c :: rest =
          '%' :: ((Register.general number).name.toList ++ c :: rest) := by
        simp [registerText]
      show readBase ((registerText number).toList ++ c :: rest) = _
      rw [hText] at hRead ⊢
      simp only [readBase, hRead]
      rfl

/-- Between the parentheses stand the base and the index, and one of them is
there. Without either there are no parentheses. -/
theorem registersText_cases (base : Option (Fin 16)) (index : Option (Fin 16 × Scale)) :
    (base = none ∧ index = none ∧ (registersText base index).toList = []) ∨
      (registersText base index).toList =
        '(' :: ((baseText base).toList ++ ((indexText index).toList ++ [')'])) := by
  cases base <;> cases index
  · exact Or.inl ⟨rfl, rfl, rfl⟩
  all_goals exact Or.inr (by simp [registersText])

theorem registersText_eq_empty_iff (base : Option (Fin 16)) (index : Option (Fin 16 × Scale)) :
    registersText base index = "" ↔ base = none ∧ index = none := by
  constructor
  · intro hEmpty
    rcases registersText_cases base index with ⟨hBase, hIndex, -⟩ | hText
    · exact ⟨hBase, hIndex⟩
    · rw [hEmpty] at hText
      cases hText
  · rintro ⟨rfl, rfl⟩
    rfl

/-- What follows a number in an operand is just what the reader of numbers
expects there. -/
theorem endsNumber_registersText (base : Option (Fin 16)) (index : Option (Fin 16 × Scale)) :
    EndsNumber (registersText base index).toList := by
  rcases registersText_cases base index with ⟨-, -, hText⟩ | hText
  · exact Or.inl hText
  · exact Or.inr ⟨_, hText⟩

/-- A text is read as its symbol, its number and its registers, if each can be
told from what follows it. The registers come last and are read to the end of
the text. -/
theorem read_of_parts {text rest : List Char} {symbol : Option String} {value : Int}
    {base : Option (Fin 16)} {index : Option (Fin 16 × Scale)}
    (hSymbol : readSymbol text = (symbol, rest))
    (hNumber : AddressText.readNumber rest = some (value, (registersText base index).toList)) :
    read text = some ⟨symbol, value, base, index⟩ := by
  unfold read
  simp only [hSymbol, hNumber, Option.bind_eq_bind, Option.bind_some]
  rcases registersText_cases base index with ⟨rfl, rfl, -⟩ | hText
  · rfl
  · have hBase : readBase ((baseText base).toList ++ ((indexText index).toList ++ [')'])) =
        some (base, (indexText index).toList ++ [')']) := by
      cases index with
      | none => exact readBase_append base [] (by decide) (by decide)
      | some scaled =>
          have hComma : (indexText (some scaled)).toList ++ [')'] =
              ',' :: ((registerText scaled.1).toList ++
                ((scaleText scaled.2).toList ++ [')'])) := by
            simp [indexText]
          rw [hComma]
          exact readBase_append base _ (by decide) (by decide)
    rw [hText]
    simp only [hBase, readIndex_append, Option.bind_some]
    rfl

/-- The text has the parts of an address in their order. After a symbol a
number has a sign, or else its digits would belong to the symbol. -/
def Writes (parsed : AddressText) (text : String) : Prop :=
  ∃ number, text = parsed.symbol.getD "" ++ number ++ registersText parsed.base parsed.index ∧
    WritesNumber number parsed.displacement ∧
    (parsed.symbol.isSome = true → EndsBefore continuesSymbol number.toList)

/-- What is written is read back, with its symbol, its number and its
registers. Of the symbol it is asked that it is one; a name with a parenthesis
in it could not be told from registers. -/
theorem Writes.read {parsed : AddressText} {text : String} (h : parsed.Writes text)
    (hSymbol : ∀ symbol ∈ parsed.symbol, isSymbol symbol = true) :
    AddressText.read text.toList = some parsed := by
  obtain ⟨symbol, displacement, base, index⟩ := parsed
  obtain ⟨number, rfl, hNumber, hSigned⟩ := h
  have hEnd := endsNumber_registersText base index
  have hRead := hNumber.readNumber hEnd
  refine read_of_parts ?_ hRead
  cases symbol with
  | none =>
      have hText : (none.getD "" ++ number ++ registersText base index).toList =
          number.toList ++ (registersText base index).toList := by simp
      rw [hText]
      exact readSymbol_of_endsBefore (hNumber.endsBefore.append (hEnd.endsBefore (by decide)))
  | some symbol =>
      have hText : ((some symbol).getD "" ++ number ++ registersText base index).toList =
          symbol.toList ++ (number.toList ++ (registersText base index).toList) := by simp
      rw [hText]
      exact readSymbol_append (hSymbol symbol rfl)
        ((hSigned rfl).append (hEnd.endsBefore (by decide)))

end Amd64.AddressText
