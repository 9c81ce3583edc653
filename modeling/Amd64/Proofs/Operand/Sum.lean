import Amd64.Operand.Sum
import Amd64.Proofs.Operand.Reading

/-!
Sums of terms as text. Between two terms stands a plus sign, unless the second
one has a minus sign of its own. `SumTerm.readSum_sumText` says that the reader
takes a sum back term by term, so that no other sum has the same text, and
`SumTerm.plusSigns_sumText` that every plus sign stands between two terms.
-/

namespace Amd64.SumTerm

/-- The text of a term. A factor of one is left out. -/
def text : SumTerm → String
  | name factor text => (if factor = 1 then "" else Decimal.ofNat factor ++ "*") ++ "%" ++ text
  | number value => Decimal.ofInt value
  | symbol text => "@" ++ text

/-- What stands between a term and the term before it. -/
def sign : SumTerm → String
  | number (.negSucc _) => ""
  | _ => "+"

/-- The text of terms that come after another term. -/
def signedText : List SumTerm → String
  | [] => ""
  | term :: rest => term.sign ++ term.text ++ signedText rest

def sumText : List SumTerm → String
  | [] => ""
  | first :: rest => first.text ++ signedText rest

/-- A negative number brings its sign with it, so that no plus sign stands
before it. -/
theorem sign_number (value : Int) : (number value).sign = if value < 0 then "" else "+" := by
  cases value with
  | ofNat n => rw [if_neg (by simp)]; rfl
  | negSucc n => rw [if_pos (Int.negSucc_lt_zero n)]; rfl

/-- Terms that all have their sign can be written one after the other. -/
theorem signedText_append (first second : List SumTerm) :
    signedText (first ++ second) = signedText first ++ signedText second := by
  induction first with
  | nil => simp [signedText]
  | cons term rest ih => simp [signedText, ih, String.append_assoc]

/-- Only the first term of a sum comes without its sign, wherever the sum is
cut in two. -/
theorem sumText_append {first : List SumTerm} (hFirst : first ≠ []) (second : List SumTerm) :
    sumText (first ++ second) = sumText first ++ signedText second := by
  cases first with
  | nil => exact absurd rfl hFirst
  | cons term rest => simp [sumText, signedText_append, String.append_assoc]

/-- The numbers of a sum are added up in any grouping. -/
theorem numbers_append (first second : List SumTerm) :
    numbers (first ++ second) = numbers first + numbers second := by
  induction first with
  | nil => simp [numbers]
  | cons term rest ih =>
      have hRest : numbers (rest ++ second) = numbers rest + numbers second := ih
      unfold numbers at hRest
      cases term <;> simp [numbers, hRest, Int.add_assoc]

/-- No sign stands among the characters. -/
def NoSigns (chars : List Char) : Prop :=
  ∀ c ∈ chars, c ≠ '+' ∧ c ≠ '-'

/-- A name or symbol is there and has no sign in it. -/
def WellNamed : SumTerm → Prop
  | name _ text | symbol text => text ≠ "" ∧ NoSigns text.toList
  | number _ => True

theorem NoSigns.append {first second : List Char} (hFirst : NoSigns first)
    (hSecond : NoSigns second) : NoSigns (first ++ second) := by
  intro c hc
  rcases List.mem_append.mp hc with h | h
  · exact hFirst c h
  · exact hSecond c h

theorem NoSigns.cons {c : Char} {rest : List Char} (hFirst : c ≠ '+' ∧ c ≠ '-')
    (hRest : NoSigns rest) : NoSigns (c :: rest) :=
  List.forall_mem_cons.mpr ⟨hFirst, hRest⟩

/-- A natural number is written in digits, and no digit is a sign. -/
theorem noSigns_ofNat (n : Nat) : NoSigns (Decimal.ofNat n).toList := by
  intro c hc
  have hDigit := AddressText.isDigit_of_mem_ofNat hc
  constructor
  · rintro rfl
    exact absurd hDigit (by decide)
  · rintro rfl
    exact absurd hDigit (by decide)

/-- Letters, digits and underscores are no signs either, and a symbol has at
least one character. -/
theorem noSigns_of_isSymbol {text : String} (h : AddressText.isSymbol text = true) :
    text ≠ "" ∧ NoSigns text.toList := by
  unfold AddressText.isSymbol at h
  cases hChars : text.toList with
  | nil => simp [hChars] at h
  | cons first rest =>
      simp only [hChars, Bool.and_eq_true, List.all_eq_true] at h
      have hKind (c : Char) (hc : AddressText.continuesSymbol c = true) : c ≠ '+' ∧ c ≠ '-' := by
        constructor
        · rintro rfl
          exact absurd hc (by decide)
        · rintro rfl
          exact absurd hc (by decide)
      refine ⟨fun hEmpty => by simp [hEmpty] at hChars, .cons (hKind first ?_) fun c hc => ?_⟩
      · simp [AddressText.continuesSymbol, h.1]
      · exact hKind c (h.2 c hc)

/-- The sign of a term is before it or is its first character. In neither case
is there another sign inside the term, so the signs of a text are where its
terms begin. -/
theorem text_cases {term : SumTerm} (h : term.WellNamed) :
    (term.sign = "+" ∧ term.text.toList ≠ [] ∧ NoSigns term.text.toList) ∨
      ∃ digits, term.sign = "" ∧ term.text.toList = '-' :: digits ∧ NoSigns digits := by
  cases term with
  | name factor text =>
      refine Or.inl ⟨rfl, by simp [SumTerm.text], ?_⟩
      have hFactor : NoSigns (if factor = 1 then "" else Decimal.ofNat factor ++ "*").toList := by
        split
        · intro c hc
          cases hc
        · rw [String.toList_append]
          exact (noSigns_ofNat factor).append (.cons (by decide) fun c hc => by cases hc)
      rw [SumTerm.text, String.toList_append, String.toList_append]
      exact (hFactor.append (.cons (by decide) fun c hc => by cases hc)).append h.2
  | number value =>
      cases value with
      | ofNat n => exact Or.inl ⟨rfl, AddressText.toList_ofNat_ne_nil n, noSigns_ofNat n⟩
      | negSucc n =>
          refine Or.inr ⟨(Decimal.ofNat (n + 1)).toList, rfl, ?_, noSigns_ofNat _⟩
          rw [SumTerm.text, Decimal.ofInt, String.toList_append]
          rfl
  | symbol text =>
      refine Or.inl ⟨rfl, by simp [SumTerm.text], ?_⟩
      rw [SumTerm.text, String.toList_append]
      exact .append (.cons (by decide) fun c hc => by cases hc) h.2

/-- No term is written without any character, so that no piece of a text is
empty by itself. -/
theorem text_ne_nil {term : SumTerm} (h : term.WellNamed) : term.text.toList ≠ [] := by
  rcases text_cases h with ⟨-, hNonempty, -⟩ | ⟨digits, -, hText, -⟩
  · exact hNonempty
  · simp [hText]

/-! A text is cut at its signs. -/

theorem split_plus (rest : List Char) :
    split ('+' :: rest) = ([], (split rest).1 :: (split rest).2) := rfl

theorem split_minus (rest : List Char) :
    split ('-' :: rest) = ([], ('-' :: (split rest).1) :: (split rest).2) := rfl

/-- Characters without a sign belong to the piece that is being read. This is
the only fact about the inside of a term that cutting needs. -/
theorem split_append {chars : List Char} (h : NoSigns chars) (rest : List Char) :
    split (chars ++ rest) = (chars ++ (split rest).1, (split rest).2) := by
  induction chars with
  | nil => rfl
  | cons c tail ih =>
      obtain ⟨⟨hPlus, hMinus⟩, hTail⟩ := List.forall_mem_cons.mp h
      simp only [List.cons_append, split, ih hTail, if_neg hPlus, if_neg hMinus]

/-- Cutting terms that all have their sign leaves nothing before the first one.
The induction is on the terms, each of which is one piece. -/
theorem split_signedText {terms : List SumTerm} (h : ∀ term ∈ terms, term.WellNamed) :
    split (signedText terms).toList = ([], terms.map fun term => term.text.toList) := by
  induction terms with
  | nil => rfl
  | cons term rest ih =>
      obtain ⟨hTerm, hRest⟩ := List.forall_mem_cons.mp h
      have hTail := ih hRest
      rw [signedText, String.toList_append, String.toList_append]
      rcases text_cases hTerm with ⟨hSign, -, hNoSigns⟩ | ⟨digits, hSign, hText, hNoSigns⟩
      · have hSplit := split_append hNoSigns (signedText rest).toList
        rw [hTail, List.append_nil] at hSplit
        rw [hSign, List.append_assoc]
        change split ('+' :: (term.text.toList ++ (signedText rest).toList)) = _
        rw [split_plus, hSplit]
        rfl
      · have hSplit := split_append hNoSigns (signedText rest).toList
        rw [hTail, List.append_nil] at hSplit
        rw [hSign, hText]
        change split ('-' :: (digits ++ (signedText rest).toList)) = _
        rw [split_minus, hSplit, List.map_cons, hText]

/-- Cutting a sum at its signs gives its terms. The first one has no plus sign,
and a minus sign of it is not mistaken for the end of a term. -/
theorem splitAll_sumText {first : SumTerm} {rest : List SumTerm}
    (h : ∀ term ∈ first :: rest, term.WellNamed) :
    splitAll (sumText (first :: rest)).toList =
      (first :: rest).map fun term => term.text.toList := by
  obtain ⟨hFirst, hRest⟩ := List.forall_mem_cons.mp h
  have hTail := split_signedText hRest
  rw [sumText, String.toList_append, splitAll, List.map_cons]
  rcases text_cases hFirst with ⟨-, hNonempty, hNoSigns⟩ | ⟨digits, -, hText, hNoSigns⟩
  · rw [split_append hNoSigns, hTail, List.append_nil]
    cases hChars : first.text.toList with
    | nil => exact absurd hChars hNonempty
    | cons c tail => rfl
  · have hSplit := split_append hNoSigns (signedText rest).toList
    rw [hTail, List.append_nil] at hSplit
    rw [hText, List.cons_append, split_minus, hSplit]
    rfl

/-! A term is read back from its text. -/

/-- Any characters are a name as long as there are some. -/
theorem readName_of_ne_empty {text : String} (h : text ≠ "") :
    readName text.toList = some text := by
  have hChars : text.toList.isEmpty = false := by simpa [List.isEmpty_eq_false_iff] using h
  rw [readName, hChars, String.ofList_toList]
  rfl

/-- Digits that were written are read as the number they were written for. -/
theorem readNat_ofNat (n : Nat) : readNat (Decimal.ofNat n).toList = some n := by
  have hNonempty : (Decimal.ofNat n).toList.isEmpty = false :=
    List.isEmpty_eq_false_iff.mpr (AddressText.toList_ofNat_ne_nil n)
  have hDigits : (Decimal.ofNat n).toList.all Char.isDigit = true :=
    List.all_eq_true.mpr fun c hc => AddressText.isDigit_of_mem_ofNat hc
  rw [readNat, hNonempty, hDigits, Decimal.ofNat, String.toList_ofList,
    Nat.ofDigitChars_toDigits (by decide) (by decide)]
  rfl

/-- No digit is the first character of a name, a symbol or a negative number.
What starts with a digit is a factor or a number. -/
theorem read_of_digit {d : Char} (rest : List Char) (h : d.isDigit = true) :
    read (d :: rest) =
      match (d :: rest).dropWhile Char.isDigit with
      | '*' :: '%' :: tail => do
          return name (← readNat ((d :: rest).takeWhile Char.isDigit)) (← readName tail)
      | _ => do return number (← readNat (d :: rest)) := by
  unfold read
  split
  case h_1 hCons =>
    cases hCons
    exact absurd h (by decide)
  case h_2 hCons =>
    cases hCons
    exact absurd h (by decide)
  case h_3 hCons =>
    cases hCons
    exact absurd h (by decide)
  case h_4 => rfl

theorem read_ofNat_append (n : Nat) (rest : List Char) :
    read ((Decimal.ofNat n).toList ++ rest) =
      match ((Decimal.ofNat n).toList ++ rest).dropWhile Char.isDigit with
      | '*' :: '%' :: tail => do
          return name (← readNat (((Decimal.ofNat n).toList ++ rest).takeWhile Char.isDigit))
            (← readName tail)
      | _ => do return number (← readNat ((Decimal.ofNat n).toList ++ rest)) := by
  cases hDigits : (Decimal.ofNat n).toList with
  | nil => exact absurd hDigits (AddressText.toList_ofNat_ne_nil n)
  | cons d digits =>
      exact read_of_digit _
        (AddressText.isDigit_of_mem_ofNat (n := n) (by rw [hDigits]; exact .head _))

/-- Digits alone are a number, since no asterisk follows them. -/
theorem read_ofNat (n : Nat) : read (Decimal.ofNat n).toList = some (number n) := by
  have hRead := read_ofNat_append n []
  obtain ⟨-, hDropped⟩ := AddressText.span_append
    (fun c hc => AddressText.isDigit_of_mem_ofNat (n := n) hc)
    (AddressText.endsBefore_nil Char.isDigit)
  rw [hDropped, List.append_nil, readNat_ofNat] at hRead
  exact hRead

/-- Digits before an asterisk are a factor, and the name is what stands behind
the percent sign. -/
theorem read_factor (n : Nat) {text : String} (h : text ≠ "") :
    read ((Decimal.ofNat n).toList ++ '*' :: '%' :: text.toList) = some (name n text) := by
  have hRead := read_ofNat_append n ('*' :: '%' :: text.toList)
  obtain ⟨hTaken, hDropped⟩ := AddressText.span_append
    (fun c hc => AddressText.isDigit_of_mem_ofNat (n := n) hc)
    (AddressText.endsBefore_cons ('%' :: text.toList) (by decide : '*'.isDigit = false))
  rw [hDropped, hTaken, readNat_ofNat] at hRead
  simp only [readName_of_ne_empty h] at hRead
  exact hRead

/-- Each term is read back from its own text. A factor of one is not written,
and it is what the reader assumes. -/
theorem read_text {term : SumTerm} (h : term.WellNamed) : read term.text.toList = some term := by
  cases term with
  | name factor text =>
      by_cases hFactor : factor = 1
      · have hText : (name factor text).text.toList = '%' :: text.toList := by
          simp [SumTerm.text, hFactor]
        rw [hText, hFactor, read, readName_of_ne_empty h.1]
        rfl
      · have hText : (name factor text).text.toList =
            (Decimal.ofNat factor).toList ++ '*' :: '%' :: text.toList := by
          simp [SumTerm.text, hFactor]
        rw [hText, read_factor factor h.1]
  | symbol text =>
      have hText : (symbol text).text.toList = '@' :: text.toList := by simp [SumTerm.text]
      rw [hText, read, readName_of_ne_empty h.1]
      rfl
  | number value =>
      cases value with
      | ofNat n => exact read_ofNat n
      | negSucc n =>
          have hText : (number (.negSucc n)).text.toList =
              '-' :: (Decimal.ofNat (n + 1)).toList := by
            simp [SumTerm.text, Decimal.ofInt]
          rw [hText, read, readNat_ofNat]
          rfl

/-- The reader takes a sum between brackets back term by term. It is defined
without any reference to how sums are written. -/
theorem readSum_sumText {terms : List SumTerm} (hNonempty : terms ≠ [])
    (h : ∀ term ∈ terms, term.WellNamed) :
    readSum ("[" ++ sumText terms ++ "]").toList = some terms := by
  obtain ⟨first, rest, rfl⟩ := List.exists_cons_of_ne_nil hNonempty
  have hText : ("[" ++ sumText (first :: rest) ++ "]").toList =
      '[' :: ((sumText (first :: rest)).toList ++ [']']) := by simp
  have hRead : ∀ terms : List SumTerm, (∀ term ∈ terms, term.WellNamed) →
      (terms.map fun term => term.text.toList).mapM read = some terms := by
    intro terms hTerms
    induction terms with
    | nil => rfl
    | cons term rest ih =>
        obtain ⟨hTerm, hRest⟩ := List.forall_mem_cons.mp hTerms
        rw [List.map_cons, List.mapM_cons, read_text hTerm, ih hRest]
        rfl
  rw [hText, readSum]
  simp only [List.getLast?_concat, List.dropLast_concat]
  rw [splitAll_sumText h, hRead _ h]

/-- A sum has a text, because it has a term and no term is without
characters. -/
theorem sumText_ne_empty {terms : List SumTerm} (hNonempty : terms ≠ [])
    (h : ∀ term ∈ terms, term.WellNamed) : sumText terms ≠ "" := by
  obtain ⟨first, rest, rfl⟩ := List.exists_cons_of_ne_nil hNonempty
  intro hEmpty
  have hFirst := (String.append_eq_empty_iff.mp hEmpty).1
  exact text_ne_nil (h first (.head _)) (by rw [hFirst]; rfl)

/-- No other sum has the same text. The other sum need not be the one of any
operand. -/
theorem sumText_injective {terms others : List SumTerm} (hNonempty : terms ≠ [])
    (hTerms : ∀ term ∈ terms, term.WellNamed) (hOthers : ∀ term ∈ others, term.WellNamed)
    (hSame : sumText others = sumText terms) : others = terms := by
  have hSome : others ≠ [] := by
    rintro rfl
    exact sumText_ne_empty hNonempty hTerms hSame.symm
  have hRead := readSum_sumText hSome hOthers
  rw [hSame, readSum_sumText hNonempty hTerms, Option.some.injEq] at hRead
  exact hRead.symm

/-! A plus sign in the wrong place leaves an empty piece. -/

/-- Every plus sign stands between two terms, and the second one has no minus
sign. -/
structure PlusSigns (chars : List Char) : Prop where
  leading : ¬ ['+'] <+: chars
  doubled : ¬ ['+', '+'] <:+: chars
  minus : ¬ ['+', '-'] <:+: chars

/-- What is read before the first sign has no sign in it. -/
theorem split_fst_ne_cons_minus (chars tail : List Char) : (split chars).1 ≠ '-' :: tail := by
  cases chars with
  | nil => simp [split]
  | cons c rest =>
      simp only [split]
      split
      · simp
      · split
        · simp
        · rename_i hMinus
          simp [hMinus]

/-- Nothing is read before the first sign of a text that starts with one. -/
theorem split_fst_of_sign {c : Char} (hSign : c = '+' ∨ c = '-') (rest : List Char) :
    (split (c :: rest)).1 = [] := by
  rcases hSign with rfl | rfl
  · rw [split_plus]
  · rw [split_minus]

/-- Pieces behind the first sign stay pieces, whatever stands before them. So
an empty piece anywhere is found wherever the text is cut. -/
theorem mem_split_append (before : List Char) {chars piece : List Char}
    (h : piece ∈ (split chars).2) : piece ∈ (split (before ++ chars)).2 := by
  induction before with
  | nil => exact h
  | cons c rest ih =>
      simp only [List.cons_append, split]
      split
      · exact .tail _ ih
      · split
        · exact .tail _ ih
        · exact ih

theorem mem_splitAll {chars piece : List Char} (h : piece ∈ (split chars).2) :
    piece ∈ splitAll chars := by
  unfold splitAll
  split
  case h_1 hSplit =>
    rw [hSplit] at h
    exact h
  case h_2 hSplit =>
    rw [hSplit] at h
    exact .tail _ h

/-- A plus sign that does not stand between two terms would leave an empty
piece behind, at the beginning of the text or before another sign. -/
theorem plusSigns_of_pieces {chars : List Char} (h : [] ∉ splitAll chars) : PlusSigns chars := by
  have hDoubled {c : Char} (hSign : c = '+' ∨ c = '-') : ¬ ['+', c] <:+: chars := by
    rintro ⟨before, after, rfl⟩
    refine h (mem_splitAll ?_)
    rw [List.append_assoc]
    refine mem_split_append before ?_
    change [] ∈ (split ('+' :: c :: after)).2
    rw [split_plus, split_fst_of_sign hSign]
    exact .head _
  refine ⟨?_, hDoubled (.inl rfl), hDoubled (.inr rfl)⟩
  rintro ⟨after, rfl⟩
  refine h ?_
  change [] ∈ splitAll ('+' :: after)
  have hFirst := split_fst_ne_cons_minus after
  rw [splitAll, split_plus]
  split
  case h_1 tail others hPieces =>
    rw [Prod.mk.injEq, List.cons.injEq] at hPieces
    exact absurd hPieces.2.1 (hFirst tail)
  case h_2 hPieces =>
    rw [← (Prod.mk.inj hPieces).1]
    exact .head _

/-- A sum does not begin with a plus sign, and has none before another sign. -/
theorem plusSigns_sumText {terms : List SumTerm} (hNonempty : terms ≠ [])
    (h : ∀ term ∈ terms, term.WellNamed) : PlusSigns (sumText terms).toList := by
  obtain ⟨first, rest, rfl⟩ := List.exists_cons_of_ne_nil hNonempty
  refine plusSigns_of_pieces fun hEmpty => ?_
  rw [splitAll_sumText h] at hEmpty
  obtain ⟨term, hTerm, hText⟩ := List.mem_map.mp hEmpty
  exact text_ne_nil (h term hTerm) hText

end Amd64.SumTerm
