import ContractAudit.Decimal.Reading
import ContractAudit.Text.Blank
import ContractAudit.Text.Digit
import ContractAudit.Text.Lower

/-!
# Numerals in free text

Whole and real numbers as people write them in settings: spaces around them, a sign, single
underscores between digits. A whole number may have zeros in front, before its minus sign too, and
may end in a point and zeros. A real number may have an exponent or be one of the words for an
infinite number or for no number.
-/

namespace ContractAudit.Text

/-- A space: a blank that is no information separator. -/
def isSpace (c : Char) : Bool := isBlank c && ! (0x1c ≤ c.toNat && c.toNat ≤ 0x1f)

def stripSpaces (cs : List Char) : List Char :=
  ((cs.dropWhile isSpace).reverse.dropWhile isSpace).reverse

/-- The sign of a numeral, negative or not, and what follows it. -/
def splitSign : List Char → Bool × List Char
  | '-' :: cs => (true, cs)
  | '+' :: cs => (false, cs)
  | cs => (false, cs)

/-- The digits of a run in which single underscores stand between digits. -/
def grouped? : List Char → Option (List Char)
  | [] => none
  | [c] => if c.isDigit then some [c] else none
  | c :: '_' :: cs => if c.isDigit then (grouped? cs).map (c :: ·) else none
  | c :: cs => if c.isDigit then (grouped? cs).map (c :: ·) else none

/-- Underscores are single and none is the last character. -/
def hasGroups : List Char → Bool
  | [] => true
  | ['_'] => false
  | '_' :: '_' :: _ => false
  | _ :: cs => hasGroups cs

/-- The text without its underscores, if they are single and stand inside; otherwise as it is. -/
def ungroup (cs : List Char) : List Char :=
  if cs.head? != some '_' && hasGroups cs then cs.filter (· != '_') else cs

/-- Why a text stands for no whole number. -/
inductive NumeralFault where
  | malformed
  | tooLong
  deriving DecidableEq, Repr

/-- The text after a plus sign, which no minus sign may follow directly. -/
def dropPlus? : List Char → Option (List Char)
  | '+' :: '-' :: _ => none
  | '+' :: cs => some cs
  | cs => some cs

def isNonzeroDigit (c : Char) : Bool := '1' ≤ c && c ≤ '9'

/-- The text after the zeros, and underscores among them, that follow the character `last`. That
character is kept where no digit comes: before a point and at the end. -/
def afterZeros? (last : Char) : List Char → Option (List Char)
  | [] => some [last]
  | c :: cs =>
    if c == '0' || c == '_' then afterZeros? c cs
    else if isNonzeroDigit c || c == '-' then some (c :: cs)
    else if c == '.' then some (last :: c :: cs)
    else none

/-- The text after the zeros in front of a numeral. -/
def dropZeros? : List Char → Option (List Char)
  | [] => none
  | c :: cs =>
    if c == '0' then afterZeros? c cs
    else if isNonzeroDigit c || c == '-' then some (c :: cs)
    else none

/-- The text before a point that only zeros follow, at least one of them. -/
def dropZeroFraction (cs : List Char) : List Char :=
  match cs.dropWhile (· != '.') with
  | _ :: d :: ds => if (d :: ds).all (· == '0') then cs.takeWhile (· != '.') else cs
  | _ => cs

/-- A natural number in digits without zeros in front. The digits may be so many that the number is
not looked at further. -/
def plainNatural (limit : Nat) (cs : List Char) : Except NumeralFault Nat :=
  let digits := cs.takeWhile Char.isDigit
  if cs = ['0'] then .ok 0
  else if ! cs.head?.any isNonzeroDigit then .error .malformed
  else if limit < digits.length then .error .tooLong
  else if digits.length < cs.length then .error .malformed
  else .ok (Decimal.digitsValue digits)

/-- An integer in digits without zeros in front. A minus sign counts as a digit. -/
def plainInteger : List Char → Except NumeralFault Int
  | '-' :: cs => (plainNatural (Decimal.maxDigits - 1) cs).map fun n => -(n : Int)
  | cs => (plainNatural Decimal.maxDigits cs).map fun n => (n : Int)

/-- The whole number that a text stands for. -/
def wholeNumber (text : String) : Except NumeralFault Int :=
  match (dropPlus? (stripSpaces text.toList)).bind dropZeros? with
  | some cs => plainInteger (ungroup (dropZeroFraction cs))
  | none => .error .malformed

/-- The integer that a text stands for: blanks around it, a sign, digits of any script, single
underscores between them, and no point. -/
def integer? (text : String) : Option Int := do
  let (negative, cs) := splitSign (trim text.toList)
  let digits ← grouped? (cs.map plainDigit)
  if Decimal.maxDigits < digits.length then none
  let n : Int := Decimal.digitsValue digits
  return if negative then -n else n

/-- The exponent of a numeral; without a mark it is zero. -/
def exponent? : List Char → Option Int
  | [] => some 0
  | c :: cs =>
    if c == 'e' || c == 'E' then
      let (negative, ds) := splitSign cs
      if ds.isEmpty || ! ds.all Char.isDigit then none
      else
        let n : Int := Decimal.digitsValue ds
        some (if negative then -n else n)
    else none

/-- A real number without sign. -/
def unsignedReal? (cs : List Char) : Option Float :=
  let word := lower (String.ofList cs)
  if word == "inf" || word == "infinity" then some (1.0 / 0.0)
  else if word == "nan" then some (0.0 / 0.0)
  else
    let whole := cs.takeWhile Char.isDigit
    let rest := cs.dropWhile Char.isDigit
    let (fraction, rest) := match rest with
      | '.' :: r => (r.takeWhile Char.isDigit, r.dropWhile Char.isDigit)
      | r => ([], r)
    if whole.isEmpty && fraction.isEmpty then none
    else
      (exponent? rest).map fun e =>
        Decimal.toFloat (Decimal.digitsValue (whole ++ fraction)) (e - fraction.length)

def plainReal? (cs : List Char) : Option Float :=
  let (negative, cs) := splitSign cs
  (unsignedReal? cs).map fun x => if negative then -x else x

/-- The real number that a text stands for. Spaces are dropped only where there are no underscores. -/
def realNumber? (text : String) : Option Float :=
  (plainReal? (stripSpaces text.toList)).or (plainReal? (ungroup text.toList))

end ContractAudit.Text
