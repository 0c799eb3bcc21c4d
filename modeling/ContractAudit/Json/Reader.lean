import ContractAudit.Decimal.Reading
import ContractAudit.Json
import ContractAudit.Table

/-!
# Reading documents

A reader for one document with blanks around it. A key that comes twice keeps its first place and
its last value. Beside the standard numbers the words `NaN`, `Infinity` and `-Infinity` are read; an
integer of too many digits is not.
The reader takes a bound on its steps; twice the length of the text is always enough.
-/

namespace ContractAudit.Json

def isSpace (c : Char) : Bool := c == ' ' || c == '\n' || c == '\r' || c == '\t'

def skipSpace (cs : List Char) : List Char := cs.dropWhile isSpace

def hexValue? (c : Char) : Option Nat :=
  if '0' ≤ c ∧ c ≤ '9' then some (c.toNat - 48)
  else if 'a' ≤ c ∧ c ≤ 'f' then some (c.toNat - 87)
  else if 'A' ≤ c ∧ c ≤ 'F' then some (c.toNat - 55)
  else none

def unit? (a b c d : Char) : Option Nat := do
  return 4096 * (← hexValue? a) + 256 * (← hexValue? b) + 16 * (← hexValue? c) + (← hexValue? d)

/-- The character a one-letter escape stands for. -/
def shortEscape? : Char → Option Char
  | '"' => some '"'
  | '\\' => some '\\'
  | '/' => some '/'
  | 'b' => some '\x08'
  | 'f' => some '\x0c'
  | 'n' => some '\n'
  | 'r' => some '\r'
  | 't' => some '\t'
  | _ => none

/-- The code units of a string after its opening quote, and the text after its closing quote. -/
def stringUnits : List Char → Option (List Nat × List Char)
  | [] => none
  | '"' :: rest => some ([], rest)
  | '\\' :: 'u' :: a :: b :: c :: d :: rest => do
    let n ← unit? a b c d
    let (ns, rest) ← stringUnits rest
    return (n :: ns, rest)
  | '\\' :: e :: rest => do
    let c ← shortEscape? e
    let (ns, rest) ← stringUnits rest
    return (c.toNat :: ns, rest)
  | c :: rest =>
    if c.toNat < 0x20 ∨ c = '\\' then none
    else do
      let (ns, rest) ← stringUnits rest
      return (c.toNat :: ns, rest)

/-- Joins surrogate pairs; a lone surrogate becomes the replacement character. -/
def joinUnits : List Nat → List Char
  | [] => []
  | hi :: lo :: rest =>
    if 0xd800 ≤ hi ∧ hi < 0xdc00 then
      if 0xdc00 ≤ lo ∧ lo < 0xe000 then
        Char.ofNat (0x10000 + (hi - 0xd800) * 1024 + (lo - 0xdc00)) :: joinUnits rest
      else Char.ofNat 0xfffd :: joinUnits (lo :: rest)
    else (if 0xdc00 ≤ hi ∧ hi < 0xe000 then Char.ofNat 0xfffd else Char.ofNat hi) ::
      joinUnits (lo :: rest)
  | [n] => [if 0xd800 ≤ n ∧ n < 0xe000 then Char.ofNat 0xfffd else Char.ofNat n]

def string? (cs : List Char) : Option (String × List Char) :=
  (stringUnits cs).map fun (units, rest) => (String.ofList (joinUnits units), rest)

/-- The exponent part of a number, if there is one. -/
def exponentPart (cs : List Char) : Option (Int × List Char) :=
  match cs with
  | e :: rest =>
    if e = 'e' ∨ e = 'E' then
      let (negative, rest) := match rest with
        | '-' :: r => (true, r)
        | '+' :: r => (false, r)
        | r => (false, r)
      let ds := rest.takeWhile Char.isDigit
      if ds.isEmpty then none
      else
        let n : Int := Decimal.digitsValue ds
        some (if negative then -n else n, rest.dropWhile Char.isDigit)
    else none
  | [] => none

/-- A number without its sign. -/
def unsigned? (negative : Bool) (cs : List Char) : Option (Json × List Char) :=
  let whole := match cs with
    | '0' :: _ => ['0']
    | _ => cs.takeWhile Char.isDigit
  let rest := cs.drop whole.length
  if whole.isEmpty then none
  else
    let fraction := match rest with
      | '.' :: r => r.takeWhile Char.isDigit
      | _ => []
    let rest := if fraction.isEmpty then rest else rest.drop (fraction.length + 1)
    match fraction, exponentPart rest with
    | [], none =>
      let n : Int := Decimal.digitsValue whole
      if Decimal.maxDigits < whole.length then none
      else some (int (if negative then -n else n), rest)
    | fraction, tail =>
      let (e, rest) := tail.getD (0, rest)
      let x := Decimal.toFloat (Decimal.digitsValue (whole ++ fraction)) (e - fraction.length)
      some (float (if negative then -x else x), rest)

def literals : List (List Char × Json) :=
  [("null".toList, null), ("true".toList, bool true), ("false".toList, bool false),
   ("NaN".toList, float (0.0 / 0.0)), ("Infinity".toList, float (1.0 / 0.0)),
   ("-Infinity".toList, float (-1.0 / 0.0))]

mutual
def value? : (steps : Nat) → List Char → Option (Json × List Char)
  | 0, _ => none
  | steps + 1, cs =>
    match cs with
    | '"' :: rest => (string? rest).map fun (s, rest) => (str s, rest)
    | '[' :: rest =>
      match skipSpace rest with
      | ']' :: rest => some (arr [], rest)
      | rest => (items? steps rest).map fun (items, rest) => (arr items, rest)
    | '{' :: rest =>
      match skipSpace rest with
      | '}' :: rest => some (obj [], rest)
      | rest => (fields? steps [] rest).map fun (fields, rest) => (obj fields, rest)
    | cs =>
      match literals.find? (·.1.isPrefixOf cs) with
      | some (word, value) => some (value, cs.drop word.length)
      | none =>
        match cs with
        | '-' :: rest => unsigned? true rest
        | rest => unsigned? false rest

def items? : (steps : Nat) → List Char → Option (List Json × List Char)
  | 0, _ => none
  | steps + 1, cs => do
    let (item, rest) ← value? steps (skipSpace cs)
    match skipSpace rest with
    | ',' :: rest => do
      let (items, rest) ← items? steps rest
      return (item :: items, rest)
    | ']' :: rest => return ([item], rest)
    | _ => none

def fields? : (steps : Nat) → Table String Json → List Char →
    Option (List (String × Json) × List Char)
  | 0, _, _ => none
  | steps + 1, done, cs =>
    match skipSpace cs with
    | '"' :: rest => do
      let (key, rest) ← string? rest
      match skipSpace rest with
      | ':' :: rest => do
        let (value, rest) ← value? steps (skipSpace rest)
        let done := Table.put done key value
        match skipSpace rest with
        | ',' :: rest => fields? steps done rest
        | '}' :: rest => return (done, rest)
        | _ => none
      | _ => none
    | _ => none
end

/-- The document a text holds. -/
def parse? (text : String) : Option Json := do
  let cs := text.toList
  let (value, rest) ← value? (2 * cs.length + 2) (skipSpace cs)
  if (skipSpace rest).isEmpty then return value else none

end ContractAudit.Json
