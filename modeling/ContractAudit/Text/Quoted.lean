import ContractAudit.Json.Writer
import ContractAudit.Text.Printable

/-!
# Quoted text

Text between quotes: single quotes, or double quotes when the text has a single quote and no double
one. The quote, the backslash, line ends and tabs are escaped by a backslash, and a character that
cannot be printed by its number in two, four or eight hexadecimal digits.
-/

namespace ContractAudit.Text

def quoteMark (cs : List Char) : Char := if cs.contains '\'' && ! cs.contains '"' then '"' else '\''

def hexNumber (width n : Nat) : List Char :=
  (List.range width).map fun i => Json.hexDigit (n / Nat.pow 16 (width - 1 - i) % 16)

/-- A character by its number. -/
def numberEscape (c : Char) : List Char :=
  let n := c.toNat
  if n < 0x100 then ['\\', 'x'] ++ hexNumber 2 n
  else if n < 0x10000 then ['\\', 'u'] ++ hexNumber 4 n
  else ['\\', 'U'] ++ hexNumber 8 n

def quoteChar (mark c : Char) : List Char :=
  if c == mark || c == '\\' then ['\\', c]
  else if c == '\n' then ['\\', 'n']
  else if c == '\r' then ['\\', 'r']
  else if c == '\t' then ['\\', 't']
  else if isPrintable c then [c]
  else numberEscape c

def quoted (s : String) : String :=
  let mark := quoteMark s.toList
  String.ofList (mark :: s.toList.flatMap (quoteChar mark) ++ [mark])

/-- A text whose characters beyond the first half of a byte stand by their numbers. -/
def asciiOnly (s : String) : String :=
  String.ofList (s.toList.flatMap fun c => if c.toNat < 0x80 then [c] else numberEscape c)

end ContractAudit.Text
