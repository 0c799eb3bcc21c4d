import ContractAudit.Decimal.Layout
import ContractAudit.Json

/-!
# Writing documents

Documents are written in ASCII: every other character of a string is escaped as one or two UTF-16
units. There are two layouts, one on a single line and one with an indented line per item.
-/

namespace ContractAudit.Json

def hexDigit (n : Nat) : Char := "0123456789abcdef".toList.getD n '0'

/-- A UTF-16 unit as an escape. -/
def unitEscape (n : Nat) : List Char :=
  ['\\', 'u', hexDigit (n / 4096 % 16), hexDigit (n / 256 % 16), hexDigit (n / 16 % 16),
    hexDigit (n % 16)]

def escapeChar (c : Char) : List Char :=
  if c = '"' then ['\\', '"']
  else if c = '\\' then ['\\', '\\']
  else if c = '\n' then ['\\', 'n']
  else if c = '\r' then ['\\', 'r']
  else if c = '\t' then ['\\', 't']
  else if c = '\x08' then ['\\', 'b']
  else if c = '\x0c' then ['\\', 'f']
  else
    let n := c.toNat
    if 0x20 ≤ n ∧ n < 0x7f then [c]
    else if n < 0x10000 then unitEscape n
    else unitEscape (0xd800 + (n - 0x10000) / 1024) ++ unitEscape (0xdc00 + (n - 0x10000) % 1024)

def quote (s : String) : String := String.ofList ('"' :: s.toList.flatMap escapeChar ++ ['"'])

def scalarText : Json → String
  | null => "null"
  | bool true => "true"
  | bool false => "false"
  | int n => toString n
  | float x => NumberLayout.document.text x
  | str s => quote s
  | arr _ => "[]"
  | obj _ => "\x7b\x7d"

mutual
/-- The document on one line. -/
def line : Json → String
  | arr items => "[" ++ String.intercalate ", " (lines items) ++ "]"
  | obj fields => "\x7b" ++ String.intercalate ", " (fieldLines fields) ++ "\x7d"
  | other => scalarText other
termination_by structural j => j

def lines : List Json → List String
  | [] => []
  | j :: js => line j :: lines js
termination_by structural js => js

def fieldLines : List (String × Json) → List String
  | [] => []
  | f :: fs => fieldLine f :: fieldLines fs
termination_by structural fs => fs

def fieldLine : String × Json → String
  | (key, value) => quote key ++ ": " ++ line value
termination_by structural f => f
end

def newLine (depth : Nat) : String := "\n" ++ String.ofList (List.replicate (2 * depth) ' ')

/-- Items between brackets, each on a line of its own. -/
def block (opening closing : String) (depth : Nat) : List String → String
  | [] => opening ++ closing
  | items =>
    opening ++ newLine (depth + 1) ++ String.intercalate ("," ++ newLine (depth + 1)) items ++
      newLine depth ++ closing

mutual
/-- The document with an indented line per item, standing at `depth`. -/
def indented (depth : Nat) : Json → String
  | arr items => block "[" "]" depth (indentedAll (depth + 1) items)
  | obj fields => block "\x7b" "\x7d" depth (indentedFields (depth + 1) fields)
  | other => scalarText other
termination_by structural j => j

def indentedAll (depth : Nat) : List Json → List String
  | [] => []
  | j :: js => indented depth j :: indentedAll depth js
termination_by structural js => js

def indentedFields (depth : Nat) : List (String × Json) → List String
  | [] => []
  | f :: fs => indentedField depth f :: indentedFields depth fs
termination_by structural fs => fs

def indentedField (depth : Nat) : String × Json → String
  | (key, value) => quote key ++ ": " ++ indented depth value
termination_by structural f => f
end

/-- The document with two blanks of indentation per level. -/
def pretty (j : Json) : String := indented 0 j

end ContractAudit.Json
