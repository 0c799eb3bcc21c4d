import ContractAudit.Decimal.Layout
import ContractAudit.Json
import ContractAudit.Text.Quoted

/-!
# Documents in literal notation

Values as they are shown to people: texts in quotes, `None`, `True` and `False` for null and the
truth values, lists and tables in brackets.
-/

namespace ContractAudit.Json

mutual
def literal : Json → String
  | null => "None"
  | bool b => if b then "True" else "False"
  | int n => toString n
  | float x => NumberLayout.plain.text x
  | str s => Text.quoted s
  | arr items => "[" ++ String.intercalate ", " (literalItems items) ++ "]"
  | obj fields => "\x7b" ++ String.intercalate ", " (literalFields fields) ++ "\x7d"
termination_by structural j => j

def literalItems : List Json → List String
  | [] => []
  | j :: js => literal j :: literalItems js
termination_by structural js => js

def literalFields : List (String × Json) → List String
  | [] => []
  | f :: fs => literalField f :: literalFields fs
termination_by structural fs => fs

def literalField : String × Json → String
  | (key, value) => Text.quoted key ++ ": " ++ literal value
termination_by structural f => f
end

/-- The value as part of a line: a text stands without quotes. -/
def shown : Json → String
  | str s => s
  | j => literal j

/-- The word for the kind of a value. -/
def kindWord : Json → String
  | null => "NoneType"
  | bool _ => "bool"
  | int _ => "int"
  | float _ => "float"
  | str _ => "str"
  | arr _ => "list"
  | obj _ => "dict"

/-- Neither null, nor false, nor zero, nor empty. -/
def isPresent : Json → Bool
  | null => false
  | bool b => b
  | int n => n != 0
  | float x => x != 0.0
  | str s => ! s.isEmpty
  | arr items => ! items.isEmpty
  | obj fields => ! fields.isEmpty

end ContractAudit.Json
