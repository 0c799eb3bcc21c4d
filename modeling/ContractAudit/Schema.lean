import ContractAudit.Json
import ContractAudit.Text.Numeral

/-!
# Checked reading of documents

Reading a record collects every fault it meets, in the order of the fields, each with the path of
keys and positions that leads to it. Numbers and flags are also read from texts that stand for them.
-/

namespace ContractAudit

inductive Problem where
  | missing
  | notText
  | notNumeral
  | notWhole
  | notFinite
  | hasFraction
  | tooLarge
  | notRealNumeral
  | notReal
  | notFlagWord
  | notFlag
  | notList
  | notSequence
  | notTable
  | notRecord
  | notMember
  | notLiteral
  | tooSmall (bound : Int)
  | notAbove (bound : Int)
  deriving DecidableEq, Repr

/-- What is said to a reader about a bound that is not kept. -/
def Problem.boundMessage : Problem → String
  | tooSmall bound => "Input should be greater than or equal to " ++ toString bound
  | notAbove bound => "Input should be greater than " ++ toString bound
  | _ => "Input is not valid"

structure FieldFault where
  path : List String
  problem : Problem
  deriving DecidableEq, Repr

/-- A value, or all the faults that stand in its way. -/
inductive Checked (α : Type) where
  | valid (a : α)
  | faulty (faults : List FieldFault)
  deriving Repr

namespace Checked

def fault (p : Problem) : Checked α := faulty [⟨[], p⟩]

def map (f : α → β) : Checked α → Checked β
  | valid a => valid (f a)
  | faulty fs => faulty fs

/-- Applies a checked function; the faults of both are kept. -/
def apply : Checked (α → β) → Checked α → Checked β
  | valid f, valid a => valid (f a)
  | valid _, faulty fs => faulty fs
  | faulty fs, valid _ => faulty fs
  | faulty fs, faulty gs => faulty (fs ++ gs)

instance : Applicative Checked where
  pure := valid
  seq f a := apply f (a ())

/-- Says that the value stands at `key`. -/
def under (key : String) : Checked α → Checked α
  | valid a => valid a
  | faulty fs => faulty (fs.map fun f => { f with path := key :: f.path })

/-- A further condition on a valid value. -/
def ensure (ok : α → Bool) (p : Problem) : Checked α → Checked α
  | valid a => if ok a then valid a else fault p
  | faulty fs => faulty fs

def toExcept : Checked α → Except (List FieldFault) α
  | valid a => .ok a
  | faulty fs => .error fs

end Checked

/-- A way to read a value of a document. -/
abbrev Schema (α : Type) := Json → Checked α

namespace Schema

open Checked

def text : Schema String
  | .str s => valid s
  | _ => fault .notText

/-- The bound on the size of whole numbers that fit a machine word with a sign. -/
def wordLimit : Nat := Nat.pow 2 63

/-- The whole number that a number without fraction is, within the range of a machine word. -/
def ofFloat (x : Float) : Checked Int :=
  match Binary64.ofFloat x with
  | .finite negative mantissa exponent =>
    let magnitude := (Ratio.mk mantissa 1).scaleTwo exponent
    let n := magnitude.num / magnitude.den
    if magnitude.num % magnitude.den != 0 then fault .hasFraction
    else if wordLimit ≤ n then fault .tooLarge
    else valid (if negative then -n else n)
  | _ => fault .notFinite

def ofNumeral (s : String) : Checked Int :=
  match Text.wholeNumber s with
  | .ok n => valid n
  | .error .malformed => fault .notNumeral
  | .error .tooLong => fault .tooLarge

def whole : Schema Int
  | .int n => valid n
  | .bool b => valid (if b then 1 else 0)
  | .float x => ofFloat x
  | .str s => ofNumeral s
  | _ => fault .notWhole

/-- A whole number as a real one, unless it is beyond all of them. -/
def ofWhole (n : Int) : Checked Float :=
  let x := Float.ofInt n
  if x.isInf then fault .notReal else valid x

def real : Schema Float
  | .float x => valid x
  | .int n => ofWhole n
  | .bool b => valid (if b then 1.0 else 0.0)
  | .str s =>
    match Text.realNumber? s with
    | some x => valid x
    | none => fault .notRealNumeral
  | _ => fault .notReal

/-- A text in which only the ASCII letters are lowered. -/
def asciiLower (s : String) : String := String.ofList (s.toList.map Char.toLower)

def flagWord? (s : String) : Option Bool :=
  let w := asciiLower s
  if ["1", "t", "true", "y", "yes", "on"].contains w then some true
  else if ["0", "f", "false", "n", "no", "off"].contains w then some false
  else none

/-- Zero and one are flags. Another machine word is a wrong sign for a flag, and a larger number is
none at all. -/
def flagOfInt (n : Int) : Checked Bool :=
  if n = 0 then valid false
  else if n = 1 then valid true
  else if -(wordLimit : Int) ≤ n ∧ n < wordLimit then fault .notFlagWord
  else fault .notFlag

def flag : Schema Bool
  | .bool b => valid b
  | .int n => flagOfInt n
  | .float x =>
    match ofFloat x with
    | valid n => flagOfInt n
    | faulty _ => fault .notFlag
  | .str s =>
    match flagWord? s with
    | some b => valid b
    | none => fault .notFlagWord
  | _ => fault .notFlag

/-- One of the words of a closed set. -/
def member (ofWord? : String → Option α) (p : Problem) : Schema α
  | .str s =>
    match ofWord? s with
    | some a => valid a
    | none => fault p
  | _ => fault p

def nullable (read : Schema α) : Schema (Option α)
  | .null => valid none
  | j => (read j).map some

/-- Reads items that stand at the positions from `i` on. -/
def itemsFrom (read : Schema α) (i : Nat) : List Json → Checked (List α)
  | [] => valid []
  | j :: js => List.cons <$> (read j).under (toString i) <*> itemsFrom read (i + 1) js

/-- A list of items; `p` is the problem with anything else. -/
def list (read : Schema α) (p : Problem) : Schema (List α)
  | .arr items => itemsFrom read 0 items
  | _ => fault p

def entriesOf (read : Schema α) : List (String × Json) → Checked (List (String × α))
  | [] => valid []
  | (key, j) :: rest =>
    (fun a as => (key, a) :: as) <$> (read j).under key <*> entriesOf read rest

/-- A table from texts to values. -/
def table (read : Schema α) : Schema (List (String × α))
  | .obj entries => entriesOf read entries
  | _ => fault .notTable

/-- A record, given what its fields are read to. -/
def record (read : List (String × Json) → Checked α) : Schema α
  | .obj entries => read entries
  | _ => fault .notRecord

def lookup (key : String) (entries : List (String × Json)) : Option Json :=
  (entries.find? (·.1 == key)).map (·.2)

def required (key : String) (read : Schema α) (entries : List (String × Json)) : Checked α :=
  match lookup key entries with
  | some j => (read j).under key
  | none => Checked.under key (fault .missing)

def optional (key : String) (default : α) (read : Schema α) (entries : List (String × Json)) :
    Checked α :=
  match lookup key entries with
  | some j => (read j).under key
  | none => valid default

end Schema

end ContractAudit
