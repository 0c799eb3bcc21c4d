/-!
# Paths

A path is a root mark and the names along the way; empty names and single dots are dropped, double
dots stay. Two slashes at the start, and no more, are a root of their own.
-/

namespace ContractAudit

structure Path where
  root : String
  parts : List String
  deriving DecidableEq, Repr

namespace Path

/-- The stretches of a text between the characters `sep`. -/
def stretches (sep : Char) : List Char → List (List Char)
  | [] => [[]]
  | c :: cs =>
    if c = sep then [] :: stretches sep cs
    else
      match stretches sep cs with
      | [] => [[c]]
      | s :: ss => (c :: s) :: ss

def ofString (s : String) : Path :=
  let slashes := (s.toList.takeWhile (· == '/')).length
  { root := if slashes = 0 then "" else if slashes = 2 then "//" else "/"
    parts := ((stretches '/' s.toList).map String.ofList).filter fun p => ! p.isEmpty && p != "." }

def text (p : Path) : String :=
  if p.root.isEmpty && p.parts.isEmpty then "."
  else p.root ++ String.intercalate "/" p.parts

/-- The last name. -/
def name (p : Path) : String := p.parts.getLast?.getD ""

/-- Where the last point of a name stands. -/
def lastPoint? (name : List Char) : Option Nat :=
  (name.reverse.findIdx? (· == '.')).map (name.length - 1 - ·)

/-- The last name without what follows its last point; a point at either end of the name does not
count. -/
def stem (p : Path) : String :=
  let name := p.name.toList
  match lastPoint? name with
  | some i => if 0 < i ∧ i + 1 < name.length then String.ofList (name.take i) else p.name
  | none => p.name

/-- The last point of a name and what follows it; points at the start of the name do not count. -/
def extension (name : String) : String :=
  let cs := name.toList
  match lastPoint? cs with
  | some i => if (cs.take i).all (· == '.') then "" else String.ofList (cs.drop i)
  | none => ""

end Path

end ContractAudit
