import ContractAudit.Text.Blank
import ContractAudit.Text.Word

/-!
# Text patterns

A small language of patterns for recognising names and conditions. `rests` lists every way in which
a pattern covers the beginning of a text, as the rest that it leaves. A pattern is found in a text
when it covers the beginning of some end of it.

Letters are folded by their lower-case form, where the dotted and dotless i, the long s and the
Kelvin sign fold to the ASCII letters i, s and k.
-/

namespace ContractAudit.Text

def foldLetter (c : Char) : Char :=
  if 'A' ≤ c ∧ c ≤ 'Z' then Char.ofNat (c.toNat + 32)
  else if c = 'İ' ∨ c = 'ı' then 'i'
  else if c = 'ſ' then 's'
  else if c = Char.ofNat 0x212a then 'k'
  else c

inductive Pattern where
  | empty
  /-- One character of a class. -/
  | char (p : Char → Bool)
  /-- Any number of characters of a class. -/
  | run (p : Char → Bool)
  | start
  | stop
  /-- The character before, if there is one, is not of the class. -/
  | notAfter (p : Char → Bool)
  /-- The character that follows, if there is one, is not of the class. -/
  | notBefore (p : Char → Bool)
  /-- One of the two neighbours is part of a word and the other is not. -/
  | boundary
  | seq (a b : Pattern)
  | either (a b : Pattern)

/-- A place in a text: the character before it and what follows. -/
structure Place where
  before : Option Char
  after : List Char
  deriving DecidableEq, Repr

namespace Pattern

/-- The places that a run of characters of a class from a place can lead to. -/
def runRests (p : Char → Bool) (before : Option Char) : List Char → List Place
  | [] => [⟨before, []⟩]
  | c :: cs => ⟨before, c :: cs⟩ :: if p c then runRests p (some c) cs else []

/-- The places that a pattern covers the way to. -/
def rests : Pattern → Place → List Place
  | empty, s => [s]
  | char p, s =>
    match s.after with
    | c :: cs => if p c then [⟨some c, cs⟩] else []
    | [] => []
  | run p, s => runRests p s.before s.after
  | start, s => if s.before.isNone then [s] else []
  | stop, s => if s.after.isEmpty then [s] else []
  | notAfter p, s => if s.before.any p then [] else [s]
  | notBefore p, s => if s.after.head?.any p then [] else [s]
  | boundary, s => if s.before.any isWord != s.after.head?.any isWord then [s] else []
  | seq a b, s => (a.rests s).flatMap b.rests
  | either a b, s => a.rests s ++ b.rests s

def foundFrom (p : Pattern) (before : Option Char) : List Char → Bool
  | [] => ! (p.rests ⟨before, []⟩).isEmpty
  | c :: cs => ! (p.rests ⟨before, c :: cs⟩).isEmpty || foundFrom p (some c) cs

/-- The pattern occurs in the text. -/
def foundIn (p : Pattern) (text : String) : Bool := p.foundFrom none text.toList

/-- The text begins with the pattern. -/
def begins (p : Pattern) (text : String) : Bool := ! (p.rests ⟨none, text.toList⟩).isEmpty

/-! ## Building patterns -/

def chain (ps : List Pattern) : Pattern := ps.foldr seq empty

def opt (p : Pattern) : Pattern := either p empty

/-- One of some patterns. -/
def oneOf : List Pattern → Pattern
  | [] => char fun _ => false
  | [p] => p
  | p :: ps => either p (oneOf ps)

/-- The text as it is written. -/
def exactly (s : String) : Pattern := chain (s.toList.map fun c => char (· == c))

/-- The text in any case. -/
def folded (s : String) : Pattern :=
  chain (s.toList.map fun c => char (foldLetter · == foldLetter c))

/-- One of some words in any case. -/
def words (ss : List String) : Pattern := oneOf (ss.map folded)

/-- An underscore that may be missing. -/
def joint : Pattern := opt (char (· == '_'))

/-- Words in any case with a joint between them. -/
def joined (ss : List String) : Pattern := chain ((ss.map folded).intersperse joint)

end Pattern

end ContractAudit.Text
