import ContractAudit.Text.Blank
import ContractAudit.Text.Digit
import ContractAudit.Token

/-!
# Reading tokens

Source text is first cut into pieces: blank runs, comments and lexemes. Each rule looks at the first
character and what follows it and says how many of the following characters belong to the piece; the
first rule that applies decides. Every character starts some piece, so the pieces concatenate to the
text. Tokens are the lexemes, placed at their offset and line.

- A string may carry a `hex` or `unicode` mark, ends at its own quote, may escape any character
  with a backslash, and does not run over a line end that is not escaped.
- A block comment runs to its end mark or, without one, to the end of the text.
- Digits are those of every script; hexadecimal numbers use the sixteen ASCII digits.
-/

namespace ContractAudit

inductive PieceKind where
  | blank
  | comment
  | lexeme (kind : TokenKind)
  deriving DecidableEq, Repr

structure Piece where
  kind : PieceKind
  text : List Char
  deriving DecidableEq, Repr

namespace Lexer

open Text

def isQuote (c : Char) : Bool := c == '"' || c == '\''

/-- The characters up to and with the closing quote. -/
def quotedLength (quote : Char) : List Char → Option Nat
  | [] => none
  | '\\' :: _ :: cs => (quotedLength quote cs).map (· + 2)
  | c :: cs =>
    if c = quote then some 1
    else if c = '\n' || c = '\\' then none
    else (quotedLength quote cs).map (· + 1)

/-- The length of a string at the start of the text. -/
def stringLength : List Char → Option Nat
  | 'h' :: 'e' :: 'x' :: q :: cs => if isQuote q then (quotedLength q cs).map (· + 4) else none
  | 'u' :: 'n' :: 'i' :: 'c' :: 'o' :: 'd' :: 'e' :: q :: cs =>
    if isQuote q then (quotedLength q cs).map (· + 8) else none
  | q :: cs => if isQuote q then (quotedLength q cs).map (· + 1) else none
  | [] => none

/-- The rest of a block comment, its end mark included. -/
def blockLength : List Char → Nat
  | [] => 0
  | '*' :: '/' :: _ => 2
  | _ :: cs => blockLength cs + 1

def commentLength : List Char → Option Nat
  | '/' :: '/' :: cs => some ((cs.takeWhile (· != '\n')).length + 2)
  | '/' :: '*' :: cs => some (blockLength cs + 2)
  | _ => none

/-- A point and at least one digit. -/
def fractionLength : List Char → Nat
  | '.' :: cs => match (cs.takeWhile isDigit).length with
    | 0 => 0
    | n + 1 => n + 2
  | _ => 0

/-- An exponent mark, an optional minus and at least one digit. -/
def exponentLength : List Char → Nat
  | e :: cs =>
    if e = 'e' || e = 'E' then
      match cs with
      | '-' :: ds => match (ds.takeWhile isDigit).length with
        | 0 => 0
        | n + 1 => n + 3
      | ds => match (ds.takeWhile isDigit).length with
        | 0 => 0
        | n + 1 => n + 2
    else 0
  | [] => 0

def decimalLength (cs : List Char) : Nat :=
  let whole := (cs.takeWhile fun c => isDigit c || c == '_').length
  let fraction := fractionLength (cs.drop whole)
  whole + fraction + exponentLength (cs.drop (whole + fraction))

def hexLength : List Char → Option Nat
  | '0' :: x :: cs =>
    if x = 'x' || x = 'X' then
      match (cs.takeWhile fun c => isHexDigit c || c == '_').length with
      | 0 => none
      | n + 1 => some (n + 3)
    else none
  | _ => none

def numberLength : List Char → Option Nat
  | c :: cs =>
    match hexLength (c :: cs) with
    | some n => some n
    | none => if isDigit c then some (decimalLength cs + 1) else none
  | [] => none

def isIdentStart (c : Char) : Bool := c.isAlpha || c == '_' || c == '$'

def isIdentPart (c : Char) : Bool := c.isAlphanum || c == '_' || c == '$'

def identLength : List Char → Option Nat
  | c :: cs => if isIdentStart c then some ((cs.takeWhile isIdentPart).length + 1) else none
  | [] => none

/-- The operators; of those that fit, the earliest in the list is read. -/
def operators : List (List Char) :=
  [['*', '*', '='], ['>', '>', '>', '='], ['<', '<', '='], ['>', '>', '='], ['>', '>', '>'],
   ['+', '+'], ['-', '-'], ['*', '*'], ['=', '='], ['!', '='], ['<', '='], ['>', '='],
   ['&', '&'], ['|', '|'], ['<', '<'], ['>', '>'], ['+', '='], ['-', '='], ['*', '='],
   ['/', '='], ['%', '='], ['&', '='], ['|', '='], ['^', '='], ['=', '>'], ['-', '>'],
   ['='], ['+'], ['-'], ['*'], ['/'], ['%'], ['!'], ['<'], ['>'], ['&'], ['|'], ['^'],
   ['~'], ['?'], [':']]

def operatorLength (cs : List Char) : Option Nat :=
  (operators.find? (·.isPrefixOf cs)).map (·.length)

def isPunctuation (c : Char) : Bool :=
  ['(', ')', '[', ']', '{', '}', ';', ',', '.'].contains c

def blankLength : List Char → Option Nat
  | c :: cs => if isBlank c then some ((cs.takeWhile isBlank).length + 1) else none
  | [] => none

/-- Kind and length of the piece at the start of a text. A character no other rule takes is a piece
by itself. -/
def pieceAt (cs : List Char) : PieceKind × Nat :=
  match blankLength cs with
  | some n => (.blank, n)
  | none =>
  match commentLength cs with
  | some n => (.comment, n)
  | none =>
  match stringLength cs with
  | some n => (.lexeme .string, n)
  | none =>
  match numberLength cs with
  | some n => (.lexeme .number, n)
  | none =>
  match identLength cs with
  | some n => (.lexeme .ident, n)
  | none =>
  match operatorLength cs with
  | some n => (.lexeme .operator, n)
  | none =>
  match cs with
  | c :: _ => if isPunctuation c then (.lexeme .punct, 1) else (.lexeme .other, 1)
  | [] => (.lexeme .other, 1)

/-- The pieces of a text, in order. A piece has at least one character. -/
def pieces : List Char → List Piece
  | [] => []
  | c :: cs =>
    let p := pieceAt (c :: cs)
    ⟨p.1, c :: cs.take (p.2 - 1)⟩ :: pieces (cs.drop (p.2 - 1))
termination_by cs => cs.length
decreasing_by simp only [List.length_drop, List.length_cons]; omega

theorem text_pieces (cs : List Char) : (pieces cs).flatMap (·.text) = cs := by
  fun_induction pieces cs with
  | case1 => rfl
  | case2 c cs p ih => simp [ih, List.take_append_drop]

def newlines (cs : List Char) : Nat := cs.count '\n'

/-- The tokens among the pieces, the first of which stands at `line` and `offset`. -/
def place (line offset : Nat) : List Piece → List Token
  | [] => []
  | p :: ps =>
    let rest := place (line + newlines p.text) (offset + p.text.length) ps
    match p.kind with
    | .lexeme kind => ⟨kind, String.ofList p.text, line, offset⟩ :: rest
    | _ => rest

end Lexer

/-- The tokens of a source text. -/
def tokenize (text : String) : List Token := Lexer.place 1 0 (Lexer.pieces text.toList)

end ContractAudit
