/-!
# Tokens of contract source

A token is a stretch of source text with its kind, the line it starts on (counted from one) and its
offset in characters. Blanks and comments are no tokens.
-/

namespace ContractAudit

inductive TokenKind where
  | ident
  | number
  | string
  | operator
  | punct
  | other
  deriving DecidableEq, Repr, Inhabited

structure Token where
  kind : TokenKind
  text : String
  line : Nat
  offset : Nat
  deriving DecidableEq, Repr, Inhabited

namespace Token

def isIdent (t : Token) : Bool := t.kind == .ident

/-- The identifier `name`. -/
def isName (t : Token) (name : String) : Bool := t.kind == .ident && t.text == name

/-- One of the identifiers `names`. -/
def isOneOf (t : Token) (names : List String) : Bool := t.kind == .ident && names.contains t.text

def isPunct (t : Token) (text : String) : Bool := t.kind == .punct && t.text == text

def isPunctIn (t : Token) (texts : List String) : Bool := t.kind == .punct && texts.contains t.text

def isOperator (t : Token) (text : String) : Bool := t.kind == .operator && t.text == text

def isOperatorIn (t : Token) (texts : List String) : Bool :=
  t.kind == .operator && texts.contains t.text

/-- The operators that store into their left side. -/
def assignments : List String :=
  ["=", "+=", "-=", "*=", "/=", "%=", "&=", "|=", "^=", "<<=", ">>=", ">>>=", "**="]

def isAssignment (t : Token) : Bool := t.isOperatorIn assignments

/-- The texts of the identifiers of a run, in order. -/
def identifiers (ts : List Token) : List String := (ts.filter isIdent).map (·.text)

end Token

/-- A token in its run: `before` holds the tokens to its left, nearest first. -/
structure Focus where
  before : List Token
  token : Token
  after : List Token
  deriving Repr

namespace Focus

def index (f : Focus) : Nat := f.before.length

def prev? (f : Focus) : Option Token := f.before.head?

def next? (f : Focus) : Option Token := f.after.head?

def focusesFrom (before : List Token) : List Token → List Focus
  | [] => []
  | t :: ts => ⟨before, t, ts⟩ :: focusesFrom (t :: before) ts

/-- Every token of a run, in order, each with its surroundings. -/
def all (ts : List Token) : List Focus := focusesFrom [] ts

theorem focusesFrom_run {before ts : List Token} {f : Focus} (h : f ∈ focusesFrom before ts) :
    f.before.reverse ++ f.token :: f.after = before.reverse ++ ts := by
  induction ts generalizing before with
  | nil => cases h
  | cons t ts ih =>
    rcases List.mem_cons.mp h with rfl | h
    · rfl
    · simpa using ih h

theorem run_of_mem_all {ts : List Token} {f : Focus} (h : f ∈ all ts) :
    f.before.reverse ++ f.token :: f.after = ts := by
  simpa using focusesFrom_run h

end Focus

end ContractAudit
