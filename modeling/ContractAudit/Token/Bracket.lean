import ContractAudit.Token

/-!
# Brackets

Matching of parentheses, square brackets and braces. Each kind of bracket is matched on its own:
brackets of the other kinds in between do not matter. Looking for an opening bracket is the same
search as looking for a closing one, on the tokens to the left taken nearest first.
-/

namespace ContractAudit

inductive Bracket where
  | paren
  | square
  | brace
  deriving DecidableEq, Repr

namespace Bracket

def opening : Bracket → String
  | paren => "("
  | square => "["
  | brace => "\x7b"

def closing : Bracket → String
  | paren => ")"
  | square => "]"
  | brace => "\x7d"

def all : List Bracket := [paren, square, brace]

end Bracket

namespace Token

def opens (b : Bracket) (t : Token) : Bool := t.isPunct b.opening

def closes (b : Bracket) (t : Token) : Bool := t.isPunct b.closing

def opener? (t : Token) : Option Bracket := Bracket.all.find? (t.opens ·)

def closer? (t : Token) : Option Bracket := Bracket.all.find? (t.closes ·)

end Token

/-- A run cut at the token that leaves a bracket entered before it. -/
structure Enclosed where
  inner : List Token
  close : Token
  rest : List Token
  deriving Repr, DecidableEq

namespace Enclosed

def cons (t : Token) (e : Enclosed) : Enclosed := { e with inner := t :: e.inner }

/-- Cuts a run that stands inside `depth + 1` brackets where it leaves the outermost. -/
def find? (enter leave : Token → Bool) : (depth : Nat) → List Token → Option Enclosed
  | _, [] => none
  | depth, t :: ts =>
    if enter t then (find? enter leave (depth + 1) ts).map (cons t)
    else if leave t then
      match depth with
      | 0 => some ⟨[], t, ts⟩
      | d + 1 => (find? enter leave d ts).map (cons t)
    else (find? enter leave depth ts).map (cons t)

theorem run_of_find? {enter leave : Token → Bool} {depth : Nat} {ts : List Token} {e : Enclosed}
    (h : find? enter leave depth ts = some e) : e.inner ++ e.close :: e.rest = ts := by
  induction ts generalizing depth e with
  | nil => simp [find?] at h
  | cons t ts ih =>
    have step : ∀ {d : Nat}, (find? enter leave d ts).map (cons t) = some e →
        e.inner ++ e.close :: e.rest = t :: ts := by
      intro d hd
      obtain ⟨e', he', rfl⟩ := Option.map_eq_some_iff.mp hd
      simp [cons, ih he']
    rw [find?.eq_def] at h
    simp only at h
    split at h
    · exact step h
    · split at h
      · split at h
        · simp only [Option.some.injEq] at h
          subst h
          rfl
        · exact step h
      · exact step h

end Enclosed

namespace Bracket

/-- The run after an opening bracket, cut at the bracket that closes it. -/
def enclosed? (b : Bracket) (after : List Token) : Option Enclosed :=
  Enclosed.find? (·.opens b) (·.closes b) 0 after

/-- The run before a closing bracket, nearest first, cut at the bracket that opens it. -/
def enclosedBack? (b : Bracket) (before : List Token) : Option Enclosed :=
  Enclosed.find? (·.closes b) (·.opens b) 0 before

theorem enclosed?_length {b : Bracket} {after : List Token} {e : Enclosed}
    (h : b.enclosed? after = some e) : e.inner.length + e.rest.length + 1 = after.length := by
  rw [← Enclosed.run_of_find? h]
  simp
  omega

theorem enclosedBack?_length {b : Bracket} {before : List Token} {e : Enclosed}
    (h : b.enclosedBack? before = some e) : e.inner.length + e.rest.length + 1 = before.length := by
  rw [← Enclosed.run_of_find? h]
  simp
  omega

end Bracket

namespace Token

/-- Where the bracket opened by the token at `i` closes. -/
def closingIndex? (ts : List Token) (i : Nat) : Option Nat :=
  match ts.drop i with
  | [] => none
  | t :: after => do
    let b ← t.opener?
    let e ← b.enclosed? after
    return i + 1 + e.inner.length

/-- Where the bracket closed by the token at `j` opens. -/
def openingIndex? (ts : List Token) (j : Nat) : Option Nat :=
  match ts.drop j with
  | [] => none
  | t :: _ => do
    let b ← t.closer?
    let e ← b.enclosedBack? (ts.take j).reverse
    return e.rest.length

end Token

end ContractAudit
