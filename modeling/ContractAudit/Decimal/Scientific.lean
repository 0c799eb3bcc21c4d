import ContractAudit.Decimal.Layout

/-!
# Numbers with an exponent

Scientific layout writes one digit before the point and a fixed number of digits after it. General
layout takes so many significant digits and chooses between that and positional writing by the size
of the number. Both round the exact value, a half going to the even digit.
-/

namespace ContractAudit.Decimal

/-- A number rounded to so many significant digits: the digits and the exponent of the first. -/
structure Significant where
  digits : List Char
  exponent : Int

/-- Rounds a ratio to `count` significant digits. -/
def significant (count : Nat) (r : Ratio) : Significant :=
  if r.num = 0 then ⟨List.replicate count '0', 0⟩
  else
    let first := magnitude r - 1
    let n := (r.scaleTen ((count : Int) - 1 - first)).round
    let digits := Nat.toDigits 10 n
    if count < digits.length then ⟨digits.take count, first + 1⟩ else ⟨digits, first⟩

def Significant.scientific (s : Significant) (keepPoint : Bool) : String :=
  let rest := s.digits.drop 1
  String.ofList (s.digits.take 1) ++
    (if rest.isEmpty && ! keepPoint then "" else "." ++ String.ofList rest) ++
    "e" ++ NumberLayout.exponentText s.exponent

/-- The digits with a point where the exponent puts it. -/
def Significant.positional (s : Significant) (keepPoint : Bool) : String :=
  if s.exponent < 0 then
    "0." ++ NumberLayout.zeros (-s.exponent - 1).toNat ++ String.ofList s.digits
  else
    let whole := s.exponent.toNat + 1
    let rest := s.digits.drop whole
    String.ofList (s.digits.take whole) ++ NumberLayout.zeros (whole - s.digits.length) ++
      if rest.isEmpty && ! keepPoint then "" else "." ++ String.ofList rest

/-- Leaves out zeros at the end, but not the first digit. -/
def Significant.trimmed (s : Significant) : Significant :=
  match s.digits with
  | [] => s
  | d :: ds => { s with digits := d :: (ds.reverse.dropWhile (· == '0')).reverse }

end ContractAudit.Decimal

namespace ContractAudit.NumberLayout

/-- The text of a number by a layout for ratios, with its sign. -/
def signed (layout : NumberLayout) (x : Float) (write : Ratio → String) : String :=
  match Binary64.ofFloat x with
  | .nan => layout.nan
  | .infinity negative => (if negative then "-" else "") ++ layout.infinity
  | .finite negative mantissa exponent =>
    (if negative then "-" else "") ++ write ((Ratio.mk mantissa 1).scaleTwo exponent)

/-- One digit before the point and `places` after it. -/
def scientific (layout : NumberLayout) (places : Nat) (keepPoint : Bool) (x : Float) : String :=
  layout.signed x fun r => (Decimal.significant (places + 1) r).scientific keepPoint

/-- At most `count` significant digits, positionally from four zeros after the point up to `count`
digits before it. With `keepZeros`, exactly `count` digits. -/
def general (layout : NumberLayout) (count : Nat) (keepZeros : Bool) (x : Float) : String :=
  let count := max count 1
  layout.signed x fun r =>
    let s := Decimal.significant count r
    let shown := if keepZeros then s else s.trimmed
    if -4 ≤ s.exponent ∧ s.exponent < count then shown.positional keepZeros
    else shown.scientific keepZeros

end ContractAudit.NumberLayout
