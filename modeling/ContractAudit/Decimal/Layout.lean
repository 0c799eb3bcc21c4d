import ContractAudit.Decimal.Shortest

/-!
# Written numbers

How a decimal is laid out as text: positionally for moderate exponents and with an exponent mark
otherwise. Fixed-place layout rounds the exact value, a half going to the even digit.
-/

namespace ContractAudit

structure NumberLayout where
  /-- The largest number of digits before the point that is still written positionally. -/
  maxWhole : Int
  /-- The largest number of zeros after the point that is still written positionally. -/
  maxZeros : Int
  nan : String
  infinity : String

namespace NumberLayout

/-- Up to sixteen digits before the point and three zeros after it are positional; a whole number
keeps one zero after the point; an exponent has a sign and at least two digits. -/
def plain : NumberLayout := ⟨16, 3, "nan", "inf"⟩

/-- As `plain`, with the words that data documents use. -/
def document : NumberLayout := ⟨16, 3, "NaN", "Infinity"⟩

def exponentText (e : Int) : String :=
  let digits := toString e.natAbs
  (if e < 0 then "-" else "+") ++ (if digits.length < 2 then "0" ++ digits else digits)

def zeros (n : Nat) : String := String.ofList (List.replicate n '0')

/-- The text of a decimal without sign. -/
def decimalText (layout : NumberLayout) (d : Decimal) : String :=
  let digits := toString d.digits
  let point : Int := digits.length + d.exponent
  if d.digits = 0 then "0.0"
  else if point ≤ layout.maxWhole ∧ -layout.maxZeros ≤ point then
    if point ≤ 0 then "0." ++ zeros (-point).toNat ++ digits
    else if point < digits.length then
      String.ofList (digits.toList.take point.toNat) ++ "." ++
        String.ofList (digits.toList.drop point.toNat)
    else digits ++ zeros (point.toNat - digits.length) ++ ".0"
  else
    let first := String.ofList (digits.toList.take 1)
    let rest := String.ofList (digits.toList.drop 1)
    first ++ (if rest.isEmpty then "" else "." ++ rest) ++ "e" ++ exponentText (point - 1)

def text (layout : NumberLayout) (x : Float) : String :=
  match Binary64.ofFloat x with
  | .nan => layout.nan
  | .infinity negative => (if negative then "-" else "") ++ layout.infinity
  | .finite negative mantissa exponent =>
    (if negative then "-" else "") ++ layout.decimalText (Decimal.shortest mantissa exponent)

/-- The text with exactly `places` digits after the point. -/
def fixed (layout : NumberLayout) (places : Nat) (x : Float) : String :=
  match Binary64.ofFloat x with
  | .nan => layout.nan
  | .infinity negative => (if negative then "-" else "") ++ layout.infinity
  | .finite negative mantissa exponent =>
    let n := (((Ratio.mk mantissa 1).scaleTwo exponent).scaleTen places).round
    let digits := toString n
    let padded := zeros (places + 1 - digits.length) ++ digits
    let whole := padded.length - places
    (if negative then "-" else "") ++ String.ofList (padded.toList.take whole) ++
      (if places = 0 then "" else "." ++ String.ofList (padded.toList.drop whole))

end NumberLayout

/-- The nearest number with `places` decimal places, a half going to the even digit. Numbers that are
not finite stay as they are. -/
def roundPlaces (places : Nat) (x : Float) : Float :=
  match Binary64.ofFloat x with
  | .finite negative mantissa exponent =>
    let n := (((Ratio.mk mantissa 1).scaleTwo exponent).scaleTen places).round
    let r := Float.ofScientific n true places
    if negative then -r else r
  | _ => x

end ContractAudit
