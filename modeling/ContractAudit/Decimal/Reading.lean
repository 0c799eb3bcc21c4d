import ContractAudit.Decimal

/-!
# Reading decimals
-/

namespace ContractAudit.Decimal

def digitsValue (ds : List Char) : Nat := ds.foldl (fun n c => 10 * n + (c.toNat - 48)) 0

/-- The most digits that an integer is read from. -/
def maxDigits : Nat := 4300

/-- `digits · 10 ^ exponent` rounded to the nearest number. Exponents beyond any finite number are
cut, so that no huge power is computed. -/
def toFloat (digits : Nat) (exponent : Int) : Float :=
  let count : Int := (toString digits).length
  if digits = 0 then 0.0
  else if 400 < exponent + count then 1.0 / 0.0
  else if exponent + count < -400 then 0.0
  else if 0 ≤ exponent then Float.ofScientific digits false exponent.toNat
  else Float.ofScientific digits true (-exponent).toNat

end ContractAudit.Decimal
