/-!
# Decimal numbers and binary64

A `Binary64` is a floating-point number taken apart: a finite one is `mantissa · 2 ^ exponent` with
its sign. A `Decimal` is `digits · 10 ^ exponent`. Everything here is exact arithmetic on natural
numbers; rounding happens only where it is named.
-/

namespace ContractAudit

inductive Binary64 where
  | nan
  | infinity (negative : Bool)
  | finite (negative : Bool) (mantissa : Nat) (exponent : Int)
  deriving DecidableEq, Repr

namespace Binary64

/-- The number a bit pattern stands for. -/
def ofBits (bits : Nat) : Binary64 :=
  let negative := bits / Nat.pow 2 63 % 2 == 1
  let biased : Nat := bits / Nat.pow 2 52 % Nat.pow 2 11
  let fraction : Nat := bits % Nat.pow 2 52
  if biased = 2047 then
    if fraction = 0 then infinity negative else nan
  else if biased = 0 then finite negative fraction (-1074)
  else finite negative (Nat.pow 2 52 + fraction) ((biased : Int) - 1075)

def ofFloat (x : Float) : Binary64 := ofBits x.toBits.toNat

end Binary64

/-- The number `digits · 10 ^ exponent`. -/
structure Decimal where
  digits : Nat
  exponent : Int
  deriving DecidableEq, Repr

/-- The ratio of two natural numbers. -/
structure Ratio where
  num : Nat
  den : Nat
  deriving Repr

namespace Ratio

/-- `r · 2 ^ e`. -/
def scaleTwo (r : Ratio) (e : Int) : Ratio :=
  if 0 ≤ e then { r with num := r.num * Nat.pow 2 e.toNat }
  else { r with den := r.den * Nat.pow 2 (-e).toNat }

/-- `r · 10 ^ e`. -/
def scaleTen (r : Ratio) (e : Int) : Ratio :=
  if 0 ≤ e then { r with num := r.num * Nat.pow 10 e.toNat }
  else { r with den := r.den * Nat.pow 10 (-e).toNat }

/-- The nearest natural number; a half goes to the even neighbour. -/
def round (r : Ratio) : Nat :=
  let q := r.num / r.den
  let twice := 2 * (r.num % r.den)
  if twice < r.den then q
  else if r.den < twice then q + 1
  else if q % 2 = 0 then q else q + 1

end Ratio

end ContractAudit
