import ContractAudit.Decimal

/-!
# The shortest decimal

The shortest decimal of a binary64 number is the one with the fewest digits that still rounds to
that number; of two such decimals the nearer is taken, and the one with the even last digit if they
are equally near. The reals that round to a number form an interval whose ends belong to it exactly
when the mantissa is even. For one to seventeen digits the two neighbours of the number on that
decimal grid are tested against the interval.
-/

namespace ContractAudit.Decimal

/-- Strips trailing zeros from a digit string of at most `fuel` digits. -/
def normalizeWith : (fuel : Nat) → Decimal → Decimal
  | 0, d => d
  | fuel + 1, d =>
    if d.digits ≠ 0 ∧ d.digits % 10 = 0 then normalizeWith fuel ⟨d.digits / 10, d.exponent + 1⟩ else d

/-- The same number with no zero at the end of its digits. -/
def normalize (d : Decimal) : Decimal := normalizeWith 20 d

/-- Quarters of a unit in the last place around `mantissa · 2 ^ exponent`: the lower end of the
rounding interval, the number and the upper end. The gap below a power of two is half as wide. -/
structure Interval where
  low : Nat
  mid : Nat
  high : Nat
  /-- The ends round to the number. -/
  closed : Bool
  exponent : Int

def Interval.of (mantissa : Nat) (exponent : Int) : Interval where
  low := if mantissa = Nat.pow 2 52 ∧ -1074 < exponent then 4 * mantissa - 1 else 4 * mantissa - 2
  mid := 4 * mantissa
  high := 4 * mantissa + 2
  closed := mantissa % 2 == 0
  exponent := exponent - 2

/-- `n` units of `10 ^ e` round to the number of the interval. -/
def Interval.holds (i : Interval) (n : Nat) (e : Int) : Bool :=
  -- n · 10 ^ e compared with q · 2 ^ exponent, over one denominator
  let point := ((Ratio.mk n 1).scaleTen e).scaleTwo (- i.exponent)
  let low := i.low * point.den
  let high := i.high * point.den
  if i.closed then low ≤ point.num && point.num ≤ high else low < point.num && point.num < high

/-- The number of decimal digits before the point, for a number that is at least one, and minus the
number of zeros after the point otherwise. -/
def magnitude (r : Ratio) : Int :=
  if r.den ≤ r.num then ((Nat.toDigits 10 (r.num / r.den)).length : Int)
  else
    let inverse := (r.den - 1) / r.num
    1 - ((Nat.toDigits 10 inverse).length : Int)

/-- The better of the two neighbours of the number on the grid of `10 ^ e`. -/
def neighbour (i : Interval) (e : Int) : Option Decimal :=
  let scaled := ((Ratio.mk i.mid 1).scaleTwo i.exponent).scaleTen (-e)
  let below := scaled.num / scaled.den
  match i.holds below e, i.holds (below + 1) e with
  | true, true => some ⟨scaled.round, e⟩
  | true, false => some ⟨below, e⟩
  | false, true => some ⟨below + 1, e⟩
  | false, false => none

/-- Tries grids of `count` and more digits, finer by one digit each time. -/
def search (i : Interval) (top : Int) : (tries : Nat) → (count : Nat) → Decimal
  | 0, count => ⟨((Ratio.mk i.mid 1).scaleTwo i.exponent |>.scaleTen (count - top)).round, top - count⟩
  | tries + 1, count =>
    match neighbour i (top - count) with
    | some d => d
    | none => search i top tries (count + 1)

/-- The shortest decimal of `mantissa · 2 ^ exponent`. -/
def shortest (mantissa : Nat) (exponent : Int) : Decimal :=
  if mantissa = 0 then ⟨0, 0⟩
  else
    let i := Interval.of mantissa exponent
    let top := magnitude ((Ratio.mk i.mid 1).scaleTwo i.exponent)
    normalize (search i top 17 1)

end ContractAudit.Decimal
