import CommandGraph.Number.Numeral

/-!
# Shortest decimal text

The text of a double is the decimal with the fewest digits that rounds back to it, and of several
with as many digits the nearest one. The search is exact: a finite number has an interval of reals
that round to it, and for one digit, two digits and so on up to seventeen the number's two
neighbours on that decimal grid are tested against the interval. Seventeen digits always suffice.
-/

namespace CommandGraph

/-- A decimal `d₁.d₂d₃... · 10^exponent`. -/
structure Scientific where
  /-- The digits, the one before the point first. -/
  digits : List Char
  /-- The power of ten of the first digit. -/
  exponent : Int
deriving DecidableEq

/-- The exponent `e` with `10^e ≤ n / d < 10^(e+1)`, for a positive quotient. -/
def decimalExponent (n d : Nat) : Int :=
  if d ≤ n then digitCount (n / d) - 1
  else
    -- `10^(t-1) ≤ d / n < 10^t`, and the lower bound is met exactly only by a power of ten.
    let t := digitCount (d / n)
    if d ≤ n * Nat.pow 10 (t - 1) then -(t - 1 : Nat) else -(t : Nat)

namespace Double.Finite

/-- The reals that round to a number, as multiples of `unit / 4` where `unit` is the distance to the
next greater number: the lower end, the number itself, the upper end. Below a power of two the
neighbour is only half as far. -/
def interval (x : Finite) : Nat × Nat × Nat :=
  let m := x.significand
  let below := if m = leastFull ∧ leastPower < x.power then 1 else 2
  (4 * m - below, 4 * m, 4 * m + 2)

/-- The number's neighbour on the grid of multiples of `10^p` that rounds back to the number, if one
does; of two the nearer, and of two equally near the even one. -/
def onGrid? (x : Finite) (p : Int) : Option Nat :=
  let (low, mid, high) := x.interval
  -- A quarter of the unit is `s / d` steps of the grid, so all comparisons are in whole numbers.
  let (s, d) := scaleDown 1 1 (2 - x.power)
  let (s, d) := scaleByTen s d (-p)
  -- A tie goes to the even significand, so an even one owns the ends of its interval.
  let fits (c : Nat) : Bool :=
    if x.significand % 2 = 0 then low * s ≤ c * d && c * d ≤ high * s
    else low * s < c * d && c * d < high * s
  let floor := mid * s / d
  let nearest := roundQuotient (mid * s) d
  let other := if nearest = floor then floor + 1 else floor
  if fits nearest then some nearest
  else if mid * s % d != 0 && fits other then some other
  else none

/-- The shortest decimal that rounds back to a number other than zero, its sign apart. -/
def shortest (x : Finite) : Scientific :=
  let (n, d) := scaleDown x.significand 1 (-x.power)
  let e := decimalExponent n d
  let found := (List.range 17).findSome? fun (extra : Nat) =>
    (x.onGrid? (e - extra)).map fun c => (c, e - extra)
  let (c, p) := found.getD (0, 0)
  let digits := Nat.toDigits 10 c
  let exponent := p + digits.length - 1
  -- A point found on a coarse grid may still end in zeros, as ten does on the grid of units.
  { digits := (digits.reverse.dropWhile (· == '0')).reverse, exponent }

end Double.Finite

/-- From this exponent on a decimal is written without an exponent mark. -/
def positionalFrom : Int := -5

/-- From this exponent on a decimal is again written with an exponent mark. -/
def positionalBelow : Int := 16

/-- Writes a decimal: positionally and with at least one digit after the point where the exponent is
small, otherwise with one digit before the point and an exponent mark. -/
def Scientific.numeral (s : Scientific) (negative : Bool) : Numeral :=
  let e := s.exponent
  if positionalFrom ≤ e ∧ e < 0 then
    { negative, whole := ['0'], fraction := List.replicate (-e - 1).toNat '0' ++ s.digits }
  else if 0 ≤ e ∧ e < positionalBelow then
    let size := e.toNat + 1
    let padded := s.digits ++ List.replicate (size - s.digits.length) '0'
    let fraction := padded.drop size
    { negative, whole := padded.take size,
      fraction := if fraction.isEmpty then ['0'] else fraction }
  else
    { negative, whole := s.digits.take 1, fraction := s.digits.drop 1, exponent := some e }

namespace Double

/-- The numeral that writes a finite number. -/
def Finite.numeral (x : Finite) : Numeral :=
  if x.isZero then { negative := x.negative, whole := ['0'], fraction := ['0'] }
  else x.shortest.numeral x.negative

/-- The text of a number. -/
def text : Double → String
  | finite x => String.ofList x.numeral.chars
  | infinite negative => if negative then "-inf" else "inf"
  | nan => "NaN"

end Double

end CommandGraph
