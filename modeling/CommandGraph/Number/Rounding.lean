import CommandGraph.Number.Double

/-!
# Rounding to the nearest number

The nearest `Double` to a quotient of natural numbers, a quotient halfway between two neighbours
going to the one with the even significand, and one too great for the format going to infinity. An
integer, a decimal, and the product or quotient of two finite numbers are such quotients, so each of
them is rounded once. All of it is exact arithmetic on natural numbers.
-/

namespace CommandGraph

/-- The nearest natural number to `n / d`, a half going to the even neighbour. -/
def roundQuotient (n d : Nat) : Nat :=
  let q := n / d
  let twice := 2 * (n % d)
  if twice < d || (twice == d && q % 2 == 0) then q else q + 1

/-- The two sides of the quotient `n / (d · 2^q)`. -/
def scaleDown (n d : Nat) (q : Int) : Nat × Nat :=
  (n * Nat.pow 2 (-q).toNat, d * Nat.pow 2 q.toNat)

/-- The two sides of the quotient `n · 10^p / d`. -/
def scaleByTen (n d : Nat) (p : Int) : Nat × Nat :=
  (n * Nat.pow 10 p.toNat, d * Nat.pow 10 (-p).toNat)

/-- How many decimal digits a number has. -/
def digitCount (n : Nat) : Nat :=
  (Nat.toDigits 10 n).length

namespace Double

/-- The power that the canonical form of a number close to `n / d` has: the one that leaves a
quotient of 53 bits, and never less than the least power, which is also that of zero. -/
def powerOfQuotient (n d : Nat) : Int :=
  if n = 0 then leastPower
  else
    -- The logarithms are cut off, so this power may be one too small, never too great.
    let q := max leastPower (n.log2 - d.log2 - 53)
    let (n, d) := scaleDown n d q
    if n / d < leastOver then q else q + 1

/-- The nearest number to `± n / d`. -/
def ofQuotient (negative : Bool) (n d : Nat) : Double :=
  let q := powerOfQuotient n d
  let (n, d) := scaleDown n d q
  let m := roundQuotient n d
  -- Rounding up may fill a 54th bit; the significand is `leastOver` then, and halves evenly.
  let (m, q) := if m < leastOver then (m, q) else (m / 2, q + 1)
  if h : IsCanonical m q then finite ⟨negative, m, q, h⟩ else infinite negative

/-- The nearest number to an integer. -/
def ofInt (n : Int) : Double :=
  ofQuotient (n < 0) n.natAbs 1

/-- The nearest number to the product of two finite numbers. -/
def Finite.mul (x y : Finite) : Double :=
  let (n, d) := scaleDown (x.significand * y.significand) 1 (-(x.power + y.power))
  ofQuotient (x.negative != y.negative) n d

/-- The nearest number to the quotient of two finite numbers, of which the second is not zero. -/
def Finite.div (x y : Finite) : Double :=
  let (n, d) := scaleDown x.significand y.significand (y.power - x.power)
  ofQuotient (x.negative != y.negative) n d

/-- Beyond this many digits before the point a decimal is too great for the format. -/
def greatestDecade : Int := 310

/-- Below this many digits before the point a decimal is nearer to zero than to any other number. -/
def leastDecade : Int := -330

/-- The nearest number to `± m · 10^p`. -/
def ofDecimal (negative : Bool) (m : Nat) (p : Int) : Double :=
  -- Far out of range the answer is known, and no great power of ten has to be made.
  let decade := digitCount m + p
  if m = 0 ∨ decade < leastDecade then finite { Finite.zero with negative }
  else if greatestDecade < decade then infinite negative
  else
    let (n, d) := scaleByTen m 1 p
    ofQuotient negative n d

end Double

end CommandGraph
