import CommandGraph.Number.Numeral

/-!
# Numerals read by scaling

The numbers of JSON text are read in double arithmetic. The leading digits of a numeral, as many as
a 64-bit word holds, make a whole number; of the digits left over only those before the point count,
and only by how many they are. The double nearest to that whole number is then multiplied or divided
by the double nearest to a power of ten.

Each of these steps rounds, so the result may lie a few units of its last place away from the double
nearest to the numeral. Numbers typed as text are not read in this way: `Numeral.toDouble` rounds
once.
-/

namespace CommandGraph

namespace Double

/-- The greatest exponent of a power of ten in the range of finite numbers. -/
def greatestTen : Nat := 308

namespace Finite

/-- The product with the number nearest to `10^k`; beyond the range of finite numbers only zero
stays finite. -/
def timesTen (x : Finite) (k : Nat) : Double :=
  match ofDecimal false 1 k with
  | finite ten => x.mul ten
  | _ => if x.isZero then finite x else infinite x.negative

/-- The quotient by the number nearest to `10^k`; beyond the range of finite numbers it is zero. -/
def overTen (x : Finite) (k : Nat) : Double :=
  match ofDecimal false 1 k with
  | finite ten => x.div ten
  | _ => finite { zero with negative := x.negative }

/-- A whole number of at most 64 bits times a power of ten. Where the exponent is too small for one
division, the greatest power of ten is divided off first. -/
def scaleTen (x : Finite) (p : Int) : Double :=
  let k := (-p).toNat
  if 0 ≤ p then x.timesTen p.toNat
  else if k ≤ greatestTen then x.overTen k
  else match x.overTen greatestTen with
    -- What is left is below `10^-288`, so a second greatest power would leave zero.
    | finite y => y.overTen (k - greatestTen)
    | y => y

end Finite

end Double

namespace Numeral

/-- Appends digits to a number as long as a 64-bit word holds it, and gives the digits left over. -/
def appendDigits (m : Nat) : List Char → Nat × List Char
  | [] => (m, [])
  | c :: cs =>
    let next := 10 * m + (c.toNat - '0'.toNat)
    if next < UInt64.size then appendDigits next cs else (m, c :: cs)

/-- The number that a numeral writes, read by scaling. -/
def scaled (n : Numeral) : Double :=
  let (m, dropped) := appendDigits 0 n.whole
  -- After a dropped digit a smaller one may still fit, and is then taken for the dropped one.
  let (m, unread) := appendDigits m n.fraction
  let places : Int := n.fraction.length - unread.length
  match Double.ofQuotient n.negative m 1 with
  | .finite x => x.scaleTen (n.exponent.getD 0 + dropped.length - places)
  | x => x

end Numeral

end CommandGraph
