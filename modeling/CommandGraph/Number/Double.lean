/-!
# Binary floating point numbers

A `Double` is a number of the 64-bit binary format: a finite number `± m · 2^q`, an infinity, or the
value that is no number. A finite number is held in its one canonical form, so two finite numbers
are equal exactly when their sign, significand and power are. Zero comes with both signs.

Nothing here rounds: the operations of this module read a number exactly. Rounding a quotient to the
nearest number is in `CommandGraph.Number.Rounding`.
-/

namespace CommandGraph

namespace Double

/-- The least power of two that a finite number is a multiple of. -/
def leastPower : Int := -1074

/-- The greatest power of two in a canonical form. -/
def greatestPower : Int := 971

/-- The least significand of 53 bits, `2^52`. -/
def leastFull : Nat := 4503599627370496

/-- The least significand of more than 53 bits, `2^53`. -/
def leastOver : Nat := 9007199254740992

/-- Whether `m · 2^q` is a magnitude of the format in canonical form: the significand fills its 53
bits, unless the power is already the least one. -/
def IsCanonical (m : Nat) (q : Int) : Prop :=
  m < leastOver ∧ leastPower ≤ q ∧ q ≤ greatestPower ∧ (leastFull ≤ m ∨ q = leastPower)

instance (m : Nat) (q : Int) : Decidable (IsCanonical m q) := by
  unfold IsCanonical
  infer_instance

/-- A finite number `± significand · 2^power`. -/
structure Finite where
  /-- Whether the sign is minus; zero has a sign too. -/
  negative : Bool
  /-- The significand. -/
  significand : Nat
  /-- The power of two. -/
  power : Int
  /-- The pair is canonical. -/
  canonical : IsCanonical significand power
deriving DecidableEq

end Double

/-- A number of the 64-bit binary format. -/
inductive Double where
  /-- A finite number. -/
  | finite (x : Double.Finite)
  /-- An infinity. -/
  | infinite (negative : Bool)
  /-- The result that is no number. -/
  | nan
deriving DecidableEq

namespace Double

namespace Finite

/-- Zero, with a plus sign. -/
def zero : Finite := ⟨false, 0, leastPower, by decide⟩

/-- One. -/
def one : Finite := ⟨false, leastFull, -52, by decide⟩

/-- Whether the number is zero of either sign. -/
def isZero (x : Finite) : Bool :=
  x.significand == 0

/-- Whether the number has no fractional part. -/
def isWhole (x : Finite) : Bool :=
  0 ≤ x.power || x.significand % Nat.pow 2 (-x.power).toNat == 0

/-- The magnitude without its fractional part. -/
def truncated (x : Finite) : Nat :=
  if 0 ≤ x.power then x.significand * Nat.pow 2 x.power.toNat
  else x.significand / Nat.pow 2 (-x.power).toNat

/-- The number without its fractional part, brought into the range of 64-bit signed integers by
taking the nearer end of the range. -/
def toInt64 (x : Finite) : Int :=
  let n : Int := if x.negative then -x.truncated else x.truncated
  max Int64.minValue.toInt (min n Int64.maxValue.toInt)

end Finite

/-- Zero, with a plus sign. -/
def zero : Double := finite .zero

/-- One. -/
def one : Double := finite .one

/-- Whether the number is greater than zero. -/
def isPositive : Double → Bool
  | finite x => !x.negative && !x.isZero
  | infinite negative => !negative
  | nan => false

end Double

end CommandGraph
