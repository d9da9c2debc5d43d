import CommandGraph.Dictionary
import CommandGraph.Number.Shortest

/-!
# JSON values

A JSON value as property values and save documents use it. Numbers keep the sort in which they were
written: whole numbers of the 64-bit ranges stay whole, and all others are finite doubles.

An object is a list of members. The members of a value that was read are in ascending order of their
keys; a value that is built to be written may list them in any other order.
-/

namespace CommandGraph

/-- A whole number from the range that the signed and the unsigned 64-bit integers span. -/
structure Whole where
  /-- The number. -/
  val : Int
  /-- It is no less than the least signed number. -/
  lower : Int64.minValue.toInt ≤ val
  /-- It is no greater than the greatest unsigned number. -/
  upper : val < UInt64.size
deriving DecidableEq

namespace Whole

/-- An integer as a whole number, if it is in range. -/
def ofInt? (n : Int) : Option Whole :=
  if h : Int64.minValue.toInt ≤ n ∧ n < UInt64.size then some ⟨n, h.1, h.2⟩ else none

/-- A signed integer as a whole number. -/
def ofInt64 (n : Int64) : Whole :=
  ⟨n.toInt, Int64.le_toInt n, Int.lt_trans (Int64.toInt_lt n) (by decide)⟩

/-- An unsigned 32-bit integer as a whole number. -/
def ofUInt32 (n : UInt32) : Whole :=
  ⟨n.toNat, Int.le_trans (by decide) (Int.natCast_nonneg _),
    Int.lt_trans (Int.ofNat_lt.2 n.toNat_lt) (by decide)⟩

/-- The digits of a whole number, after a minus sign for a negative one. -/
def chars (n : Whole) : List Char :=
  integerChars n.val

/-- The nearest double. -/
def toDouble (n : Whole) : Double :=
  .ofInt n.val

end Whole

/-- A JSON value. -/
inductive Json where
  /-- The null value. -/
  | null
  /-- A truth value. -/
  | bool (b : Bool)
  /-- A number that was written as an integer and is in range. -/
  | whole (n : Whole)
  /-- Any other number. -/
  | double (x : Double.Finite)
  /-- A string. -/
  | string (s : String)
  /-- A list of values. -/
  | array (items : List Json)
  /-- A list of values under keys. -/
  | object (members : List (String × Json))

namespace Json

/-- A 64-bit integer as a value. -/
def ofInt64 (n : Int64) : Json :=
  whole (.ofInt64 n)

/-- A natural number as a value. One beyond the range of whole numbers has none and becomes null. -/
def ofNat (n : Nat) : Json :=
  match Whole.ofInt? n with
  | some w => whole w
  | none => null

/-- A double as a value; what is not finite has no JSON number and becomes null. -/
def ofDouble : Double → Json
  | .finite x => double x
  | _ => null

/-- A list of texts as a value. -/
def ofTexts (texts : List String) : Json :=
  array (texts.map string)

mutual

/-- How deep arrays and objects nest in a value; one without any has depth zero. -/
def depth : Json → Nat
  | array items => depthOfItems items + 1
  | object members => depthOfMembers members + 1
  | _ => 0

/-- The depth of the deepest item. -/
def depthOfItems : List Json → Nat
  | [] => 0
  | item :: rest => max (depth item) (depthOfItems rest)

/-- The depth of the deepest member. -/
def depthOfMembers : List (String × Json) → Nat
  | [] => 0
  | (_, value) :: rest => max (depth value) (depthOfMembers rest)

end

end Json

end CommandGraph
