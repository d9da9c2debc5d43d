import CommandGraph.Json.Basic
import CommandGraph.Json.Raw
import CommandGraph.Number.Scaling

/-!
# Values of JSON text

Where a value is wanted, the tree of its text is read strictly: arrays and objects nest no deeper
than a limit, surrogate escapes come in pairs, and a number that no double can hold is refused.
Whole numbers are read exactly and all others by scaling. Of several members under one key the last
one counts.
-/

namespace CommandGraph

namespace Json

/-- The character of a surrogate pair. -/
def pairedChar (high low : Nat) : Char :=
  Char.ofNat (0x10000 + (high - 0xD800) * 0x400 + (low - 0xDC00))

/-- Whether a unit opens a surrogate pair. -/
def isHighSurrogate (n : Nat) : Bool :=
  0xD800 ≤ n && n < 0xDC00

/-- Whether a unit closes a surrogate pair. -/
def isLowSurrogate (n : Nat) : Bool :=
  0xDC00 ≤ n && n < 0xE000

/-- The characters of a written string; `done` are those read so far, the last one first. A
surrogate that is not half of a pair is refused. -/
def decodeParts (done : List Char) : List StringPart → Option (List Char)
  | [] => some done.reverse
  | .char c :: rest => decodeParts (c :: done) rest
  | .unit high :: .unit low :: rest =>
    if isHighSurrogate high then
      if isLowSurrogate low then decodeParts (pairedChar high low :: done) rest else none
    else if isLowSurrogate high then none
    -- The second unit may still open a pair of its own.
    else decodeParts (Char.ofNat high :: done) (.unit low :: rest)
  | .unit n :: rest =>
    if isHighSurrogate n || isLowSurrogate n then none
    else decodeParts (Char.ofNat n :: done) rest

/-- The text of a written string. -/
def decodeText? (parts : List StringPart) : Option String :=
  (decodeParts [] parts).map String.ofList

/-- The whole number that a numeral writes, if it is written as an integer and in range. The numeral
`-0` is no whole number, for whole numbers have no negative zero. -/
def whole? (n : Numeral) : Option Whole :=
  if n.isInteger && !(n.negative && n.significand == 0) then
    Whole.ofInt? (if n.negative then -n.significand else n.significand)
  else none

/-- The number that a numeral writes: whole if it can be, and otherwise read by scaling. -/
def ofNumeral? (n : Numeral) : Option Json :=
  match whole? n with
  | some w => some (whole w)
  | none =>
    match n.scaled with
    | .finite x => some (double x)
    | _ => none

/-- Members in ascending order of their keys; of several under one key the last one is kept. -/
def sorted (members : List (String × Json)) : List (String × Json) :=
  (Dictionary.ofList members).entries

mutual

/-- The value of a tree whose arrays and objects nest at most `limit` deep. -/
def ofRaw? (limit : Nat) : Raw → Option Json
  | .null => some null
  | .bool b => some (bool b)
  | .number n => ofNumeral? n
  | .string parts => (decodeText? parts).map string
  | .array items =>
    match limit with
    | 0 => none
    | limit + 1 => (itemsOfRaw? limit items).map array
  | .object members =>
    match limit with
    | 0 => none
    | limit + 1 => (membersOfRaw? limit members).map fun members => object (sorted members)

/-- The values of an array's items. -/
def itemsOfRaw? (limit : Nat) : List Raw → Option (List Json)
  | [] => some []
  | item :: rest => do
    let value ← ofRaw? limit item
    let values ← itemsOfRaw? limit rest
    return value :: values

/-- The values of an object's members, in the order in which they are written. -/
def membersOfRaw? (limit : Nat) :
    List (List StringPart × Raw) → Option (List (String × Json))
  | [] => some []
  | (key, raw) :: rest => do
    let key ← decodeText? key
    let value ← ofRaw? limit raw
    let members ← membersOfRaw? limit rest
    return (key, value) :: members

end

/-- The value of a text whose arrays and objects nest at most `limit` deep. -/
def parse? (limit : Nat) (s : String) : Option Json :=
  (Raw.parse? s).bind (ofRaw? limit)

end Json

end CommandGraph
