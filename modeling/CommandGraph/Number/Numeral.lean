import CommandGraph.Number.Rounding

/-!
# Decimal numerals

A `Numeral` is a number as it is written: a sign, digits before and after the point, and an
exponent. Two grammars read one. The strict grammar, that of JSON text, has at least one digit
before the point, no needless zero in front, and a digit after a point. The free grammar, that of
numbers typed as text, leaves either side of the point open as long as one has a digit, takes a
plus sign, and also knows the words for infinity and for what is no number.
-/

namespace CommandGraph

/-- Whether a character is an ASCII digit. -/
def isDigit (c : Char) : Bool :=
  '0' ≤ c && c ≤ '9'

/-- The digits of an integer, after a minus sign for a negative one. -/
def integerChars (n : Int) : List Char :=
  (if n < 0 then ['-'] else []) ++ Nat.toDigits 10 n.natAbs

/-- A written decimal number. -/
structure Numeral where
  /-- Whether a minus sign stands in front. -/
  negative : Bool
  /-- The digits before the point. -/
  whole : List Char
  /-- The digits after the point; with none there is no point. -/
  fraction : List Char := []
  /-- The power of ten behind the exponent mark, if there is one. -/
  exponent : Option Int := none
deriving DecidableEq

namespace Numeral

/-- The sign and the digits of an exponent; the sign is always written. -/
def exponentChars (e : Int) : List Char :=
  (if e < 0 then '-' else '+') :: Nat.toDigits 10 e.natAbs

/-- The characters of a numeral. -/
def chars (n : Numeral) : List Char :=
  (if n.negative then ['-'] else [])
    ++ n.whole
    ++ (if n.fraction.isEmpty then [] else '.' :: n.fraction)
    ++ (match n.exponent with
      | none => []
      | some e => 'e' :: exponentChars e)

/-- Whether a numeral is written as an integer, without point and exponent. -/
def isInteger (n : Numeral) : Bool :=
  n.fraction.isEmpty && n.exponent.isNone

/-- The digits on both sides of the point, as one natural number. -/
def significand (n : Numeral) : Nat :=
  Nat.ofDigitChars 10 (n.whole ++ n.fraction) 0

/-- The power of ten that the significand is to be multiplied by. -/
def power (n : Numeral) : Int :=
  n.exponent.getD 0 - n.fraction.length

/-- The nearest double to the number that a numeral writes. -/
def toDouble (n : Numeral) : Double :=
  .ofDecimal n.negative n.significand n.power

/-- The digits in front, and the rest. -/
def spanDigits (cs : List Char) : List Char × List Char :=
  (cs.takeWhile isDigit, cs.dropWhile isDigit)

/-- Reads a minus sign if one stands in front. -/
def scanMinus : List Char → Bool × List Char
  | '-' :: rest => (true, rest)
  | cs => (false, cs)

/-- Reads a sign of either kind if one stands in front; the answer tells whether it is a minus. -/
def scanSign : List Char → Bool × List Char
  | '-' :: rest => (true, rest)
  | '+' :: rest => (false, rest)
  | cs => (false, cs)

/-- Reads the digits before the point: at least one, and a zero only by itself. -/
def scanWhole (cs : List Char) : Option (List Char × List Char) :=
  match spanDigits cs with
  | ([], _) => none
  | ('0' :: _ :: _, _) => none
  | (whole, rest) => some (whole, rest)

/-- Reads a point and at least one digit if a point stands in front. -/
def scanFraction : List Char → Option (List Char × List Char)
  | '.' :: cs =>
    match spanDigits cs with
    | ([], _) => none
    | (fraction, rest) => some (fraction, rest)
  | cs => some ([], cs)

/-- Reads an exponent if its mark stands in front; after the mark there must be a digit. -/
def scanExponent : List Char → Option (Option Int × List Char)
  | [] => some (none, [])
  | c :: cs =>
    if c = 'e' ∨ c = 'E' then
      match spanDigits (scanSign cs).2 with
      | ([], _) => none
      | (digits, rest) =>
        let e : Int := Nat.ofDigitChars 10 digits 0
        some (some (if (scanSign cs).1 then -e else e), rest)
    else some (none, c :: cs)

/-- Reads a numeral of the strict grammar from the front, and gives the rest. -/
def scan (cs : List Char) : Option (Numeral × List Char) := do
  let (negative, cs) := scanMinus cs
  let (whole, cs) ← scanWhole cs
  let (fraction, cs) ← scanFraction cs
  let (exponent, cs) ← scanExponent cs
  return ({ negative, whole, fraction, exponent }, cs)

/-- Reads an unsigned numeral of the free grammar; it must be the whole of `cs`. -/
def readFree (negative : Bool) (cs : List Char) : Option Numeral := do
  let (whole, cs) := spanDigits cs
  let (fraction, cs) := match cs with
    | '.' :: rest => spanDigits rest
    | cs => ([], cs)
  -- A point by itself is no number.
  if whole.isEmpty && fraction.isEmpty then none
  let (exponent, cs) ← scanExponent cs
  if cs.isEmpty then some { negative, whole, fraction, exponent } else none

/-! ## What reading leaves -/

/-- Taking digits leaves no more than there was. -/
theorem length_spanDigits (cs : List Char) : (spanDigits cs).2.length ≤ cs.length :=
  (List.dropWhile_sublist _).length_le

/-- Taking digits that are there leaves less than there was. -/
theorem length_spanDigits_lt {cs : List Char} (h : (spanDigits cs).1 ≠ []) :
    (spanDigits cs).2.length < cs.length := by
  have hsplit := congrArg List.length (List.takeWhile_append_dropWhile (p := isDigit) (l := cs))
  have hpos := List.length_pos_iff.2 h
  simp only [spanDigits, List.length_append] at *
  omega

/-- A numeral has at least one digit before the point. -/
theorem length_of_scanWhole {cs whole rest : List Char} (h : scanWhole cs = some (whole, rest)) :
    rest.length < cs.length := by
  have hlt := @length_spanDigits_lt cs
  unfold scanWhole at h
  split at h <;> simp_all

/-- Reading a fraction leaves no more than there was. -/
theorem length_of_scanFraction {cs fraction rest : List Char}
    (h : scanFraction cs = some (fraction, rest)) : rest.length ≤ cs.length := by
  unfold scanFraction at h
  split at h
  next cs =>
    have hle := length_spanDigits cs
    split at h <;> simp_all
    omega
  · simp_all

/-- Reading a sign leaves no more than there was. -/
theorem length_scanSign (cs : List Char) : (scanSign cs).2.length ≤ cs.length := by
  unfold scanSign
  split <;> grind

/-- Reading a minus sign leaves no more than there was. -/
theorem length_scanMinus (cs : List Char) : (scanMinus cs).2.length ≤ cs.length := by
  unfold scanMinus
  split <;> grind

/-- Reading an exponent leaves no more than there was. -/
theorem length_of_scanExponent {cs rest : List Char} {e : Option Int}
    (h : scanExponent cs = some (e, rest)) : rest.length ≤ cs.length := by
  unfold scanExponent at h
  split at h
  · simp_all
  next c cs =>
    have hsign := length_scanSign cs
    have hdigits := length_spanDigits (scanSign cs).2
    split at h
    · split at h <;> simp_all
      omega
    · simp_all

/-- Reading a numeral leaves less than there was. -/
theorem length_of_scan {cs rest : List Char} {n : Numeral} (h : scan cs = some (n, rest)) :
    rest.length < cs.length := by
  simp only [scan, Option.bind_eq_bind, Option.bind_eq_some_iff, Option.pure_def] at h
  obtain ⟨whole, hwhole, fraction, hfraction, exponent, hexponent, h⟩ := h
  have h1 := length_scanMinus cs
  have h2 := length_of_scanWhole hwhole
  have h3 := length_of_scanFraction hfraction
  have h4 := length_of_scanExponent hexponent
  simp only [Option.some.injEq, Prod.mk.injEq] at h
  obtain ⟨_, rfl⟩ := h
  omega

end Numeral

/-- Reads a number typed as text: a numeral of the free grammar, or, in any case of letters, `inf`,
`infinity` or `nan`, each with an optional sign. -/
def Double.parse? (s : String) : Option Double :=
  let (negative, cs) := Numeral.scanSign s.toList
  let word := String.ofList (cs.map Char.toLower)
  if word = "inf" ∨ word = "infinity" then some (.infinite negative)
  else if word = "nan" then some .nan
  else (Numeral.readFree negative cs).map Numeral.toDouble

end CommandGraph
