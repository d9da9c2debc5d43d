import CommandGraph.Number.Numeral

/-!
# Tokens of JSON text

JSON text is cut into brackets, commas, colons, words, numerals and strings, with blanks between
them. Numerals and strings are kept as they are written: what number a numeral is, and whether the
surrogate escapes of a string pair up, is decided only where the value is wanted. So a part of a
text that nobody asks for has to be well written, and no more.
-/

namespace CommandGraph

namespace Json

/-- One element of a written string. -/
inductive StringPart where
  /-- A character, written as it is or with a short escape. -/
  | char (c : Char)
  /-- A 16-bit unit, written with four hexadecimal digits. -/
  | unit (n : Nat)
deriving DecidableEq

/-- A token of JSON text. -/
inductive Token where
  /-- The bracket that opens an array. -/
  | openArray
  /-- The bracket that closes an array. -/
  | closeArray
  /-- The brace that opens an object. -/
  | openObject
  /-- The brace that closes an object. -/
  | closeObject
  /-- A comma. -/
  | comma
  /-- A colon. -/
  | colon
  /-- The word for null. -/
  | null
  /-- A word for a truth value. -/
  | bool (b : Bool)
  /-- A numeral. -/
  | number (n : Numeral)
  /-- A string. -/
  | string (parts : List StringPart)
deriving DecidableEq

/-- The four blanks that may stand between tokens. -/
def isSpace (c : Char) : Bool :=
  c == ' ' || c == '\t' || c == '\n' || c == '\r'

/-- The value of a hexadecimal digit of either case. -/
def hexDigit? (c : Char) : Option Nat :=
  if '0' ≤ c ∧ c ≤ '9' then some (c.toNat - '0'.toNat)
  else if 'a' ≤ c ∧ c ≤ 'f' then some (c.toNat - 'a'.toNat + 10)
  else if 'A' ≤ c ∧ c ≤ 'F' then some (c.toNat - 'A'.toNat + 10)
  else none

/-- The value of four hexadecimal digits. -/
def hexUnit? (a b c d : Char) : Option Nat := do
  return (((← hexDigit? a) * 16 + (← hexDigit? b)) * 16 + (← hexDigit? c)) * 16 + (← hexDigit? d)

/-- The character that a short escape stands for. -/
def shortEscape? (c : Char) : Option Char :=
  if c = '"' ∨ c = '\\' ∨ c = '/' then some c
  else if c = 'b' then some '\x08'
  else if c = 'f' then some '\x0c'
  else if c = 'n' then some '\n'
  else if c = 'r' then some '\r'
  else if c = 't' then some '\t'
  else none

/-- Reads a string up to its closing quote, and gives the rest. The parts read so far are `done`,
the last one first. A control character below the space must be escaped. -/
def scanString (done : List StringPart) : List Char → Option (List StringPart × List Char)
  | [] => none
  | '"' :: rest => some (done.reverse, rest)
  -- With fewer than four characters left the escape falls to the next case, which knows no `u`.
  | '\\' :: 'u' :: a :: b :: c :: d :: rest =>
    match hexUnit? a b c d with
    | some n => scanString (.unit n :: done) rest
    | none => none
  | '\\' :: c :: rest =>
    match shortEscape? c with
    | some e => scanString (.char e :: done) rest
    | none => none
  | c :: rest => if c.toNat < 0x20 then none else scanString (.char c :: done) rest

/-- Reads the token in front, and gives the rest. -/
def scanToken : List Char → Option (Token × List Char)
  | '[' :: rest => some (.openArray, rest)
  | ']' :: rest => some (.closeArray, rest)
  | '{' :: rest => some (.openObject, rest)
  | '}' :: rest => some (.closeObject, rest)
  | ',' :: rest => some (.comma, rest)
  | ':' :: rest => some (.colon, rest)
  | 'n' :: 'u' :: 'l' :: 'l' :: rest => some (.null, rest)
  | 't' :: 'r' :: 'u' :: 'e' :: rest => some (.bool true, rest)
  | 'f' :: 'a' :: 'l' :: 's' :: 'e' :: rest => some (.bool false, rest)
  | '"' :: rest => (scanString [] rest).map fun (parts, rest) => (.string parts, rest)
  | cs => (Numeral.scan cs).map fun (n, rest) => (.number n, rest)

/-- Reading a string leaves no more than there was. -/
theorem length_of_scanString {done parts : List StringPart} {cs rest : List Char}
    (h : scanString done cs = some (parts, rest)) : rest.length ≤ cs.length := by
  fun_induction scanString done cs <;> simp_all <;> omega

/-- Reading a token leaves less than there was. -/
theorem length_of_scanToken {cs rest : List Char} {t : Token}
    (h : scanToken cs = some (t, rest)) : rest.length < cs.length := by
  unfold scanToken at h
  split at h
  case h_10 tail =>
    obtain ⟨⟨parts, left⟩, hs, heq⟩ := Option.map_eq_some_iff.1 h
    have hle := length_of_scanString hs
    obtain ⟨-, rfl⟩ := Prod.mk.inj heq
    exact Nat.lt_succ_of_le hle
  case h_11 =>
    obtain ⟨⟨n, left⟩, hs, heq⟩ := Option.map_eq_some_iff.1 h
    obtain ⟨-, rfl⟩ := Prod.mk.inj heq
    exact Numeral.length_of_scan hs
  all_goals
    obtain ⟨-, rfl⟩ := Prod.mk.inj (Option.some.inj h)
    simp only [List.length_cons]
    omega

/-- Reads a text into tokens; `done` are those read so far, the last one first. -/
def scanTokens (done : List Token) (cs : List Char) : Option (List Token) :=
  match cs with
  | [] => some done.reverse
  | c :: cs =>
    if isSpace c then scanTokens done cs
    else match h : scanToken (c :: cs) with
      | none => none
      | some (t, rest) =>
        have := length_of_scanToken h
        scanTokens (t :: done) rest
termination_by cs.length
decreasing_by
  · exact Nat.lt_succ_self _
  · exact this

/-- The tokens of a text. -/
def tokens? (s : String) : Option (List Token) :=
  scanTokens [] s.toList

end Json

end CommandGraph
