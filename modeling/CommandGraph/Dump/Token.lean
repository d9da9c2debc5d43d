/-!
# Tokens of a command line

A command line is cut at its spaces, but not at those inside brackets, braces, parentheses or
quotes. Where a space cuts is decided by the characters in front of it alone: `Nesting` is what they
say about brackets and quotes, and a space is a cut exactly when no quote is open and as many
brackets have been closed as opened.

A quote is closed by the same quote character, unless a backslash stands right before it. Brackets
are only counted, so one kind may close another, and a line that closes more than it opened stays
whole until as many have been opened again. The count is a signed number of 32 bits, which wraps
around.
-/

namespace CommandGraph.Dump

/-- What the characters read so far say about brackets and quotes. -/
structure Nesting where
  /-- How many brackets of any kind have been opened, less those closed, outside quotes. -/
  depth : Int32 := 0
  /-- The quote character that is still open. -/
  quote : Option Char := none
  /-- The last character. -/
  previous : Option Char := none
deriving DecidableEq

namespace Nesting

/-- What is known after one more character. -/
def advance (state : Nesting) (c : Char) : Nesting :=
  match state.quote with
  | some q =>
    let closes := c = q ∧ state.previous ≠ some '\\'
    { state with quote := if closes then none else some q, previous := some c }
  | none =>
    if c = '"' ∨ c = '\'' then { state with quote := some c, previous := some c }
    else if c = '[' ∨ c = '{' ∨ c = '(' then
      { state with depth := state.depth + 1, previous := some c }
    else if c = ']' ∨ c = '}' ∨ c = ')' then
      { state with depth := state.depth - 1, previous := some c }
    else { state with previous := some c }

/-- What is known after all of `cs`. -/
def after (cs : List Char) : Nesting :=
  cs.foldl advance {}

/-- Whether the next character, if it is `c`, cuts the line. -/
def cutsAt (state : Nesting) (c : Char) : Bool :=
  c = ' ' ∧ state.quote = none ∧ state.depth = 0

end Nesting

/-- Puts a character in front of the first segment. -/
def extendFirst (c : Char) : List (List Char) → List (List Char)
  | [] => [[c]]
  | segment :: rest => (c :: segment) :: rest

/-- The pieces between the cuts of `cs`, where `state` is known before it. Between two cuts in a row
there is an empty piece. -/
def segments (state : Nesting) : List Char → List (List Char)
  | [] => [[]]
  | c :: cs =>
    if state.cutsAt c then [] :: segments (state.advance c) cs
    else extendFirst c (segments (state.advance c) cs)

/-- The tokens of a line: its pieces that are not empty. -/
def tokenChars (cs : List Char) : List (List Char) :=
  (segments {} cs).filter (!·.isEmpty)

/-- The tokens of a line. -/
def tokenize (line : String) : List String :=
  (tokenChars line.toList).map String.ofList

end CommandGraph.Dump
