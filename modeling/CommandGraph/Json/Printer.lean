import CommandGraph.Json.Basic

/-!
# JSON text of a value

One printer with two layouts. The compact layout writes no space at all. The pretty layout gives
every item and member a line of its own, two spaces deeper than its container, and a space after the
colon; an empty array or object stays `[]` or `{}` in both.

In strings only the quote, the backslash and the control characters below the space are escaped,
with the short form where there is one.
-/

namespace CommandGraph

namespace Json

/-- The two lower-case hexadecimal digits of a number below 256. -/
def hexByte (n : Nat) : List Char :=
  [Nat.digitChar (n / 16), Nat.digitChar (n % 16)]

/-- A character as it stands in a string. -/
def escapeChar (c : Char) : List Char :=
  if c = '"' then ['\\', '"']
  else if c = '\\' then ['\\', '\\']
  else if c = '\x08' then ['\\', 'b']
  else if c = '\t' then ['\\', 't']
  else if c = '\n' then ['\\', 'n']
  else if c = '\x0c' then ['\\', 'f']
  else if c = '\r' then ['\\', 'r']
  else if c.toNat < 0x20 then ['\\', 'u', '0', '0'] ++ hexByte c.toNat
  else [c]

/-- A string with its quotes. -/
def quote (s : String) : List Char :=
  '"' :: s.toList.flatMap escapeChar ++ ['"']

/-- Where a layout puts blanks. -/
structure Layout where
  /-- What stands before an item or member, and before the closing bracket, at a given depth. -/
  lineStart : Nat → List Char
  /-- What stands after the colon of a member. -/
  afterColon : List Char

namespace Layout

/-- The layout without blanks. -/
def compact : Layout where
  lineStart _ := []
  afterColon := []

/-- The layout with a line for each item and member, indented by two spaces. -/
def pretty : Layout where
  lineStart depth := '\n' :: List.replicate (2 * depth) ' '
  afterColon := [' ']

end Layout

mutual

/-- The characters of a value that stands at a given depth. -/
def charsAt (layout : Layout) (depth : Nat) : Json → List Char
  | null => ['n', 'u', 'l', 'l']
  | bool true => ['t', 'r', 'u', 'e']
  | bool false => ['f', 'a', 'l', 's', 'e']
  | whole n => n.chars
  | double x => x.numeral.chars
  | string s => quote s
  | array [] => ['[', ']']
  | array (item :: rest) =>
    '[' :: charsOfItems layout (depth + 1) (item :: rest) ++ layout.lineStart depth ++ [']']
  | object [] => ['{', '}']
  | object (member :: rest) =>
    '{' :: charsOfMembers layout (depth + 1) (member :: rest) ++ layout.lineStart depth ++ ['}']

/-- The items of an array, with commas between them. -/
def charsOfItems (layout : Layout) (depth : Nat) : List Json → List Char
  | [] => []
  | item :: rest =>
    layout.lineStart depth ++ charsAt layout depth item
      ++ (if rest.isEmpty then [] else ',' :: charsOfItems layout depth rest)

/-- The members of an object, with commas between them. -/
def charsOfMembers (layout : Layout) (depth : Nat) : List (String × Json) → List Char
  | [] => []
  | (key, value) :: rest =>
    layout.lineStart depth ++ quote key ++ ':' :: layout.afterColon ++ charsAt layout depth value
      ++ (if rest.isEmpty then [] else ',' :: charsOfMembers layout depth rest)

end

/-- The text of a value, without blanks. -/
def compact (value : Json) : String :=
  String.ofList (charsAt .compact 0 value)

/-- The text of a value on indented lines. -/
def pretty (value : Json) : String :=
  String.ofList (charsAt .pretty 0 value)

end Json

end CommandGraph
