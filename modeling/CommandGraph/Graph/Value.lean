import CommandGraph.Json.Printer
import CommandGraph.Text.Blank
import CommandGraph.Text.LowerCase

/-!
# Property values

A property of a node holds any JSON value, and a rule reads it in one of three ways: as the text
that goes into a command, as a flag, or as a number.
-/

namespace CommandGraph

namespace Json

/-- A value as it appears in a command. Null is empty and a string is itself. A double without a
fractional part is written as an integer, so a count given as `3.0` is still `3`. Arrays and objects
are written as compact JSON. -/
def asText : Json → String
  | null => ""
  | string s => s
  | double x =>
    if x.isWhole then String.ofList (integerChars x.toInt64) else (Double.finite x).text
  | value => value.compact

/-- A value as a flag: a set truth value, the word `true` in any case of its letters, or a number
other than zero. -/
def asFlag : Json → Bool
  | bool b => b
  | string s => Text.equalsIgnoringAsciiCase s "true"
  | whole n => n.val != 0
  | double x => !x.isZero
  | _ => false

/-- A value as a number, which may also be typed as text. -/
def asNumber? : Json → Option Double
  | whole n => some n.toDouble
  | double x => some (.finite x)
  | string s => Double.parse? (Text.trim s)
  | _ => none

end Json

end CommandGraph
