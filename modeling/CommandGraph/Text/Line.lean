/-!
# Lines

A line of a text ends at a line feed, and one carriage return in front of that line feed belongs to
the line's end. A carriage return anywhere else is an ordinary character. The end of the text ends
the last line, so a text that ends with a line feed has no empty line after it.
-/

namespace CommandGraph.Text

/-- The lines of a text's remainder, and whether that remainder starts with a line feed. -/
structure LineScan where
  /-- The lines, the unfinished one first. -/
  lines : List (List Char) := []
  /-- Whether the remainder starts with a line feed. -/
  atBreak : Bool := false

namespace LineScan

/-- Puts one more character in front of the scanned remainder. -/
def push (c : Char) (scan : LineScan) : LineScan :=
  if c = '\n' then { lines := [] :: scan.lines, atBreak := true }
  -- Only the return right before the feed belongs to the line's end; one before it is kept.
  else if c = '\r' ∧ scan.atBreak then { scan with atBreak := false }
  else match scan.lines with
    | [] => { lines := [[c]] }
    | line :: rest => { lines := (c :: line) :: rest }

end LineScan

/-- The lines of a text, without their ends. -/
def lineChars (cs : List Char) : List (List Char) :=
  (cs.foldr LineScan.push {}).lines

/-- The lines of a text, without their ends. -/
def lines (s : String) : List String :=
  (lineChars s.toList).map String.ofList

/-- Whether `part` occurs somewhere in `cs`. -/
def occursIn (part : List Char) : List Char → Bool
  | [] => part.isEmpty
  | c :: cs => part.isPrefixOf (c :: cs) || occursIn part cs

/-- Whether the text `part` occurs somewhere in `s`. -/
def contains (s part : String) : Bool :=
  occursIn part.toList s.toList

end CommandGraph.Text
