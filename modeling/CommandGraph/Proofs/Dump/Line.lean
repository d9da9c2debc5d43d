import CommandGraph.Dump.Command
import CommandGraph.Proofs.Text.Line

/-!
# Reading a dump line by line

The one thing that is carried from line to line is the section that is open. So the commands of two
parts of a dump are those of the first part and those of the second part, read with the section that
the first part has left open (`commandsFrom_append`). Blank lines and blanks around a line make no
difference, hence a dump may be cut at its line feeds (`commandsFrom_lines_intercalate`).
-/

namespace CommandGraph.Dump

variable {place : Option Section} {line : String} {lines more : List String}

/-- The section that a line opens, if it is a comment that names one. -/
def opened? (line : String) : Option Section :=
  if isComment (Text.trim line) then Section.ofMarker? (Text.trim line) else none

/-- The section that is open behind some lines. -/
def placeAfter (place : Option Section) (lines : List String) : Option Section :=
  lines.foldl (fun place line => (opened? line).or place) place

theorem placeAfter_append :
    placeAfter place (lines ++ more) = placeAfter (placeAfter place lines) more :=
  List.foldl_append

/-- The commands of a single line, of which there is one at most. -/
theorem commandsFrom_cons : commandsFrom place (line :: lines) =
    (if (Text.trim line).isEmpty || isComment (Text.trim line) then []
      else [{ Command.parse (Text.trim line) with place }]) ++
    commandsFrom ((opened? line).or place) lines := by
  rw [commandsFrom, opened?]
  by_cases hempty : (Text.trim line).isEmpty = true
  · have hcomment : isComment (Text.trim line) = false := by
      rw [String.isEmpty_iff.1 hempty]
      rfl
    simp [hempty, hcomment]
  · by_cases hcomment : isComment (Text.trim line) = true <;> simp [hempty, hcomment]

/-- Lines are read with the section that those in front of them have left open. -/
theorem commandsFrom_append : commandsFrom place (lines ++ more) =
    commandsFrom place lines ++ commandsFrom (placeAfter place lines) more := by
  induction lines generalizing place with
  | nil => rfl
  | cons line lines ih =>
    rw [List.cons_append, commandsFrom_cons, commandsFrom_cons, ih, List.append_assoc]
    rfl

/-- Only what is left of the lines after trimming counts. -/
theorem commandsFrom_map_trim : commandsFrom place ((lines.map Text.trim).filter (!·.isEmpty)) =
    commandsFrom place lines := by
  induction lines generalizing place with
  | nil => rfl
  | cons line lines ih =>
    rw [List.map_cons, List.filter_cons]
    by_cases hempty : (Text.trim line).isEmpty = true
    · -- A line that is left out neither is a command nor opens a section.
      rw [commandsFrom_cons, hempty, opened?, String.isEmpty_iff.1 hempty]
      exact ih
    · rw [if_pos (by simpa using hempty), commandsFrom_cons, commandsFrom_cons, opened?, opened?,
        Text.trim_trim, ih]

/-- A dump made of texts that are joined by line feeds is read piece by piece. -/
theorem commandsFrom_lines_intercalate (texts : List String) :
    commandsFrom place (Text.lines ("\n".intercalate texts)) =
      commandsFrom place (texts.flatMap Text.pieces) := by
  cases texts with
  | nil => rfl
  | cons text rest =>
    rw [← commandsFrom_map_trim, Text.map_trim_lines, commandsFrom_map_trim,
      Text.pieces_intercalate (List.cons_ne_nil _ _)]

end CommandGraph.Dump
