import CommandGraph.Dictionary
import CommandGraph.Dump.Section
import CommandGraph.Dump.Token
import CommandGraph.Text.Blank

/-!
# Commands of a dump

A command line has settings, which are bracket groups in front such as `[RUA]`, and the command
itself, which may begin with a slash. The command's tokens are split into its *shape* and its
*values*: the shape is the keyword and those tokens that change what the command is, and the values
are named fields. Two commands of equal shape differ in their values only.
-/

namespace CommandGraph

namespace Dump

/-- The tokens of a command, sorted out. -/
structure Reading where
  /-- The keyword as it counts for the shape; both words for teleporting count as one. -/
  keyword : String
  /-- The other tokens that belong to the shape. -/
  shape : List String := []
  /-- The values, by field. -/
  fields : List (String × String) := []
deriving DecidableEq

namespace Reading

/-- The token at an index, empty if there is none. -/
def part (tokens : List String) (i : Nat) : String :=
  tokens[i]?.getD ""

/-- The tokens from one index up to another, which is left out, joined by spaces. -/
def span (tokens : List String) (start stop : Nat) : String :=
  " ".intercalate ((tokens.take stop).drop start)

/-- The tokens from an index on, joined by spaces. -/
def tail (tokens : List String) (start : Nat) : String :=
  " ".intercalate (tokens.drop start)

/-- Sorts out the tokens of an `execute` command: all up to the word `run` are shape. -/
def ofExecute (tokens : List String) : Reading :=
  match tokens.idxOf? "run" with
  | some run =>
    { keyword := "execute", shape := (tokens.take (run + 1)).drop 1,
      fields := [("command", tail tokens (run + 1))] }
  | none => { keyword := "execute", shape := tokens.drop 1 }

/-- Sorts out tokens by the keyword in front. A command without a rule of its own has one field that
holds all its arguments. -/
def ofTokens (tokens : List String) : Reading :=
  -- An empty line has no keyword, which is then the empty text.
  let keyword := part tokens 0
  let part := part tokens
  let span := span tokens
  let tail := tail tokens
  match keyword with
  | "give" => { keyword, fields := [("target", part 1), ("item", part 2), ("count", part 3)] }
  | "summon" =>
    { keyword, fields := [("entity", part 1), ("position", span 2 5), ("nbt", tail 5)] }
  | "say" => { keyword, fields := [("message", tail 1)] }
  | "tellraw" => { keyword, fields := [("target", part 1), ("json", tail 2)] }
  | "tp" | "teleport" =>
    { keyword := "tp", fields := [("target", part 1), ("destination", tail 2)] }
  | "effect" =>
    { keyword, shape := [part 1],
      fields := [("target", part 2), ("effect", part 3), ("duration", part 4),
        ("amplifier", part 5)] }
  | "gamemode" => { keyword, shape := [part 1], fields := [("target", part 2)] }
  | "setblock" =>
    { keyword, fields := [("position", span 1 4), ("block", part 4), ("mode", part 5)] }
  | "fill" =>
    { keyword, fields := [("from", span 1 4), ("to", span 4 7), ("block", part 7),
        ("mode", part 8)] }
  | "execute" => ofExecute tokens
  | "kill" => { keyword, fields := [("target", part 1)] }
  | "time" => { keyword, shape := [part 1], fields := [("value", part 2)] }
  | "weather" => { keyword, shape := [part 1], fields := [("duration", part 2)] }
  | _ => { keyword, fields := [("args", tail 1)] }

end Reading

/-- The bracket groups in front of a line, one right after another, and what follows them. A group
ends at the first closing bracket; one that is never closed is no group. -/
def splitGroups (cs : List Char) : List Char × List Char :=
  match cs with
  | '[' :: rest =>
    match h : rest.dropWhile (· != ']') with
    | [] => ([], cs)
    | close :: rest' =>
      have : rest'.length < rest.length := by
        have := (List.dropWhile_sublist (· != ']') (l := rest)).length_le
        rw [h] at this
        simp only [List.length_cons] at this
        omega
      let (groups, rest'') := splitGroups rest'
      ('[' :: rest.takeWhile (· != ']') ++ close :: groups, rest'')
  | cs => ([], cs)
termination_by cs.length

/-- The settings in front of a line, and the command behind them. Only behind settings are blanks
dropped. -/
def splitSettings (line : List Char) : Option (List Char) × List Char :=
  match splitGroups line with
  | ([], rest) => (none, rest)
  | (groups, rest) => (some groups, Text.dropBlanks rest)

/-- A command without the slash in front, if there is one. -/
def dropSlash : List Char → List Char
  | '/' :: rest => rest
  | cs => cs

end Dump

/-- A command line of a dump. -/
structure Command where
  /-- The line as it was given. -/
  raw : String
  /-- The settings, the keyword and the other tokens of the shape, with bars between them. -/
  fingerprint : String
  /-- The values, by field. -/
  values : Dictionary String
  /-- The first token. -/
  keyword : String
  /-- The bracket groups in front. -/
  settings : Option String
  /-- The section that the command stands in. -/
  place : Option Section

namespace Command

/-- The tokens of a command line behind its settings and slash. -/
def tokensOf (line : String) : List String :=
  (Dump.tokenChars (Dump.dropSlash (Dump.splitSettings line.toList).2)).map String.ofList

/-- Reads a command line, outside any section. -/
def parse (line : String) : Command :=
  let settings := (Dump.splitSettings line.toList).1.map String.ofList
  let tokens := tokensOf line
  let reading := Dump.Reading.ofTokens tokens
  { raw := line
    fingerprint := "|".intercalate (settings.toList ++ reading.keyword :: reading.shape)
    values := .ofList reading.fields
    keyword := tokens.headD ""
    settings
    place := none }

end Command

namespace Dump

/-- Whether a line, already trimmed, is a comment. -/
def isComment (line : String) : Bool :=
  line.toList.head? == some '#'

/-- The commands of the lines that follow the opening of a section. A comment may open another
section, and every other line that is not blank is a command. -/
def commandsFrom (place : Option Section) : List String → List Command
  | [] => []
  | line :: rest =>
    let line := Text.trim line
    if line.isEmpty then commandsFrom place rest
    -- A comment that names no section leaves the current one open.
    else if isComment line then commandsFrom ((Section.ofMarker? line).or place) rest
    else { Command.parse line with place } :: commandsFrom place rest

/-- The commands of a dump, in order. -/
def parse (text : String) : List Command :=
  commandsFrom none (Text.lines text)

end Dump

end CommandGraph
