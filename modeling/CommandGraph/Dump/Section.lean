import CommandGraph.Text.Line
import CommandGraph.Text.LowerCase

/-!
# Sections of a dump

A dump groups its commands under comment lines. A comment line that names one of the known sections,
in any case of letters and anywhere in the line, opens that section; other comment lines change
nothing.
-/

namespace CommandGraph

/-- Where the commands of a dump are meant to run. -/
inductive Section where
  /-- In a command block. -/
  | commandBlock
  /-- In the chat. -/
  | chat
  /-- Once, as a preparation. -/
  | setup
  /-- By hand. -/
  | manual
deriving DecidableEq

namespace Section

/-- The name of a section. -/
def name : Section → String
  | commandBlock => "command_block"
  | chat => "chat"
  | setup => "setup"
  | manual => "manual"

/-- The texts that mark a section, in the order in which they are looked for. -/
def marks : List (String × Section) :=
  [("command block", commandBlock), ("controller", commandBlock), ("in chat", chat),
   ("setup", setup), ("manual", manual)]

/-- The section that a comment line opens. -/
def ofMarker? (line : String) : Option Section :=
  let lower := Text.lowerCase line
  (marks.find? fun mark => Text.contains lower mark.1).map (·.2)

end Section

end CommandGraph
