import CommandGraph.Cli.Arguments
import CommandGraph.Compile.Walk
import CommandGraph.Document.Format
import CommandGraph.Document.Snapshot
import CommandGraph.Dump.Change

/-!
# The program

What the program prints and how it ends, for any access to files. Wrong usage ends with 2 and prints
nothing; a file that cannot be used ends it with 1 and an error.
-/

namespace CommandGraph.Cli

/-- How a run of the program ends. -/
structure Outcome where
  /-- The exit code. -/
  exit : UInt8 := 0
  /-- What is printed. -/
  printed : String := ""
  /-- The error that ended the run. -/
  error : Option String := none
deriving DecidableEq

namespace Outcome

/-- The run prints lines and ends well. -/
def lines (texts : List String) : Outcome where
  printed := String.join (texts.map (· ++ "\n"))

/-- The run ends with an error. -/
def failure (message : String) : Outcome where
  exit := 1
  error := some message

/-- The program was used wrongly. -/
def usage : Outcome where
  exit := 2

end Outcome

variable {m : Type → Type} [Monad m]

/-- Compiles the saved graph at a path, and writes the commands to a file or prints them. -/
def compile (files : FileAccess m) (path : String) (output : Option String) : m Outcome := do
  match ← Document.load files path with
  | .error e => return .failure ("Failed to load graph: " ++ e.message)
  | .ok document =>
    let commands := Compiler.standard.compile document.toGraph
    match output with
    | none => return .lines [commands]
    | some target =>
      match ← files.write target commands with
      | .error e => return .failure s!"Failed to write '{target}': {e.message}"
      | .ok () =>
        let count := (Text.lines commands).length
        return .lines [s!"Wrote {count} line(s) to '{target}'"]

/-- The comparison of two dumps in words. -/
def report (analysis : Analysis) : List String :=
  ["Change: " ++ analysis.kind.name]
    ++ analysis.changes.map ("  -> " ++ ·.describe)
    ++ (if analysis.kind = .structural then ["Syncing this edit rebuilds the graph nodes."] else [])

/-- Reads the text at a path, or ends the run. -/
def readText (files : FileAccess m) (path : String) : ExceptT Outcome m String := do
  match ← files.read path with
  | .ok text => return text
  | .error e => throw (.failure s!"Failed to read '{path}': {e.message}")

/-- Compares the dumps at two paths, and prints the comparison in words or as JSON. -/
def diff (files : FileAccess m) (old new : String) (json : Bool) : ExceptT Outcome m Outcome := do
  let oldText ← readText files old
  let newText ← readText files new
  let analysis := Analysis.between oldText newText
  return .lines (if json then [analysis.toJson.pretty] else report analysis)

/-- A text filled up with spaces to a width. -/
def padded (width : Nat) (s : String) : String :=
  s ++ String.ofList (List.replicate (width - s.length) ' ')

/-- A node type as the palette lists it. -/
def paletteLine (type : NodeType) : String :=
  "  " ++ padded 16 type.tag ++ " " ++ padded 20 type.title ++ " " ++ type.description

/-- The node types by category. -/
def palette : List String :=
  Catalog.standard.palette.flatMap fun group =>
    group.category.label :: group.types.map paletteLine

/-- Does what is asked for. -/
def perform (files : FileAccess m) : Action → m Outcome
  | .compile path output => compile files path output
  | .diff old new json => do
    match ← (diff files old new json).run with
    | .ok outcome => return outcome
    | .error outcome => return outcome
  | .catalog => return .lines palette

/-- Runs the program with its arguments. -/
def run (files : FileAccess m) (args : List String) : m Outcome :=
  match parse? args with
  | none => return .usage
  | some action => perform files action

end CommandGraph.Cli
