import CommandGraph.Compile.Commands
import CommandGraph.Text.Line

/-!
# How the standard types make their values

A type without a rule here hands out the text of its property `value`.
-/

namespace CommandGraph

namespace Values

/-- An argument of a selector; an empty one is left out. -/
def argument (key value : String) : List String :=
  if value.isEmpty then [] else [key ++ "=" ++ value]

/-- The arguments of a selector, in the order in which they are written. Only a positive limit
counts. -/
def selectorArguments (view : NodeView) : List String :=
  let limit := if (view.number? "limit").any Double.isPositive then
      ["limit=" ++ view.property "limit"]
    else []
  ["type", "tag", "name"].flatMap (fun key => argument key (view.property key))
    ++ limit ++ argument "distance" (view.property "distance")

/-- An entity selector. -/
def selector : Producer := fun view _ => do
  let base := view.property "base"
  match selectorArguments view with
  | [] => return base
  | arguments => return base ++ "[" ++ ",".intercalate arguments ++ "]"

/-- The mark in front of each coordinate of a position. -/
def coordinateMark (mode : String) : String :=
  if Text.contains mode "Relative" then "~"
  else if Text.contains mode "Local" then "^"
  else ""

/-- A position. -/
def position : Producer := fun view _ => do
  let mark := coordinateMark (view.property "type")
  return " ".intercalate (["x", "y", "z"].map fun axis => mark ++ view.property axis)

/-- Compound data. -/
def nbt : Producer := fun view _ => do
  return view.property "data"

/-- An item with its components. -/
def itemStack : Producer := fun view _ => do
  return view.property "item" ++ (← view.inputOr "NBT" (view.property "components"))

/-- A value taken from the property that holds it. -/
def plain : Producer := fun view _ => do
  return view.property "value"

/-- A reference to a variable. -/
def variableGet : Producer := fun view _ => do
  return "$(" ++ view.property "name" ++ ")"

/-- The command that a command block runs, without its settings. -/
def commandBlock : Producer := fun view pin => do
  if pin = "Output" then return Text.trim (← view.input "Command")
  else return view.property "value"

end Values

/-- How the standard types make their values. -/
def Compiler.standardProducers : List (String × Producer) :=
  [("selector", Values.selector),
   ("position", Values.position),
   ("nbt", Values.nbt),
   ("item_stack", Values.itemStack),
   ("text", Values.plain),
   ("number", Values.plain),
   ("variable_get", Values.variableGet),
   ("command_block", Values.commandBlock)]

/-- The compiler of the standard types. -/
def Compiler.standard : Compiler where
  synthesizers := standardSynthesizers
  producers := standardProducers

end CommandGraph
