import CommandGraph.Compile.Script

/-!
# Templates

A template is a script given as data: the texts of its parts, one after another. With templates a
compiler can be taught other ways to write commands and make values.
-/

namespace CommandGraph

namespace Template

/-- A part of a template. -/
inductive Part where
  /-- A fixed text. -/
  | literal (text : String)
  /-- The value of an input pin. -/
  | input (pin : String)
  /-- The value of an input pin, or a default if it is empty. -/
  | inputOr (pin default : String)
  /-- A property as command text. -/
  | property (name : String)
  /-- A property as command text, or a default if it is empty. -/
  | propertyOr (name default : String)
  /-- A property as a flag. -/
  | flag (name : String)
  /-- A property as a number. -/
  | number (name : String)
  /-- Whether control enters the node. -/
  | driven
  /-- The node's identity and type tag. -/
  | node
  /-- The pin that is asked for. -/
  | pin
  /-- How many nodes the graph has. -/
  | graphSize
  /-- The answer to a question. -/
  | query (q : Query)

/-- A truth value as text. -/
def flagText (b : Bool) : String :=
  if b then "true" else "false"

/-- The text of a part, where `pin` is the pin that is asked for. -/
def Part.script (view : NodeView) (pin : String) : Part → Script String
  | literal text => return text
  | input name => view.input name
  | inputOr name default => view.inputOr name default
  | property name => return view.property name
  | propertyOr name default => return view.propertyOr name default
  | flag name => return flagText (view.flag name)
  | number name => return ((view.number? name).map Double.text).getD "none"
  | driven => return flagText view.driven
  | node => return view.node.id.shown ++ ":" ++ view.node.tag
  | .pin => return pin
  | graphSize => return toString view.graphSize
  | query q => Script.query q

end Template

/-- A script given as the parts of its text. -/
abbrev Template := List Template.Part

namespace Template

/-- The text of a template, where `pin` is the pin that is asked for. -/
def script (view : NodeView) (pin : String) : Template → Script String
  | [] => return ""
  | part :: rest => do return (← part.script view pin) ++ (← script view pin rest)

/-- A template as a way to write commands; no pin is asked for then. -/
def synthesizer (template : Template) : Synthesizer :=
  fun view => script view "" template

/-- A template as a way to make values. -/
def producer (template : Template) : Producer :=
  fun view pin => script view pin template

end Template

end CommandGraph
