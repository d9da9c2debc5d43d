import CommandGraph.Graph.Basic

/-!
# Scripts of node types

What a node type writes or hands out is given by a `Script`: a computation that may ask about the
graph around it, and goes on with the answers. There are three questions, the `Query` type, and
every answer is a text. A script says what to do with any answer and nothing about where answers
come from, so the same script can be run with and without a guard against cycles.

A script sees the node it is run for as a `NodeView`.
-/

namespace CommandGraph

/-- A question about a graph. -/
inductive Query where
  /-- What value does an input pin have? -/
  | resolve (node : NodeId) (pin : String)
  /-- What value does a node hand out on an output pin? -/
  | output (node : NodeId) (pin : String)
  /-- What command does a node write? -/
  | synthesize (node : NodeId)
deriving DecidableEq

/-- A computation with questions. -/
inductive Script (α : Type) : Type where
  /-- There is nothing more to ask. -/
  | done (a : α)
  /-- Asks a question, and goes on with the answer. -/
  | ask (q : Query) (next : String → Script α)

namespace Script

variable {α β : Type}

/-- Goes on with the result of a script. -/
def bind : Script α → (α → Script β) → Script β
  | done a, f => f a
  | ask q next, f => ask q fun answer => (next answer).bind f

instance : Monad Script where
  pure := done
  bind := bind

/-- The script that asks one question, and gives the answer. -/
def query (q : Query) : Script String :=
  ask q done

/-- Runs a script, getting each answer from `answer`. -/
def run {m : Type → Type} [Monad m] (answer : Query → m String) : Script α → m α
  | done a => pure a
  | ask q next => do (next (← answer q)).run answer

end Script

/-- What a script sees of its node. -/
structure NodeView where
  /-- The node. -/
  node : Node
  /-- Whether control enters the node through a connection. -/
  driven : Bool
  /-- How many nodes the graph has. -/
  graphSize : Nat

/-- The value, or the default if the value is empty. A blank value is not empty. -/
def orDefault (value default : String) : String :=
  if value.isEmpty then default else value

namespace NodeView

/-- The value of an input pin: of what is connected to it, or else of the property it stands for. -/
def input (view : NodeView) (pin : String) : Script String :=
  .query (.resolve view.node.id pin)

/-- The value of an input pin, or a default if it is empty. -/
def inputOr (view : NodeView) (pin default : String) : Script String := do
  return orDefault (← view.input pin) default

/-- A property as command text. -/
def property (view : NodeView) (name : String) : String :=
  view.node.propertyText name

/-- A property as command text, or a default if it is empty. -/
def propertyOr (view : NodeView) (name default : String) : String :=
  orDefault (view.property name) default

/-- A property as a flag. -/
def flag (view : NodeView) (name : String) : Bool :=
  view.node.propertyFlag name

/-- A property as a number. -/
def number? (view : NodeView) (name : String) : Option Double :=
  view.node.propertyNumber? name

end NodeView

/-- How a node type writes its command. -/
abbrev Synthesizer := NodeView → Script String

/-- How a node type makes the value that it hands out on a pin. -/
abbrev Producer := NodeView → String → Script String

/-- The scripts of the node types, by tag. Where a tag occurs more than once, the first script
counts. -/
structure Compiler where
  /-- How commands are written. -/
  synthesizers : List (String × Synthesizer)
  /-- How values are made. -/
  producers : List (String × Producer)

namespace Compiler

/-- How a type writes its command. -/
def synthesizer? (compiler : Compiler) (tag : String) : Option Synthesizer :=
  compiler.synthesizers.lookup tag

/-- How a type makes its values. -/
def producer? (compiler : Compiler) (tag : String) : Option Producer :=
  compiler.producers.lookup tag

/-- The compiler with another way for a type to write its command. -/
def withSynthesizer (compiler : Compiler) (tag : String) (script : Synthesizer) : Compiler :=
  { compiler with synthesizers := (tag, script) :: compiler.synthesizers }

/-- The compiler with another way for a type to make its values. -/
def withProducer (compiler : Compiler) (tag : String) (script : Producer) : Compiler :=
  { compiler with producers := (tag, script) :: compiler.producers }

end Compiler

end CommandGraph
