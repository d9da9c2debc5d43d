import CommandGraph.Compile.Values
import CommandGraph.Compile.Wiring

/-!
# Resolution

A `Resolver` answers the questions of scripts about one graph. The value of a connected input pin is
what the connected output pin hands out; that of any other input pin is the property with the pin's
name in lower case. An output pin declared to hand out the node's own command does that; any other
output pin hands out what the type's producer makes, or else the property `value`. What is missing
is empty.

Nodes may feed each other in a circle. A resolver keeps the nodes whose value is being made, and
such a node is empty for whoever asks for it meanwhile. So at most one script per node runs at any
time, and a bound on how many may be under way, one more than the graph has nodes, is never met.
-/

namespace CommandGraph

/-- Answers questions about one graph. -/
structure Resolver where
  /-- The scripts of the node types. -/
  compiler : Compiler
  /-- The graph. -/
  graph : Graph
  /-- The graph's connections, indexed. -/
  wiring : Wiring

namespace Compiler

/-- The resolver that runs a compiler's scripts over a graph. -/
def resolver (compiler : Compiler) (graph : Graph) : Resolver :=
  { compiler, graph, wiring := .ofConnections graph.connections }

end Compiler

namespace Resolver

/-- A computation that knows the nodes whose value is being made. -/
abbrev Guarded := StateM (List NodeId)

/-- Makes the value of a node, which is empty if that is under way already. -/
def guarded (id : NodeId) (make : Guarded String) : Guarded String := do
  if id ∈ (← get) then return ""
  else
    modify (id :: ·)
    let value ← make
    modify (·.erase id)
    return value

/-- What a node's scripts see of it. -/
def view (r : Resolver) (node : Node) : NodeView where
  node := node
  driven := r.wiring.hasInboundExec node.id
  graphSize := r.graph.size

/-- The command that a node writes, where `answer` serves its script. -/
def synthesizeWith (r : Resolver) (answer : Query → Guarded String) (id : NodeId) :
    Guarded String :=
  match r.graph.node? id with
  | none => return ""
  | some node => guarded id <|
    match r.compiler.synthesizer? node.tag with
    | none => return ""
    | some script => (script (r.view node)).run answer

/-- The value that a node makes for an output pin, where `answer` serves its script. -/
def produceWith (r : Resolver) (answer : Query → Guarded String) (node : Node) (pin : String) :
    Guarded String :=
  guarded node.id <|
    match r.compiler.producer? node.tag with
    | none => return node.propertyText "value"
    | some script => (script (r.view node) pin).run answer

/-- The value that a node hands out on an output pin, where `answer` serves its script. -/
def outputWith (r : Resolver) (answer : Query → Guarded String) (id : NodeId) (pin : String) :
    Guarded String :=
  match r.graph.node? id with
  | none => return ""
  | some node =>
    -- The command is guarded where it is written, so nothing is guarded twice.
    if (node.type?.bind (·.valueOutput)) = some pin then r.synthesizeWith answer id
    else r.produceWith answer node pin

/-- The value of an input pin, where `answer` serves the script of the node that is connected
to it. -/
def resolveWith (r : Resolver) (answer : Query → Guarded String) (id : NodeId) (pin : String) :
    Guarded String :=
  match r.graph.node? id with
  | none => return ""
  | some node =>
    match r.wiring.inbound? id pin with
    | some c => r.outputWith answer c.source c.sourcePin
    | none => return node.propertyText (Text.lowerCase pin)

/-- Answers a question, where `answer` serves the script that this runs. -/
def answerWith (r : Resolver) (answer : Query → Guarded String) : Query → Guarded String
  | .resolve id pin => r.resolveWith answer id pin
  | .output id pin => r.outputWith answer id pin
  | .synthesize id => r.synthesizeWith answer id

/-- Answers a question with at most `bound` scripts under way at any time. -/
def answer (r : Resolver) : Nat → Query → Guarded String
  | 0, _ => return ""
  | bound + 1, q => r.answerWith (r.answer bound) q

/-- Answers a question while the values of some nodes are being made. -/
def ask (r : Resolver) (q : Query) : Guarded String :=
  r.answer (r.graph.size + 1) q

/-- Answers a question. -/
def reply (r : Resolver) (q : Query) : String :=
  ((r.ask q).run []).1

/-- The value of an input pin. -/
def resolve (r : Resolver) (id : NodeId) (pin : String) : String :=
  r.reply (.resolve id pin)

/-- The value that a node hands out on an output pin. -/
def output (r : Resolver) (id : NodeId) (pin : String) : String :=
  r.reply (.output id pin)

/-- The command that a node writes. -/
def synthesize (r : Resolver) (id : NodeId) : String :=
  r.reply (.synthesize id)

end Resolver

end CommandGraph
