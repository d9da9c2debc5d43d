import CommandGraph.Compile.Resolution

/-!
# Compilation

Compilation starts at the entry nodes that nothing drives, in the order in which they were placed,
and follows control from node to node. Most nodes write one command and hand control on through
their first connection. A sequence hands it on through each of its pins in turn, a condition through
its two branches, and a loop through its body as often as it says before it goes on.

What happens on the way is recorded as a list of `Event`s, of which some write a line. Each start
has its own memory of the nodes it has met, and so has every round of a loop; a node that was met
before stops the walk there. Only loops may be met again.
-/

namespace CommandGraph

/-- The greatest number of rounds of a loop. -/
def maxIterations : Nat := 100

/-- How many rounds a loop makes for a requested number: the whole part of it, at least one and at
most the greatest number of rounds. A request that is not finite makes one round. -/
def clampIterations : Double → Nat
  | .finite x => if x.negative then 1 else max 1 (min x.truncated maxIterations)
  | _ => 1

/-- Something that happens while control is followed. -/
inductive Event where
  /-- Control comes to a node. -/
  | enter (node : NodeId)
  /-- A node writes its command. -/
  | command (node : NodeId) (text : String)
  /-- A loop starts a round. -/
  | round (node : NodeId) (index total : Nat)
  /-- A condition takes the branch for when it holds. -/
  | thenBranch (node : NodeId) (test condition : String)
  /-- A condition takes the other branch. -/
  | elseBranch (node : NodeId)
deriving DecidableEq

namespace Event

/-- The line that an event writes. A command together with its comment counts as one line. -/
def line? : Event → Option String
  | enter _ => none
  | command _ text => some text
  | round _ index total => some s!"# Loop Iteration {index}/{total}"
  | thenBranch _ test condition => some s!"# If {test} {condition} THEN:"
  | elseBranch _ => some "# Else / False:"

end Event

/-- What a node does with control. -/
inductive Role where
  /-- It repeats its body. -/
  | loop
  /-- It chooses between two branches. -/
  | condition
  /-- It goes through its branches in turn. -/
  | sequence
  /-- It writes a command and hands control on. -/
  | plain
deriving DecidableEq

/-- The role of a node, by its type. -/
def Node.role (node : Node) : Role :=
  match node.tag with
  | "loop" => .loop
  | "if_condition" => .condition
  | "sequence" => .sequence
  | _ => .plain

/-- A way on from a node. -/
structure Branch where
  /-- What happens when the way is taken. -/
  lead : List Event := []
  /-- The node that it leads to. -/
  target : NodeId

namespace Resolver

/-- How many rounds a loop makes. Its property counts only where the pin has no value. -/
def iterations (r : Resolver) (node : Node) : Nat :=
  let count := Text.trim (r.resolve node.id "Count")
  let requested := if count.isEmpty then node.propertyNumber? "iterations" else Double.parse? count
  clampIterations (requested.getD .one)

/-- The ways on from a node that are taken once, in order. -/
def branches (r : Resolver) (node : Node) : List Branch :=
  let way (lead : List Event) (c : Option Connection) : List Branch :=
    (c.map fun c => { lead, target := c.target }).toList
  let outgoing := r.wiring.outgoing? node.id
  match node.role with
  | .loop => way [] (outgoing "Completed")
  | .condition =>
    let holds : Event := .thenBranch node.id (node.propertyText "conditionType")
      (r.resolve node.id "Condition")
    way [holds] (outgoing "True") ++ way [.elseBranch node.id] (outgoing "False")
  | .sequence =>
    let pins := (node.type?.map NodeType.execOutputs).getD []
    pins.flatMap fun pin => way [] (outgoing pin.name)
  | .plain => way [] (r.wiring.nextExec? node.id)

/-- What a node writes by itself. -/
def own (r : Resolver) (node : Node) : List Event :=
  match node.role with
  | .plain =>
    let text := r.synthesize node.id
    if text.isEmpty then [] else [.command node.id text]
  | _ => []

/-- The node that a loop's body starts with. -/
def body? (r : Resolver) (node : Node) : Option NodeId :=
  (r.wiring.outgoing? node.id "Loop Body").map (·.target)

/-- The rounds of a loop, where each round does the same. -/
def rounds (r : Resolver) (node : Node) (body : List Event) : List Event :=
  let total := r.iterations node
  (List.range total).flatMap fun i => .round node.id (i + 1) total :: body

/-- Takes several ways on, one after another, where `walk` follows control from a node. The nodes
met so far are handed on. -/
def walkBranches (walk : NodeId → List NodeId → List Event × List NodeId) :
    List Branch → List NodeId → List Event × List NodeId
  | [], met => ([], met)
  | branch :: rest, met =>
    let (first, met) := walk branch.target met
    let (others, met) := walkBranches walk rest met
    (branch.lead ++ first ++ others, met)

/-- Follows control from a node for at most `bound` nodes in a row, given the nodes met before, and
gives what happens and the nodes met after. -/
def walk (r : Resolver) : Nat → NodeId → List NodeId → List Event × List NodeId
  | 0, _, met => ([], met)
  | bound + 1, id, met =>
    match r.graph.node? id with
    | none => ([], met)
    | some node =>
      if node.role = .loop then
        -- Every round starts without memory and so does the same; it is walked once.
        let body := match r.body? node with
          | none => []
          | some start => (r.walk bound start []).1
        let (after, met) := walkBranches (r.walk bound) (r.branches node) met
        (.enter id :: r.rounds node body ++ after, met)
      -- Only here is the memory used: a loop above never stops the walk.
      else if id ∈ met then ([], met)
      else
        let (after, met) := walkBranches (r.walk bound) (r.branches node) (id :: met)
        (.enter id :: r.own node ++ after, met)

/-- The nodes at which compilation starts. -/
def entries (r : Resolver) : List NodeId :=
  (r.graph.nodes.filter fun node =>
    node.type?.any (·.entry) && !r.wiring.hasInboundExec node.id).map (·.id)

/-- All that happens when a graph is compiled. -/
def events (r : Resolver) : List Event :=
  r.entries.flatMap fun id => (r.walk r.graph.size id []).1

end Resolver

namespace Compiler

/-- The lines that a graph compiles to. A comment and the command below it are one of them. -/
def compileLines (compiler : Compiler) (graph : Graph) : List String :=
  (compiler.resolver graph).events.filterMap Event.line?

/-- The text that a graph compiles to. -/
def compile (compiler : Compiler) (graph : Graph) : String :=
  "\n".intercalate (compiler.compileLines graph)

end Compiler

end CommandGraph
