import CommandGraph.Document.Snapshot
import CommandGraph.Proofs.Json.Ordered

/-!
# Editing sessions

A session starts with the empty graph and goes through a list of edits. An edit is one of the
graph's own operations, a change made directly to a node behind their back (`Edit.retype`,
`Edit.rewrite`), or the loading of a document, which replaces the graph. An edit that is refused
leaves the graph as it was.

The same edits can be performed on the stores of the graph (`Edit.perform`, `Arena.run`). Whether a
refused edit leaves the stores as they were is then a question of what was done before the refusal.

What one edit can do to a graph is said once, by `Edit.Step`; the invariants of sessions are derived
from it.
-/

namespace CommandGraph

/-- An edit of a graph. -/
inductive Edit where
  /-- Places a node. -/
  | add (tag : String) (position : Position)
  /-- Removes a node. -/
  | remove (id : NodeId)
  /-- Sets a property. -/
  | set (id : NodeId) (name : String) (value : PropertyValue)
  /-- Moves a node. -/
  | move (id : NodeId) (position : Position)
  /-- Connects two pins. -/
  | connect (source : NodeId) (sourcePin : String) (target : NodeId) (targetPin : String)
  /-- Removes the connection into an input pin. -/
  | disconnect (id : NodeId) (pin : String)
  /-- Overwrites the type tag of a node. -/
  | retype (id : NodeId) (tag : String)
  /-- Changes the property values of a node in any way. -/
  | rewrite (id : NodeId) (change : Dictionary Json → Dictionary Json)
  /-- Goes on with the graph of a document. -/
  | load (document : Document)

/-- The graph after an edit that succeeds, and the same graph after one that is refused. -/
def Graph.orUnchanged (g : Graph) : Except GraphError Graph → Graph
  | .ok edited => edited
  | .error _ => g

namespace Edit

/-- Applies an edit to a graph. -/
def apply (g : Graph) : Edit → Graph
  | add tag position => g.orUnchanged ((g.addNode tag position).map Prod.snd)
  | remove id => ((g.removeNode? id).map Prod.snd).getD g
  | set id name value => g.orUnchanged (g.setProperty id name value.json)
  | move id position => g.orUnchanged (g.moveNode id position)
  | connect source sourcePin target targetPin =>
    g.orUnchanged (g.connect source sourcePin target targetPin)
  | disconnect id pin => ((g.disconnect? id pin).map Prod.snd).getD g
  | retype id tag => g.orUnchanged (g.retypeNode id tag)
  | rewrite id change =>
    g.orUnchanged (g.editNode id fun node => { node with properties := change node.properties })
  | load document => document.toGraph

/-- Performs an edit on the stores of a graph, and gives the stores as it leaves them, whether or
not it is refused. -/
def perform (a : Arena) : Edit → Arena
  | add tag position => ((Arena.addNode tag position).run.run a).2
  | remove id => ((Arena.removeNode? id).run a).2
  | set id name value => ((Arena.setProperty id name value.json).run.run a).2
  | move id position => ((Arena.moveNode id position).run.run a).2
  | connect source sourcePin target targetPin =>
    ((Arena.connect source sourcePin target targetPin).run.run a).2
  | disconnect id pin => ((Arena.disconnect? id pin).run a).2
  | retype id tag => ((Arena.retypeNode id tag).run.run a).2
  | rewrite id change =>
    ((Arena.editNode id fun node => { node with properties := change node.properties }).run.run a).2
  | load document => document.toArena

/-- What an edit makes of a node that stays. -/
def alter (node : Node) : Edit → Node
  | set id name value =>
    if node.id = id then { node with properties := node.properties.insert name value.json }
    else node
  | move id position => if node.id = id then { node with position } else node
  | retype id tag => if node.id = id then { node with tag } else node
  | rewrite id change =>
    if node.id = id then { node with properties := change node.properties } else node
  | _ => node

/-- Whether an edit replaces the graph by that of a document. -/
def isLoad : Edit → Bool
  | load _ => true
  | _ => false

/-- Whether an edit overwrites a type tag. -/
def isRetype : Edit → Bool
  | retype .. => true
  | _ => false

/-- Whether an edit is one of the graph's own operations. -/
def isOperation : Edit → Bool
  | retype .. | rewrite .. | load _ => false
  | _ => true

/-- An operation neither replaces the graph nor changes nodes behind its back. -/
theorem of_isOperation {e : Edit} (h : e.isOperation) :
    e.isLoad = false ∧ e.isRetype = false ∧ ∀ id change, e ≠ rewrite id change := by
  cases e with
  | retype | rewrite | load => cases h
  | _ => exact ⟨rfl, rfl, nofun⟩

end Edit

/-- The stores after a list of edits. -/
def Arena.run (edits : List Edit) : Arena :=
  edits.foldl Edit.perform {}

/-- One more edit is performed on what the edits before it have left. -/
theorem Arena.run_concat (edits : List Edit) (e : Edit) :
    run (edits ++ [e]) = e.perform (run edits) :=
  List.foldl_append

/-- How far an editing session has come. -/
structure Session where
  /-- The graph. -/
  graph : Graph := .empty
  /-- How many nodes have ever been placed in this graph, those removed since included. -/
  placed : Nat := 0

namespace Session

/-- The number of nodes ever placed after an edit. A document's nodes are placed in a new graph,
from which loading removes none. -/
def placedAfter (s : Session) : Edit → Nat
  | .add tag _ => if Catalog.standard.contains tag then s.placed + 1 else s.placed
  | .load document => document.toGraph.size
  | _ => s.placed

/-- Goes on with an edit. -/
def apply (s : Session) (e : Edit) : Session where
  graph := e.apply s.graph
  placed := s.placedAfter e

/-- The session with a list of edits. -/
def run (edits : List Edit) : Session :=
  edits.foldl apply {}

/-- A longer session goes on from a shorter one. -/
theorem run_append (edits more : List Edit) : run (edits ++ more) = more.foldl apply (run edits) :=
  List.foldl_append

/-- One more edit is applied to what the edits before it have reached. -/
theorem run_concat (edits : List Edit) (e : Edit) : run (edits ++ [e]) = (run edits).apply e :=
  run_append edits [e]

/-- Without a document the number of nodes ever placed does not shrink. -/
theorem placed_le_placedAfter (s : Session) {e : Edit} (he : e.isLoad = false) :
    s.placed ≤ s.placedAfter e := by
  cases e with
  | add tag position =>
    rw [placedAfter]
    split <;> omega
  | load document => cases he
  | _ => exact Nat.le_refl _

/-- The same along a session. -/
theorem placed_le_run {edits more : List Edit} (hload : ∀ e ∈ edits ++ more, e.isLoad = false) :
    (run edits).placed ≤ (run (edits ++ more)).placed := by
  induction more generalizing edits with
  | nil => simp
  | cons e more ih =>
    rw [List.append_cons] at hload ⊢
    refine Nat.le_trans ?_ (ih hload)
    rw [run_concat]
    exact (run edits).placed_le_placedAfter (hload e (by simp))

end Session

/-! ## What an edit can do -/

/-- A node as it is placed, with the default property values of its type. -/
def NodeType.newNode (type : NodeType) (id : NodeId) (position : Position) : Node where
  id := id
  tag := type.tag
  position := position
  properties := type.defaults

/-- The changes of a graph that an edit other than a loading can make. -/
inductive Edit.Step (e : Edit) (g : Graph) : Graph → Prop
  /-- The edit is refused. -/
  | refused : Step e g g
  /-- A node of a type of the catalog is placed last. -/
  | place {type : NodeType} (htype : Catalog.standard.find? type.tag = some type)
      (position : Position) :
      Step e g { g with
        nodes := g.nodes ++ [type.newNode ⟨g.nextIndex⟩ position]
        nextIndex := g.nextIndex + 1 }
  /-- A node goes, with the connections at it. -/
  | remove (id : NodeId) :
      Step e g { g with
        nodes := g.nodes.filter (·.id != id)
        connections := g.connections.filter (!·.touches id) }
  /-- A node is changed. -/
  | alter : Step e g { g with nodes := g.nodes.map (e.alter ·) }
  /-- A connection between pins of one kind is made, and replaces the one into its input pin. -/
  | connect {source target : NodeId} {sourcePin targetPin : String} {kind : PinKind}
      (hne : source ≠ target) (hsource : g.pinKind source .output sourcePin = .ok kind)
      (htarget : g.pinKind target .input targetPin = .ok kind) :
      Step e g { g with
        connections := g.connections.filter (!·.enters target targetPin) ++
          [{ source, sourcePin, target, targetPin, kind }] }
  /-- The connection into an input pin goes. -/
  | disconnect (id : NodeId) (pin : String) :
      Step e g { g with connections := g.connections.eraseP (·.enters id pin) }

/-- A look-up finds a type of the catalog with the tag. -/
theorem Catalog.find?_eq_some {catalog : Catalog} {tag : String} {type : NodeType}
    (h : catalog.find? tag = some type) : type ∈ catalog.types ∧ type.tag = tag :=
  ⟨List.mem_reverse.1 (List.mem_of_find?_eq_some h), by simpa using List.find?_some h⟩

namespace Graph

/-- An edit of a node that is there changes that node. -/
theorem editNode_eq_ok {g edited : Graph} {id : NodeId} {change : Node → Node}
    (h : g.editNode id change = .ok edited) : edited = g.modifyNode id change := by
  unfold editNode at h
  split at h
  · cases h
  · exact (Except.ok.inj h).symm

/-- What placing a node gives: the identity that was next, and a node with its type's defaults. -/
theorem addNode_eq_ok {g placed : Graph} {tag : String} {position : Position} {id : NodeId}
    (h : g.addNode tag position = .ok (id, placed)) :
    ∃ type, Catalog.standard.find? tag = some type ∧ id = ⟨g.nextIndex⟩ ∧
      placed = { g with
        nodes := g.nodes ++ [type.newNode ⟨g.nextIndex⟩ position]
        nextIndex := g.nextIndex + 1 } := by
  unfold addNode at h
  split at h
  next => cases h
  next type htype =>
    obtain ⟨rfl, rfl⟩ := Prod.mk.inj (Except.ok.inj h)
    exact ⟨type, htype, rfl, rfl⟩

/-- Connecting two pins takes different nodes and pins of one kind on the right sides; then it
gives the connection the last place. -/
theorem connect_eq_ok_iff {g connected : Graph} {source target : NodeId}
    {sourcePin targetPin : String} :
    g.connect source sourcePin target targetPin = .ok connected ↔
      ∃ kind, source ≠ target ∧ g.pinKind source .output sourcePin = .ok kind ∧
        g.pinKind target .input targetPin = .ok kind ∧
        connected = { g with
          connections := g.connections.filter (!·.enters target targetPin) ++
            [{ source, sourcePin, target, targetPin, kind }] } := by
  unfold connect
  by_cases hself : source = target
  · simp [hself, bind, Except.bind, throw, throwThe, MonadExceptOf.throw]
  -- Past the first check, each of the two pins may be missing, and then their kinds may differ.
  cases hsource : g.pinKind source .output sourcePin with
  | error e => simp [hself, bind, Except.bind]
  | ok kind =>
    cases htarget : g.pinKind target .input targetPin with
    | error e => simp [hself, bind, Except.bind]
    | ok targetKind =>
      by_cases hkind : kind = targetKind
      · subst hkind
        simp [hself, bind, Except.bind, pure, Except.pure, eq_comm]
      · simp only [hself, hkind, bind, Except.bind, throw, throwThe, MonadExceptOf.throw,
          ↓reduceIte, ne_eq, not_false_eq_true, reduceCtorEq, Except.ok.injEq, false_iff]
        rintro ⟨other, -, rfl, rfl, -⟩
        exact hkind rfl

/-- An edit that may be refused makes a step if every success does. -/
theorem step_orUnchanged {g : Graph} {e : Edit} {result : Except GraphError Graph}
    (h : ∀ edited, result = .ok edited → e.Step g edited) : e.Step g (g.orUnchanged result) := by
  cases result with
  | ok edited => exact h edited rfl
  | error _ => exact .refused

end Graph

namespace Edit

/-- Every edit other than a loading makes a step. -/
theorem step_apply (g : Graph) {e : Edit} (he : e.isLoad = false) : e.Step g (e.apply g) := by
  cases e with
  | add tag position =>
    refine Graph.step_orUnchanged fun edited h => ?_
    -- The type that was found is the one that the new node's tag names.
    cases hadd : g.addNode tag position with
    | error e => rw [hadd] at h; cases h
    | ok result =>
      obtain ⟨id, placed⟩ := result
      obtain ⟨type, htype, -, hplaced⟩ := Graph.addNode_eq_ok hadd
      rw [hadd] at h
      cases h
      rw [hplaced]
      exact .place (by rw [(Catalog.find?_eq_some htype).2, htype]) position
  | remove id =>
    rw [apply, Graph.removeNode?]
    cases g.node? id with
    | none => exact .refused
    | some node => exact .remove id
  | set id name value =>
    refine Graph.step_orUnchanged fun edited h => ?_
    rw [Graph.editNode_eq_ok h]
    exact .alter
  | move id position =>
    refine Graph.step_orUnchanged fun edited h => ?_
    rw [Graph.editNode_eq_ok h]
    exact .alter
  | connect source sourcePin target targetPin =>
    refine Graph.step_orUnchanged fun edited h => ?_
    obtain ⟨kind, hne, hsource, htarget, rfl⟩ := Graph.connect_eq_ok_iff.1 h
    exact .connect hne hsource htarget
  | disconnect id pin =>
    rw [apply, Graph.disconnect?]
    cases g.inbound? id pin with
    | none => exact .refused
    | some c => exact .disconnect id pin
  | retype id tag =>
    refine Graph.step_orUnchanged fun edited h => ?_
    rw [Graph.editNode_eq_ok h]
    exact .alter
  | rewrite id change =>
    refine Graph.step_orUnchanged fun edited h => ?_
    rw [Graph.editNode_eq_ok h]
    exact .alter
  | load document => cases he

/-- No edit changes the identity of a node. -/
theorem id_alter (node : Node) (e : Edit) : (e.alter node).id = node.id := by
  unfold alter
  split <;> try rfl
  all_goals split <;> rfl

/-- Only overwriting type tags changes the tag of a node. -/
theorem tag_alter (node : Node) {e : Edit} (he : e.isRetype = false) :
    (e.alter node).tag = node.tag := by
  unfold alter
  split <;> try rfl
  case h_3 => cases he
  all_goals split <;> rfl

end Edit

end CommandGraph
