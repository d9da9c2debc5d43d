import CommandGraph.Proofs.Compile.Resolution
import Mathlib.Data.List.Chain
import Mathlib.Logic.Relation

/-!
# Questions within questions

To answer a question the resolver may have to answer others, and these may have to make the values
of more nodes. `Resolver.Nests` says which questions one question leads to, whatever the answers on
the way. A nested question is asked while the nodes whose values are being made are under way, and
making a value adds a node of the graph that was not among them (`Resolver.Makes`). So there are
never more values under way than nodes (`Resolver.exists_started`), and three questions in a row
lead to one more value, so questions are nested no deeper than that (`Resolver.length_le_of_nests`).
-/

namespace CommandGraph

open Relation

/-- Some run of a script asks a question. -/
inductive Script.Asks {α : Type} (q : Query) : Script α → Prop
  /-- It is the next question. -/
  | here {next : String → Script α} : Asks q (.ask q next)
  /-- It is asked after some answer to the next question. -/
  | later {other : Query} {next : String → Script α} (answer : String)
      (hnext : Asks q (next answer)) : Asks q (.ask other next)

/-- A question, asked while the values of some nodes are being made. -/
structure Call where
  /-- The nodes whose values are being made. -/
  busy : List NodeId
  /-- The question. -/
  query : Query

/-- How far a question is from making a value: an input pin leads to an output pin, and that to a
command. -/
def Query.distance : Query → Nat
  | .resolve .. => 2
  | .output .. => 1
  | .synthesize _ => 0

namespace Resolver

/-- A question has the value of a node made by a script, since the node is not under way. A type
without a script makes its value without asking anything. -/
inductive Makes (r : Resolver) : Call → NodeId → Script String → Prop
  /-- A value for an output pin. -/
  | produce {busy : List NodeId} {id : NodeId} {pin : String} {node : Node}
      (hnode : r.graph.node? id = some node) (hpin : (node.type?.bind (·.valueOutput)) ≠ some pin)
      (hidle : id ∉ busy) :
      Makes r ⟨busy, .output id pin⟩ id
        (((r.compiler.producer? node.tag).map fun script => script (r.view node) pin).getD
          (.done (node.propertyText "value")))
  /-- A command. -/
  | synthesize {busy : List NodeId} {id : NodeId} {node : Node}
      (hnode : r.graph.node? id = some node) (hidle : id ∉ busy) :
      Makes r ⟨busy, .synthesize id⟩ id
        (((r.compiler.synthesizer? node.tag).map fun script => script (r.view node)).getD
          (.done ""))

/-- A question leads to another one. -/
inductive Nests (r : Resolver) : Call → Call → Prop
  /-- A connected input pin has the value of an output pin. -/
  | connected {busy : List NodeId} {id : NodeId} {pin : String} {node : Node} {c : Connection}
      (hnode : r.graph.node? id = some node) (hc : r.wiring.inbound? id pin = some c) :
      Nests r ⟨busy, .resolve id pin⟩ ⟨busy, .output c.source c.sourcePin⟩
  /-- The pin for commands hands out the node's command. -/
  | command {busy : List NodeId} {id : NodeId} {pin : String} {node : Node}
      (hnode : r.graph.node? id = some node)
      (hpin : (node.type?.bind (·.valueOutput)) = some pin) :
      Nests r ⟨busy, .output id pin⟩ ⟨busy, .synthesize id⟩
  /-- The script that makes a value asks something. -/
  | nested {call : Call} {id : NodeId} {script : Script String} {q : Query}
      (hmakes : r.Makes call id script) (hasks : script.Asks q) :
      Nests r call ⟨id :: call.busy, q⟩

variable {r : Resolver} {call next : Call} {id : NodeId} {script : Script String} {q : Query}
  {busy : List NodeId}

/-- Only the value of a node that is there and not under way is made. -/
theorem Makes.idle (h : r.Makes call id script) : id ∈ r.graph.ids ∧ id ∉ call.busy := by
  cases h with
  | produce hnode _ hidle => exact ⟨Graph.mem_ids_of_node? hnode, hidle⟩
  | synthesize hnode hidle => exact ⟨Graph.mem_ids_of_node? hnode, hidle⟩

/-- How many questions may still be nested in a question. -/
def room (r : Resolver) (call : Call) : Nat :=
  3 * r.idle call.busy + call.query.distance

/-- A question leads only to questions with less room. -/
theorem Nests.room_lt (h : r.Nests call next) : r.room next < r.room call := by
  cases h with
  | connected hnode hc => simp [room, Query.distance]
  | command hnode hpin => simp [room, Query.distance]
  | @nested _ id script q hmakes hasks =>
    obtain ⟨hmem, hidle⟩ := hmakes.idle
    have hless := idle_cons_lt hmem hidle
    -- One node less is idle, which outweighs the distance of any question.
    have hdistance : q.distance ≤ 2 := by cases q <;> simp [Query.distance]
    simp only [room]
    omega

/-- A chain of nested questions is no longer than there is room. -/
theorem length_le_room {calls : List Call} (h : List.IsChain r.Nests (call :: calls)) :
    calls.length ≤ r.room call := by
  induction calls generalizing call with
  | nil => exact Nat.zero_le _
  | cons next rest ih =>
    obtain ⟨hnext, hrest⟩ := List.isChain_cons_cons.1 h
    have hle := ih hrest
    have hlt := hnext.room_lt
    rw [List.length_cons]
    omega

/-- Questions are nested no deeper than three for every node, and three more. -/
theorem length_le_of_nests {calls : List Call} (h : List.IsChain r.Nests (⟨busy, q⟩ :: calls)) :
    (⟨busy, q⟩ :: calls : List Call).length ≤ 3 * (r.graph.size + 1) := by
  have hlength := length_le_room h
  have hidle := r.idle_le_size busy
  have hdistance : q.distance ≤ 2 := by cases q <;> simp [Query.distance]
  simp only [room] at hlength
  rw [List.length_cons]
  omega

/-- The values being made for a nested question are those that were under way at first and, in front
of them, values of nodes of the graph that were not, each once. -/
theorem exists_started (h : ReflTransGen r.Nests ⟨busy, q⟩ call) :
    ∃ started, call.busy = started ++ busy ∧ started.Nodup ∧
      ∀ id ∈ started, id ∈ r.graph.ids ∧ id ∉ busy := by
  induction h with
  | refl => exact ⟨[], rfl, List.nodup_nil, by simp⟩
  | @tail call next _ hnext ih =>
    obtain ⟨started, hbusy, hnodup, hstarted⟩ := ih
    cases hnext with
    | connected hnode hc => exact ⟨started, hbusy, hnodup, hstarted⟩
    | command hnode hpin => exact ⟨started, hbusy, hnodup, hstarted⟩
    | @nested _ id _ _ hmakes hasks =>
      obtain ⟨hmem, hidle⟩ := hmakes.idle
      rw [hbusy, List.mem_append, not_or] at hidle
      refine ⟨id :: started, by rw [hbusy]; rfl, List.nodup_cons.2 ⟨hidle.1, hnodup⟩, ?_⟩
      exact List.forall_mem_cons.2 ⟨⟨hmem, hidle.2⟩, hstarted⟩

end Resolver

end CommandGraph
