import CommandGraph.Compile.Resolution
import CommandGraph.Proofs.Graph.Invariant

/-!
# Resolution without a bound

The rules by which questions are answered, with the nodes whose values are being made but without
any bound on how many there are (`Resolver.Answers`). Every nested script belongs to a node of the
graph that is not under way yet, so with one more than there are idle nodes the bounded computation
follows the rules, and it hands back the nodes under way as it got them
(`Resolver.returns_answer`). The rules leave no choice, hence they give what the computation gives
and nothing else (`Resolver.answers_iff`).
-/

namespace CommandGraph

namespace Resolver

mutual

/-- The rules for the answers to questions while the values of some nodes are being made. -/
inductive Answers (r : Resolver) : List NodeId → Query → String → Prop
  /-- A node that is not there has no input values. -/
  | resolve_absent {busy : List NodeId} {id : NodeId} {pin : String}
      (hnode : r.graph.node? id = none) : Answers r busy (.resolve id pin) ""
  /-- A connected input pin has the value of the output pin. -/
  | resolve_connected {busy : List NodeId} {id : NodeId} {pin text : String} {node : Node}
      {c : Connection} (hnode : r.graph.node? id = some node)
      (hc : r.wiring.inbound? id pin = some c)
      (hsource : Answers r busy (.output c.source c.sourcePin) text) :
      Answers r busy (.resolve id pin) text
  /-- Any other input pin has the value of its property. -/
  | resolve_property {busy : List NodeId} {id : NodeId} {pin : String} {node : Node}
      (hnode : r.graph.node? id = some node) (hc : r.wiring.inbound? id pin = none) :
      Answers r busy (.resolve id pin) (node.propertyText (Text.lowerCase pin))
  /-- A node that is not there hands out nothing. -/
  | output_absent {busy : List NodeId} {id : NodeId} {pin : String}
      (hnode : r.graph.node? id = none) : Answers r busy (.output id pin) ""
  /-- The pin for commands hands out the node's command. -/
  | output_command {busy : List NodeId} {id : NodeId} {pin text : String} {node : Node}
      (hnode : r.graph.node? id = some node) (hpin : (node.type?.bind (·.valueOutput)) = some pin)
      (hcommand : Answers r busy (.synthesize id) text) : Answers r busy (.output id pin) text
  /-- A value under way is empty. -/
  | output_busy {busy : List NodeId} {id : NodeId} {pin : String} {node : Node}
      (hnode : r.graph.node? id = some node) (hpin : (node.type?.bind (·.valueOutput)) ≠ some pin)
      (hbusy : id ∈ busy) : Answers r busy (.output id pin) ""
  /-- A node without producer hands out a property. -/
  | output_property {busy : List NodeId} {id : NodeId} {pin : String} {node : Node}
      (hnode : r.graph.node? id = some node) (hpin : (node.type?.bind (·.valueOutput)) ≠ some pin)
      (hbusy : id ∉ busy) (hscript : r.compiler.producer? node.tag = none) :
      Answers r busy (.output id pin) (node.propertyText "value")
  /-- A producer runs while its node is under way. -/
  | output_script {busy : List NodeId} {id : NodeId} {pin text : String} {node : Node}
      {script : Producer} (hnode : r.graph.node? id = some node)
      (hpin : (node.type?.bind (·.valueOutput)) ≠ some pin) (hbusy : id ∉ busy)
      (hscript : r.compiler.producer? node.tag = some script)
      (hrun : Runs r (id :: busy) (script (r.view node) pin) text) :
      Answers r busy (.output id pin) text
  /-- A node that is not there writes nothing. -/
  | synthesize_absent {busy : List NodeId} {id : NodeId} (hnode : r.graph.node? id = none) :
      Answers r busy (.synthesize id) ""
  /-- A command under way is empty. -/
  | synthesize_busy {busy : List NodeId} {id : NodeId} {node : Node}
      (hnode : r.graph.node? id = some node) (hbusy : id ∈ busy) :
      Answers r busy (.synthesize id) ""
  /-- A node without synthesizer writes nothing. -/
  | synthesize_silent {busy : List NodeId} {id : NodeId} {node : Node}
      (hnode : r.graph.node? id = some node) (hbusy : id ∉ busy)
      (hscript : r.compiler.synthesizer? node.tag = none) : Answers r busy (.synthesize id) ""
  /-- A synthesizer runs while its node is under way. -/
  | synthesize_script {busy : List NodeId} {id : NodeId} {text : String} {node : Node}
      {script : Synthesizer} (hnode : r.graph.node? id = some node) (hbusy : id ∉ busy)
      (hscript : r.compiler.synthesizer? node.tag = some script)
      (hrun : Runs r (id :: busy) (script (r.view node)) text) :
      Answers r busy (.synthesize id) text

/-- The rules for the runs of scripts while the values of some nodes are being made. -/
inductive Runs (r : Resolver) : List NodeId → Script String → String → Prop
  /-- Nothing more is asked. -/
  | done {busy : List NodeId} {text : String} : Runs r busy (.done text) text
  /-- A question is answered, and the script goes on with the answer. -/
  | ask {busy : List NodeId} {q : Query} {next : String → Script String} {reply text : String}
      (hreply : Answers r busy q reply) (hnext : Runs r busy (next reply) text) :
      Runs r busy (.ask q next) text

end

/-! ## The rules leave no choice -/

mutual

/-- A question has one answer. -/
theorem Answers.unique {r : Resolver} {busy : List NodeId} {q : Query} {a b : String} :
    r.Answers busy q a → r.Answers busy q b → a = b
  | .resolve_absent _, h => by cases h <;> simp_all
  | .resolve_property _ _, h => by cases h <;> simp_all
  -- Two rules for one question differ in what they require, so the same rule gave both answers.
  | .resolve_connected hnode hc hsource, h => by
    cases h with
    | resolve_connected _ hc' hsource' =>
      obtain rfl := Option.some.inj (hc.symm.trans hc')
      exact hsource.unique hsource'
    | _ => simp_all
  | .output_absent _, h => by cases h <;> simp_all
  | .output_busy _ _ _, h => by cases h <;> simp_all
  | .output_property _ _ _ _, h => by cases h <;> simp_all
  | .output_command hnode hpin hcommand, h => by
    cases h with
    | output_command _ _ hcommand' => exact hcommand.unique hcommand'
    | _ => simp_all
  | .output_script hnode hpin hbusy hscript hrun, h => by
    cases h with
    | output_script hnode' _ _ hscript' hrun' =>
      obtain rfl := Option.some.inj (hnode.symm.trans hnode')
      obtain rfl := Option.some.inj (hscript.symm.trans hscript')
      exact hrun.unique hrun'
    | _ => simp_all
  | .synthesize_absent _, h => by cases h <;> simp_all
  | .synthesize_busy _ _, h => by cases h <;> simp_all
  | .synthesize_silent _ _ _, h => by cases h <;> simp_all
  | .synthesize_script hnode hbusy hscript hrun, h => by
    cases h with
    | synthesize_script hnode' _ hscript' hrun' =>
      obtain rfl := Option.some.inj (hnode.symm.trans hnode')
      obtain rfl := Option.some.inj (hscript.symm.trans hscript')
      exact hrun.unique hrun'
    | _ => simp_all

/-- A script has one result. -/
theorem Runs.unique {r : Resolver} {busy : List NodeId} {script : Script String} {a b : String} :
    r.Runs busy script a → r.Runs busy script b → a = b
  | .done, h => by cases h; rfl
  | .ask hreply hnext, h => by
    cases h with
    | ask hreply' hnext' =>
      obtain rfl := hreply.unique hreply'
      exact hnext.unique hnext'

end

/-! ## The bounded computation follows the rules -/

/-- A computation returns a text with a property, and leaves no trace of itself among the nodes
under way. -/
def Returns (busy : List NodeId) (compute : Guarded String) (P : String → Prop) : Prop :=
  ∃ text, compute.run busy = (text, busy) ∧ P text

variable {r : Resolver} {answer : Query → Guarded String} {busy : List NodeId}

/-- Returning a text at once. -/
theorem Returns.pure {text : String} {P : String → Prop} (h : P text) :
    Returns busy (return text) P :=
  ⟨text, rfl, h⟩

/-- A guarded computation runs only for a node that is not under way, and takes the node off the
list again. -/
theorem Returns.guarded {id : NodeId} {make : Guarded String} {P : String → Prop}
    (hbusy : id ∈ busy → P "") (hidle : id ∉ busy → Returns (id :: busy) make P) :
    Returns busy (guarded id make) P := by
  by_cases h : id ∈ busy
  · refine ⟨"", ?_, hbusy h⟩
    simp only [Resolver.guarded, StateT.run_bind, StateT.run_get, pure_bind, h, if_true]
    rfl
  · obtain ⟨text, hrun, htext⟩ := hidle h
    refine ⟨text, ?_, htext⟩
    simp only [Resolver.guarded, StateT.run_bind, StateT.run_get, StateT.run_modify, pure_bind, h,
      if_false, hrun]
    -- Since `make` left the list as it was, the node to take off is in front.
    change (text, (id :: busy).erase id) = (text, busy)
    rw [List.erase_cons_head]

/-- A script runs by the rules if its questions are answered by them. -/
theorem Returns.run (h : ∀ q, Returns busy (answer q) (r.Answers busy q))
    (script : Script String) : Returns busy (script.run answer) (r.Runs busy script) := by
  induction script with
  | done text => exact .pure .done
  | ask q next ih =>
    obtain ⟨reply, hreply, hanswers⟩ := h q
    obtain ⟨text, hnext, hruns⟩ := ih reply
    refine ⟨text, ?_, .ask hanswers hruns⟩
    rw [Script.run, StateT.run_bind, hreply]
    exact hnext

/-- How many nodes of the graph are not under way. -/
def idle (r : Resolver) (busy : List NodeId) : Nat :=
  (r.graph.ids.filter (· ∉ busy)).length

/-- A node that comes under way is idle no longer. -/
theorem idle_cons_lt {id : NodeId} (hmem : id ∈ r.graph.ids) (hbusy : id ∉ busy) :
    r.idle (id :: busy) < r.idle busy := by
  unfold idle
  have hsplit : r.graph.ids.filter (· ∉ id :: busy) =
      (r.graph.ids.filter (· ∉ busy)).filter (· ≠ id) := by
    rw [List.filter_filter]
    simp
  rw [hsplit]
  refine List.length_filter_lt_length_iff_exists.2 ⟨id, ?_, by simp⟩
  simp [hmem, hbusy]

section Nested

variable (hanswer : ∀ id ∈ r.graph.ids, id ∉ busy → ∀ q,
  Returns (id :: busy) (answer q) (r.Answers (id :: busy) q))

include hanswer

/-- Commands are written by the rules. -/
theorem returns_synthesizeWith (id : NodeId) :
    Returns busy (r.synthesizeWith answer id) (r.Answers busy (.synthesize id)) := by
  unfold synthesizeWith
  split
  next hnode => exact .pure (.synthesize_absent hnode)
  next node hnode =>
    refine .guarded (.synthesize_busy hnode) fun hbusy => ?_
    split
    next hscript => exact .pure (.synthesize_silent hnode hbusy hscript)
    next script hscript =>
      obtain ⟨text, hrun, hruns⟩ := Returns.run
        (hanswer id (Graph.mem_ids_of_node? hnode) hbusy) (script (r.view node))
      exact ⟨text, hrun, .synthesize_script hnode hbusy hscript hruns⟩

/-- Values are handed out by the rules. -/
theorem returns_outputWith (id : NodeId) (pin : String) :
    Returns busy (r.outputWith answer id pin) (r.Answers busy (.output id pin)) := by
  unfold outputWith
  split
  next hnode => exact .pure (.output_absent hnode)
  next node hnode =>
    have hid : node.id = id := (Graph.node?_eq_some hnode).2
    split
    next hpin =>
      obtain ⟨text, hrun, hcommand⟩ := returns_synthesizeWith hanswer id
      exact ⟨text, hrun, .output_command hnode hpin hcommand⟩
    next hpin =>
      unfold produceWith
      rw [hid]
      -- Where the node is not under way, its script or a property gives the value.
      refine .guarded (.output_busy hnode hpin) fun hbusy => ?_
      split
      next hscript => exact .pure (.output_property hnode hpin hbusy hscript)
      next script hscript =>
        obtain ⟨text, hrun, hruns⟩ := Returns.run
          (hanswer id (Graph.mem_ids_of_node? hnode) hbusy) (script (r.view node) pin)
        exact ⟨text, hrun, .output_script hnode hpin hbusy hscript hruns⟩

/-- Every question is answered by the rules if those of nested scripts are. -/
theorem returns_answerWith (q : Query) :
    Returns busy (r.answerWith answer q) (r.Answers busy q) := by
  cases q with
  | resolve id pin =>
    change Returns busy (r.resolveWith answer id pin) _
    unfold resolveWith
    split
    next hnode => exact .pure (.resolve_absent hnode)
    next node hnode =>
      split
      next c hc =>
        obtain ⟨text, hrun, hsource⟩ := returns_outputWith hanswer c.source c.sourcePin
        exact ⟨text, hrun, .resolve_connected hnode hc hsource⟩
      next hc => exact .pure (.resolve_property hnode hc)
  | output id pin => exact returns_outputWith hanswer id pin
  | synthesize id => exact returns_synthesizeWith hanswer id

end Nested

/-- With a bound above the number of idle nodes, every question is answered by the rules, and the
nodes under way are the same afterwards. -/
theorem returns_answer {bound : Nat} (hbound : r.idle busy < bound) (q : Query) :
    Returns busy (r.answer bound q) (r.Answers busy q) := by
  induction bound generalizing busy q with
  | zero => cases hbound
  | succ bound ih =>
    -- A nested script runs while one more node is under way, so one less is idle.
    refine returns_answerWith (fun id hmem hbusy q => ih ?_ q) q
    exact Nat.lt_of_lt_of_le (idle_cons_lt hmem hbusy) (Nat.lt_succ_iff.1 hbound)

/-- No more nodes are idle than there are. -/
theorem idle_le_size (r : Resolver) (busy : List NodeId) : r.idle busy ≤ r.graph.size := by
  rw [← Graph.length_ids]
  exact List.length_filter_le _ _

/-- The rules give the answers that the resolver gives. -/
theorem answers_iff (r : Resolver) (q : Query) (text : String) :
    r.Answers [] q text ↔ r.reply q = text := by
  obtain ⟨reply, hrun, hanswers⟩ := @returns_answer r [] _
    (Nat.lt_succ_of_le (r.idle_le_size [])) q
  have hreply : r.reply q = reply := congrArg Prod.fst hrun
  rw [hreply]
  exact ⟨fun h => hanswers.unique h, fun h => h ▸ hanswers⟩

end Resolver

end CommandGraph
