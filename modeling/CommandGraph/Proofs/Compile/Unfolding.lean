import CommandGraph.Proofs.Compile.Trace

/-!
# The memory of a walk is never needed

A walk remembers the nodes that it has met, and stops at a node that it remembers. Without memory
the lines of a node are those of the tree behind it, unfolded: what the node writes by itself, and
the trees behind its output pins (`Resolver.Unfolds`). In the graphs that sessions reach the two
agree, because there a walk gives the trace without memory (`Resolver.Traces`).
-/

namespace CommandGraph

namespace Resolver

mutual

/-- The lines of the tree behind a node. -/
inductive Unfolds (r : Resolver) : NodeId → List String → Prop
  /-- A plain node writes its command, if that is not empty, and goes on behind its first connection
  that carries control. -/
  | plain {id : NodeId} {node : Node} {after : List String}
      (hnode : r.graph.node? id = some node)
      (htag : node.tag ≠ "loop" ∧ node.tag ≠ "if_condition" ∧ node.tag ≠ "sequence")
      (hafter : UnfoldsBehind r [] (r.graph.nextExec? id) after) :
      Unfolds r id ((if r.synthesize id = "" then [] else [r.synthesize id]) ++ after)
  /-- A sequence goes on behind its pins, in the order in which the type declares them. -/
  | sequence {id : NodeId} {node : Node} {zero one two : List String}
      (hnode : r.graph.node? id = some node) (htag : node.tag = "sequence")
      (hzero : UnfoldsBehind r [] (r.graph.outgoing? id "Then 0") zero)
      (hone : UnfoldsBehind r [] (r.graph.outgoing? id "Then 1") one)
      (htwo : UnfoldsBehind r [] (r.graph.outgoing? id "Then 2") two) :
      Unfolds r id (zero ++ one ++ two)
  /-- A condition writes both of its branches that are connected, with a comment in front. -/
  | condition {id : NodeId} {node : Node} {holds fails : List String}
      (hnode : r.graph.node? id = some node) (htag : node.tag = "if_condition")
      (hholds : UnfoldsBehind r
        ["# If " ++ node.propertyText "conditionType" ++ " " ++ r.resolve id "Condition" ++
          " THEN:"]
        (r.graph.outgoing? id "True") holds)
      (hfails : UnfoldsBehind r ["# Else / False:"] (r.graph.outgoing? id "False") fails) :
      Unfolds r id (holds ++ fails)
  /-- A loop writes its body once for every round, with a marker in front, and then goes on. -/
  | loop {id : NodeId} {node : Node} {total : Nat} {body after : List String}
      (hnode : r.graph.node? id = some node) (htag : node.tag = "loop")
      (htotal : r.iterations node = total)
      (hbody : UnfoldsBehind r [] (r.graph.outgoing? id "Loop Body") body)
      (hafter : UnfoldsBehind r [] (r.graph.outgoing? id "Completed") after) :
      Unfolds r id (((List.range total).flatMap fun i =>
        s!"# Loop Iteration {i + 1}/{total}" :: body) ++ after)

/-- The lines of the tree behind a connection, with some in front. -/
inductive UnfoldsBehind (r : Resolver) : List String → Option Connection → List String → Prop
  /-- Nothing is connected. -/
  | unwired {lead : List String} : UnfoldsBehind r lead none []
  /-- The tree behind the connection. -/
  | wired {lead lines : List String} {c : Connection} (hlines : Unfolds r c.target lines) :
      UnfoldsBehind r lead (some c) (lead ++ lines)

end

mutual

/-- A tree has one unfolding. -/
theorem Unfolds.unique {r : Resolver} {id : NodeId} {a b : List String} :
    r.Unfolds id a → r.Unfolds id b → a = b
  | .plain hnode htag hafter, h => by
    cases h with
    -- The tag decides which rule it is.
    | plain _ _ hafter' => rw [hafter.unique hafter']
    | _ => simp_all
  | .sequence hnode htag hzero hone htwo, h => by
    cases h with
    | sequence _ _ hzero' hone' htwo' =>
      rw [hzero.unique hzero', hone.unique hone', htwo.unique htwo']
    | _ => simp_all
  | .condition hnode htag hholds hfails, h => by
    cases h with
    | condition hnode' _ hholds' hfails' =>
      obtain rfl := Option.some.inj (hnode.symm.trans hnode')
      rw [hholds.unique hholds', hfails.unique hfails']
    | _ => simp_all
  | .loop hnode htag htotal hbody hafter, h => by
    cases h with
    | loop hnode' _ htotal' hbody' hafter' =>
      obtain rfl := Option.some.inj (hnode.symm.trans hnode')
      obtain rfl := htotal.symm.trans htotal'
      rw [hbody.unique hbody', hafter.unique hafter']
    | _ => simp_all

/-- What lies behind a connection has one unfolding. -/
theorem UnfoldsBehind.unique {r : Resolver} {lead a b : List String} {c : Option Connection} :
    r.UnfoldsBehind lead c a → r.UnfoldsBehind lead c b → a = b
  | .unwired, h => by cases h; rfl
  | .wired hlines, h => by
    cases h with
    | wired hlines' => rw [hlines.unique hlines']

end

/-! ## Unfolding the ways on from a node -/

/-- The lines of the trees behind several branches, one after another. -/
def UnfoldsEach (r : Resolver) : List Branch → List String → Prop
  | [], lines => lines = []
  | branch :: rest, lines => ∃ first others, r.Unfolds branch.target first ∧
      UnfoldsEach r rest others ∧ lines = branch.lead.filterMap Event.line? ++ first ++ others

variable {r : Resolver} {lines : List String}

/-- The branches of two lists are unfolded one list after the other. -/
theorem UnfoldsEach.append {branches more : List Branch}
    (h : r.UnfoldsEach (branches ++ more) lines) :
    ∃ first others, r.UnfoldsEach branches first ∧ r.UnfoldsEach more others ∧
      lines = first ++ others := by
  induction branches generalizing lines with
  | nil => exact ⟨[], lines, rfl, h, rfl⟩
  | cons branch rest ih =>
    obtain ⟨below, others, hbelow, hothers, rfl⟩ := h
    obtain ⟨first, others, hfirst, hmore, rfl⟩ := ih hothers
    exact ⟨_, others, ⟨below, first, hbelow, hfirst, rfl⟩, hmore, by simp⟩

/-- The way on behind a connection unfolds to what is behind the connection. -/
theorem UnfoldsEach.behind {lead : List Event} {c : Option Connection}
    (h : r.UnfoldsEach (Branch.behind lead c) lines) :
    r.UnfoldsBehind (lead.filterMap Event.line?) c lines := by
  cases c with
  | none =>
    obtain rfl : lines = [] := h
    exact .unwired
  | some c =>
    obtain ⟨first, others, hfirst, rfl, rfl⟩ := h
    rw [List.append_nil]
    exact .wired hfirst

end Resolver

/-- A node without a role of its own is neither loop nor condition nor sequence. -/
theorem Node.tag_of_role_plain {node : Node} (h : node.role = .plain) :
    node.tag ≠ "loop" ∧ node.tag ≠ "if_condition" ∧ node.tag ≠ "sequence" := by
  unfold role at h
  split at h <;> simp_all

/-- A node that chooses between branches is of the condition type. -/
theorem Node.tag_of_role_condition {node : Node} (h : node.role = .condition) :
    node.tag = "if_condition" := by
  unfold role at h
  split at h <;> simp_all

/-- A node that repeats its body is of the loop type. -/
theorem Node.tag_of_role_loop {node : Node} (h : node.role = .loop) : node.tag = "loop" := by
  unfold role at h
  split at h <;> simp_all

namespace Compiler

variable (compiler : Compiler) {g : Graph} {id : NodeId} {node : Node} {lines : List String}

/-- A node that is no loop unfolds to what it writes by itself and what its ways on unfold to. -/
theorem unfolds_node (hnode : g.node? id = some node) (hrole : node.role ≠ .loop)
    (h : (compiler.resolver g).UnfoldsEach ((compiler.resolver g).branches node) lines) :
    (compiler.resolver g).Unfolds id
      (((compiler.resolver g).own node).filterMap Event.line? ++ lines) := by
  have hid : node.id = id := (Graph.node?_eq_some hnode).2
  cases hcase : node.role with
  | loop => exact absurd hcase hrole
  | condition =>
    rw [branches_condition compiler g hcase, hid] at h
    obtain ⟨holds, fails, hholds, hfails, rfl⟩ := h.append
    have hown : (compiler.resolver g).own node = [] := by simp [Resolver.own, hcase]
    rw [hown, List.filterMap_nil, List.nil_append]
    exact .condition hnode (Node.tag_of_role_condition hcase) hholds.behind hfails.behind
  | sequence =>
    rw [branches_sequence compiler g hcase, hid, List.flatMap_cons, List.flatMap_cons,
      List.flatMap_singleton] at h
    -- Three branches one after the other, of which some may be empty.
    obtain ⟨zero, rest, hzero, hrest, rfl⟩ := h.append
    obtain ⟨one, two, hone, htwo, rfl⟩ := hrest.append
    have hown : (compiler.resolver g).own node = [] := by simp [Resolver.own, hcase]
    rw [hown, List.filterMap_nil, List.nil_append, ← List.append_assoc]
    exact .sequence hnode (Node.tag_of_role_sequence hcase) hzero.behind hone.behind htwo.behind
  | plain =>
    rw [branches_plain compiler g hcase, hid] at h
    -- A command is written unless it is empty.
    have hown : ((compiler.resolver g).own node).filterMap Event.line? =
        if (compiler.resolver g).synthesize id = "" then []
        else [(compiler.resolver g).synthesize id] := by
      simp only [Resolver.own, hcase, hid, String.isEmpty_iff]
      split <;> rfl
    rw [hown]
    exact .plain hnode (Node.tag_of_role_plain hcase) h.behind

/-- A loop unfolds to its rounds and what its way on unfolds to. -/
theorem unfolds_loop (hnode : g.node? id = some node) (hrole : node.role = .loop)
    {body : List Event}
    (hbody : (compiler.resolver g).UnfoldsBehind [] (g.outgoing? id "Loop Body")
      (body.filterMap Event.line?))
    (h : (compiler.resolver g).UnfoldsEach ((compiler.resolver g).branches node) lines) :
    (compiler.resolver g).Unfolds id
      (((compiler.resolver g).rounds node body).filterMap Event.line? ++ lines) := by
  rw [branches_loop compiler g hrole, (Graph.node?_eq_some hnode).2] at h
  rw [Resolver.rounds, List.filterMap_flatMap]
  exact .loop hnode (Node.tag_of_role_loop hrole) rfl hbody h.behind

end Compiler

/-! ## Traces write the unfolded lines -/

namespace Resolver

variable {compiler : Compiler} {g : Graph}

mutual

/-- The trace behind a node writes the lines of the unfolded tree. -/
theorem Traces.unfolds {id : NodeId} {events : List Event} :
    (compiler.resolver g).Traces id events →
    (compiler.resolver g).Unfolds id (events.filterMap Event.line?)
  | .node hnode hrole hafter => by
    rw [List.cons_append, List.filterMap_cons_none rfl, List.filterMap_append]
    exact compiler.unfolds_node hnode hrole hafter.unfolds
  | @Traces.loop _ _ node _ _ hnode hrole hbody hafter => by
    have hround := hbody.unfolds
    rw [compiler.bodyBranches_loop g hrole, (Graph.node?_eq_some hnode).2] at hround
    rw [List.cons_append, List.filterMap_cons_none rfl, List.filterMap_append]
    exact compiler.unfolds_loop hnode hrole hround.behind hafter.unfolds

/-- The traces behind several branches write the lines of their trees. -/
theorem TracesEach.unfolds {branches : List Branch} {events : List Event} :
    (compiler.resolver g).TracesEach branches events →
    (compiler.resolver g).UnfoldsEach branches (events.filterMap Event.line?)
  | .nil => rfl
  | .cons hfirst hothers => ⟨_, _, hfirst.unfolds, hothers.unfolds, by simp⟩

end

end Resolver

/-- In a well-formed graph the walk from an entry gives the lines of the unfolded tree. -/
theorem Compiler.unfolds_of_mem_entries (compiler : Compiler) {g : Graph} (hwf : g.WellFormed)
    {entry : NodeId} (hentry : entry ∈ g.entries) : (compiler.resolver g).Unfolds entry
      (((compiler.resolver g).walk g.size entry []).1.filterMap Event.line?) :=
  (compiler.traces_of_mem_entries hwf hentry).unfolds

/-- The memory of the nodes met changes no line of a graph that a session reaches: its lines are
those of the unfolded trees behind its entries, one after another. -/
theorem Session.compileLines_unfolding (compiler : Compiler) (edits : List Edit)
    (hplaced : (run edits).placed < UInt32.size) :
    let g := (run edits).graph
    ∀ lines, (∃ parts, List.Forall₂ (compiler.resolver g).Unfolds g.entries parts ∧
      lines = parts.flatten) ↔ compiler.compileLines g = lines := by
  intro g lines
  have hwf : g.WellFormed := wellFormed_run hplaced
  have hunique : Relator.RightUnique (compiler.resolver g).Unfolds :=
    fun _ _ _ ha hb => ha.unique hb
  rw [compiler.compileLines_eq_flatten g, compiler.resolver_entries g]
  simp only [forall₂_iff_eq_map hunique fun entry hentry =>
    compiler.unfolds_of_mem_entries hwf hentry, exists_eq_left]
  exact eq_comm

/-- A loop around a sequence, of whose branches the second is connected first and is a condition. -/
def Session.nestedControl : List Edit :=
  [.add "chat_command" {}, .add "loop" {}, .add "sequence" {}, .add "if_condition" {},
    .add "give" {}, .add "say" {}, .retype ⟨4⟩ "say",
    .set ⟨1⟩ "iterations" ⟨.ofNat 2, trivial⟩, .connect ⟨0⟩ "Exec" ⟨1⟩ "Exec",
    .connect ⟨1⟩ "Loop Body" ⟨2⟩ "Exec", .connect ⟨2⟩ "Then 1" ⟨3⟩ "Exec",
    .connect ⟨2⟩ "Then 0" ⟨4⟩ "Exec", .connect ⟨3⟩ "False" ⟨5⟩ "Exec"]

/-- The lines of nested control are those of the unfolded tree. -/
theorem Session.compileLines_unfolding_nestedControl :
    let g := (run nestedControl).graph
    (run nestedControl).placed < UInt32.size ∧
      ∃ parts, List.Forall₂ (Compiler.standard.resolver g).Unfolds g.entries parts ∧
        ["# In chat", "# Loop Iteration 1/2", "say", "# Else / False:", "say Hello World!",
          "# Loop Iteration 2/2", "say", "# Else / False:", "say Hello World!"] =
            parts.flatten := by
  have hplaced : (run nestedControl).placed < UInt32.size := by decide
  refine ⟨hplaced, (compileLines_unfolding Compiler.standard nestedControl hplaced _).2 ?_⟩
  decide +kernel

end CommandGraph
