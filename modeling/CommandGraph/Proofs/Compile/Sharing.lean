import CommandGraph.Compile.Walk
import CommandGraph.Proofs.Compile.Nesting

/-!
# One resolver for many questions

Every answer leaves the nodes under way as it found them (`Resolver.gives_ask`). So questions that
are asked of one resolver, one after another, get the answers that each gets from a resolver of its
own. Compilation is such a sequence of questions: `Resolver.walkShared` follows control like
`Resolver.walk` does, but hands one resolver on through all that it asks, and walks the body of a
loop again for every round. It gives the same events (`Resolver.gives_walkShared`).
-/

namespace CommandGraph

namespace Resolver

variable {α β : Type} {busy : List NodeId}

/-! ## Computations that leave no trace -/

/-- A computation gives a result and leaves the nodes under way as they were. -/
def Gives (busy : List NodeId) (compute : Guarded α) (a : α) : Prop :=
  compute.run busy = (a, busy)

theorem Gives.pure (a : α) : Gives busy (Pure.pure a) a :=
  rfl

/-- Computations that leave no trace may follow one another. -/
theorem Gives.bind {compute : Guarded α} {next : α → Guarded β} {a : α} {b : β}
    (h : Gives busy compute a) (hnext : Gives busy (next a) b) :
    Gives busy (compute >>= next) b := by
  unfold Gives at *
  rw [StateT.run_bind, h]
  exact hnext

theorem Gives.map {compute : Guarded α} {a : α} (f : α → β) (h : Gives busy compute a) :
    Gives busy (f <$> compute) (f a) := by
  unfold Gives at *
  rw [StateT.run_map, h]
  rfl

/-- A computation for each of some values leaves no trace if none of them does. -/
theorem Gives.mapM {compute : α → Guarded β} {f : α → β} {xs : List α}
    (h : ∀ x ∈ xs, Gives busy (compute x) (f x)) : Gives busy (xs.mapM compute) (xs.map f) := by
  induction xs with
  | nil => exact .pure []
  | cons x xs ih =>
    obtain ⟨hx, hxs⟩ := List.forall_mem_cons.1 h
    rw [List.mapM_cons]
    exact hx.bind ((ih hxs).bind (.pure _))

/-- A question is answered by the rules, and leaves no trace. -/
theorem exists_gives_ask (r : Resolver) (busy : List NodeId) (q : Query) :
    ∃ text, Gives busy (r.ask q) text ∧ r.Answers busy q text :=
  returns_answer (Nat.lt_succ_of_le (r.idle_le_size busy)) q

/-- With no node under way, a question gives the reply to it. -/
theorem gives_ask (r : Resolver) (q : Query) : Gives [] (r.ask q) (r.reply q) := by
  obtain ⟨text, hgives, -⟩ := r.exists_gives_ask [] q
  have hreply : r.reply q = text := congrArg Prod.fst hgives
  rwa [hreply]

/-! ## Compilation with one resolver -/

/-- How many rounds a loop makes. -/
def iterationsShared (r : Resolver) (node : Node) : Guarded Nat := do
  let count := Text.trim (← r.ask (.resolve node.id "Count"))
  let requested := if count.isEmpty then node.propertyNumber? "iterations" else Double.parse? count
  return clampIterations (requested.getD .one)

/-- The ways on from a node. Only a condition asks something, and only if its first branch is
connected. -/
def branchesShared (r : Resolver) (node : Node) : Guarded (List Branch) :=
  match node.role, r.wiring.outgoing? node.id "True" with
  | .condition, some c => do
    let condition ← r.ask (.resolve node.id "Condition")
    let holds : Event := .thenBranch node.id (node.propertyText "conditionType") condition
    let fails := (r.wiring.outgoing? node.id "False").map fun c =>
      { lead := [.elseBranch node.id], target := c.target }
    return { lead := [holds], target := c.target } :: fails.toList
  | _, _ => return r.branches node

/-- What a node writes by itself. -/
def ownShared (r : Resolver) (node : Node) : Guarded (List Event) :=
  match node.role with
  | .plain => do
    let text ← r.ask (.synthesize node.id)
    return if text.isEmpty then [] else [.command node.id text]
  | _ => return []

/-- The rounds of a loop, where `body` is run again for each of them. -/
def roundsShared (r : Resolver) (node : Node) (body : Guarded (List Event)) :
    Guarded (List Event) := do
  let total ← r.iterationsShared node
  let rounds ← (List.range total).mapM fun i => do
    return Event.round node.id (i + 1) total :: (← body)
  return rounds.flatten

/-- Takes several ways on, one after another. -/
def walkBranchesShared (walk : NodeId → List NodeId → Guarded (List Event × List NodeId)) :
    List Branch → List NodeId → Guarded (List Event × List NodeId)
  | [], met => return ([], met)
  | branch :: rest, met => do
    let first ← walk branch.target met
    let others ← walkBranchesShared walk rest first.2
    return (branch.lead ++ first.1 ++ others.1, others.2)

/-- Follows control from a node for at most `bound` nodes in a row. -/
def walkShared (r : Resolver) : Nat → NodeId → List NodeId → Guarded (List Event × List NodeId)
  | 0, _, met => return ([], met)
  | bound + 1, id, met =>
    match r.graph.node? id with
    | none => return ([], met)
    | some node =>
      if node.role = .loop then do
        let rounds ← r.roundsShared node <|
          match r.body? node with
          | none => pure []
          | some start => Prod.fst <$> r.walkShared bound start []
        let after ← walkBranchesShared (r.walkShared bound) (← r.branchesShared node) met
        return (.enter id :: rounds ++ after.1, after.2)
      else if id ∈ met then return ([], met)
      else do
        let own ← r.ownShared node
        let after ← walkBranchesShared (r.walkShared bound) (← r.branchesShared node) (id :: met)
        return (.enter id :: own ++ after.1, after.2)

variable (r : Resolver) (node : Node)

/-- The number of rounds is the same. -/
theorem gives_iterationsShared : Gives [] (r.iterationsShared node) (r.iterations node) :=
  (r.gives_ask _).bind (.pure _)

/-- The branches are the same, with what is written in front of them. -/
theorem gives_branchesShared : Gives [] (r.branchesShared node) (r.branches node) := by
  unfold branchesShared
  split
  next c hrole hc =>
    refine (r.gives_ask _).bind ?_
    simp only [branches, hrole, hc]
    exact .pure _
  next => exact .pure _

/-- What a node writes itself is the same. -/
theorem gives_ownShared : Gives [] (r.ownShared node) (r.own node) := by
  unfold ownShared own
  cases node.role with
  | plain => exact (r.gives_ask _).bind (.pure _)
  | _ => exact .pure _

/-- All rounds ask the same questions and get the same answers, so they all do the same. -/
theorem gives_roundsShared {body : Guarded (List Event)} {events : List Event}
    (h : Gives [] body events) : Gives [] (r.roundsShared node body) (r.rounds node events) := by
  refine (r.gives_iterationsShared node).bind ?_
  rw [rounds, List.flatMap_def]
  refine Gives.bind (Gives.mapM fun i _ => ?_) (.pure _)
  exact h.bind (.pure _)

/-- Branches are walked alike if nodes are. -/
theorem gives_walkBranchesShared
    {walkShared : NodeId → List NodeId → Guarded (List Event × List NodeId)}
    {walk : NodeId → List NodeId → List Event × List NodeId}
    (h : ∀ id met, Gives [] (walkShared id met) (walk id met)) (branches : List Branch)
    (met : List NodeId) :
    Gives [] (walkBranchesShared walkShared branches met) (walkBranches walk branches met) := by
  induction branches generalizing met with
  | nil => exact .pure _
  | cons branch rest ih => exact (h branch.target met).bind ((ih _).bind (.pure _))

/-- Following control with one resolver for all questions gives what happens with one resolver for
each. -/
theorem gives_walkShared (bound : Nat) (id : NodeId) (met : List NodeId) :
    Gives [] (r.walkShared bound id met) (r.walk bound id met) := by
  induction bound generalizing id met with
  | zero => exact .pure _
  | succ bound ih =>
    rw [walkShared, walk]
    cases r.graph.node? id with
    | none => exact .pure _
    | some node =>
      dsimp only
      have hafter := gives_walkBranchesShared ih (r.branches node)
      split
      · -- The body is walked again in every round, each time with nothing met before.
        refine (r.gives_roundsShared node ?_).bind
          ((r.gives_branchesShared node).bind ((hafter met).bind (.pure _)))
        cases r.body? node with
        | none => exact .pure _
        | some start => exact (ih start []).map Prod.fst
      · split
        · exact .pure _
        · exact (r.gives_ownShared node).bind
            ((r.gives_branchesShared node).bind ((hafter (id :: met)).bind (.pure _)))

end Resolver

namespace Compiler

/-- The lines that a graph compiles to, where one resolver answers all questions. -/
def compileLinesShared (compiler : Compiler) (graph : Graph) : Resolver.Guarded (List String) := do
  let r := compiler.resolver graph
  let parts ← r.entries.mapM fun id => r.walkShared graph.size id []
  return (parts.flatMap Prod.fst).filterMap Event.line?

/-- Compiling gives the same lines. -/
theorem gives_compileLinesShared (compiler : Compiler) (g : Graph) :
    Resolver.Gives [] (compiler.compileLinesShared g) (compiler.compileLines g) := by
  refine (Resolver.Gives.mapM fun id _ => Resolver.gives_walkShared _ g.size id []).bind ?_
  rw [List.flatMap_map]
  exact .pure _

end Compiler

/-- Resolution comes to an end and leaves no trace, in every graph, whatever nodes are under way and
however they feed each other. Every question has exactly one answer by the rules, which the resolver
gives, and the same nodes are under way afterwards. The questions nested in it are at most three for
each node and three more; whenever a value is made for one of them, it is that of a node of the
graph that was not under way, so never more values than nodes are being made. Hence questions asked
of one resolver, those of a compilation among them, are answered as by a resolver for each. -/
theorem Compiler.resolution_leaves_no_trace (compiler : Compiler) (g : Graph)
    (busy : List NodeId) :
    let r := compiler.resolver g
    (∀ q, ∃ text, (r.ask q).run busy = (text, busy) ∧
      ∀ other, r.Answers busy q other ↔ other = text) ∧
    (∀ q calls, List.IsChain r.Nests (⟨busy, q⟩ :: calls) →
      (⟨busy, q⟩ :: calls : List Call).length ≤ 3 * (g.size + 1)) ∧
    (∀ q call id script, Relation.ReflTransGen r.Nests ⟨busy, q⟩ call → r.Makes call id script →
      ∃ started, call.busy = started ++ busy ∧ (id :: started).Nodup ∧
        (∀ other ∈ id :: started, other ∈ g.ids ∧ other ∉ busy) ∧
        (id :: started).length ≤ g.size) ∧
    (∀ questions : List Query,
      (questions.mapM r.ask).run [] = (questions.map r.reply, [])) ∧
    (compiler.compileLinesShared g).run [] = (compiler.compileLines g, []) := by
  intro r
  refine ⟨fun q => ?_, fun q calls => Resolver.length_le_of_nests, ?_, fun questions => ?_,
    compiler.gives_compileLinesShared g⟩
  · obtain ⟨text, hgives, hanswers⟩ := r.exists_gives_ask busy q
    exact ⟨text, hgives, fun other => ⟨fun h => h.unique hanswers, fun h => h ▸ hanswers⟩⟩
  · intro q call id script hnests hmakes
    obtain ⟨started, hbusy, hnodup, hstarted⟩ := Resolver.exists_started hnests
    obtain ⟨hmem, hidle⟩ := hmakes.idle
    rw [hbusy, List.mem_append, not_or] at hidle
    -- All values being made, the new one included, are of different nodes of the graph.
    have hall := List.forall_mem_cons.2 ⟨⟨hmem, hidle.2⟩, hstarted⟩
    have hnodup := List.nodup_cons.2 ⟨hidle.1, hnodup⟩
    refine ⟨started, hbusy, hnodup, hall, ?_⟩
    rw [← Graph.length_ids]
    exact hnodup.length_le_of_subset fun other hother => (hall other hother).1
  · exact Resolver.Gives.mapM fun q _ => r.gives_ask q

/-- Two commands, each of which has the other one for its message. -/
def Session.messageCircle : List Edit :=
  [.add "say" {}, .add "say" {}, .connect ⟨0⟩ "Command" ⟨1⟩ "Message",
    .connect ⟨1⟩ "Command" ⟨0⟩ "Message"]

/-- For the command of one node that of the other is made, while the first is under way. -/
theorem Compiler.resolution_leaves_no_trace_messageCircle :
    let g := (Session.run Session.messageCircle).graph
    let r := Compiler.standard.resolver g
    Relation.ReflTransGen r.Nests ⟨[], .synthesize ⟨0⟩⟩ ⟨[⟨0⟩], .synthesize ⟨1⟩⟩ ∧
      (∃ script, r.Makes ⟨[⟨0⟩], .synthesize ⟨1⟩⟩ ⟨1⟩ script) ∧
      (∃ started : List NodeId, [⟨0⟩] = started ++ [] ∧ (⟨1⟩ :: started).length ≤ g.size) ∧
      (r.ask (.synthesize ⟨0⟩)).run [] = ("say say", []) := by
  intro g r
  have hsay (id : NodeId) (h : (g.node? id).map Node.tag = some "say") :
      ∃ node, g.node? id = some node ∧ node.tag = "say" :=
    Option.map_eq_some_iff.1 h
  obtain ⟨first, hfirst, htag⟩ := hsay ⟨0⟩ (by decide)
  obtain ⟨second, hsecond, htag'⟩ := hsay ⟨1⟩ (by decide)
  have hasks : r.Nests ⟨[], .synthesize ⟨0⟩⟩ ⟨[⟨0⟩], .resolve ⟨0⟩ "Message"⟩ := by
    refine .nested (.synthesize hfirst List.not_mem_nil) ?_
    rw [htag, ← (Graph.node?_eq_some hfirst).2]
    exact .here
  have hc : r.wiring.inbound? ⟨0⟩ "Message" = some ⟨⟨1⟩, "Command", ⟨0⟩, "Message", .string⟩ := by
    decide +kernel
  have hpin : (second.type?.bind (·.valueOutput)) = some "Command" := by
    rw [Node.type?, htag']
    decide
  have hnests : Relation.ReflTransGen r.Nests ⟨[], .synthesize ⟨0⟩⟩ ⟨[⟨0⟩], .synthesize ⟨1⟩⟩ :=
    .tail (.tail (.single hasks) (.connected hfirst hc)) (.command hsecond hpin)
  have hmakes : r.Makes ⟨[⟨0⟩], .synthesize ⟨1⟩⟩ ⟨1⟩ _ := .synthesize hsecond (by decide)
  obtain ⟨hask, -, hmade, -, -⟩ := resolution_leaves_no_trace Compiler.standard g []
  obtain ⟨started, hstarted, -, -, hlength⟩ := hmade _ _ _ _ hnests hmakes
  obtain ⟨text, hrun, -⟩ := hask (.synthesize ⟨0⟩)
  have htext : ((r.ask (.synthesize ⟨0⟩)).run []).1 = "say say" := by
    decide +kernel
  rw [hrun] at htext
  obtain rfl : text = "say say" := htext
  exact ⟨hnests, ⟨_, hmakes⟩, ⟨started, hstarted, hlength⟩, hrun⟩

end CommandGraph
