import CommandGraph.Proofs.Compile.Control
import CommandGraph.Proofs.Compile.Resolution

/-!
# Compilation comes to an end

The rules by which control is followed, without any bound on how far (`Resolver.Walks`). A loop is
never stopped by the memory of the nodes met, and its body starts without memory, so nothing in the
rules by themselves keeps a walk from going round in a circle for ever. What does is the shape of
the graphs that sessions reach: on the way from an entry no node comes twice. Hence the bounded walk
with as many nodes in a row as the graph has follows the rules to their end, and as they leave no
choice they give its result and no other.
-/

namespace CommandGraph

/-- Where a relation gives every member of a list exactly one result, it relates the list to the
list of these results only. -/
theorem forall₂_iff_eq_map {α β : Type} {R : α → β → Prop} (hunique : Relator.RightUnique R)
    {f : α → β} {xs : List α} (h : ∀ a ∈ xs, R a (f a)) {ys : List β} :
    List.Forall₂ R xs ys ↔ ys = xs.map f := by
  have hmap : List.Forall₂ R xs (xs.map f) :=
    List.forall₂_map_right_iff.2 (List.forall₂_same.2 h)
  constructor
  · exact fun hys => List.right_unique_forall₂' hunique hys hmap
  · rintro rfl
    exact hmap

namespace Resolver

mutual

/-- The rules for following control from a node, given the nodes met before. They give what happens
and the nodes met after. -/
inductive Walks (r : Resolver) : NodeId → List NodeId → List Event → List NodeId → Prop
  /-- A node that is not there ends the walk. -/
  | absent {id : NodeId} {met : List NodeId} (hnode : r.graph.node? id = none) :
      Walks r id met [] met
  /-- A node that was met before ends the walk, unless it is a loop. -/
  | known {id : NodeId} {met : List NodeId} {node : Node} (hnode : r.graph.node? id = some node)
      (hrole : node.role ≠ .loop) (hmet : id ∈ met) : Walks r id met [] met
  /-- A node writes its command, and then its branches are followed. -/
  | node {id : NodeId} {met met' : List NodeId} {node : Node} {after : List Event}
      (hnode : r.graph.node? id = some node) (hrole : node.role ≠ .loop) (hmet : id ∉ met)
      (hafter : WalksEach r (r.branches node) (id :: met) after met') :
      Walks r id met (.enter id :: r.own node ++ after) met'
  /-- A loop repeats its body, which remembers nothing, and then goes on. -/
  | loop {id : NodeId} {met met' : List NodeId} {node : Node} {body after : List Event}
      (hnode : r.graph.node? id = some node) (hrole : node.role = .loop)
      (hbody : WalksBody r (r.body? node) body)
      (hafter : WalksEach r (r.branches node) met after met') :
      Walks r id met (.enter id :: r.rounds node body ++ after) met'

/-- The rules for one round of a loop. -/
inductive WalksBody (r : Resolver) : Option NodeId → List Event → Prop
  /-- Nothing is connected as the body. -/
  | none : WalksBody r none []
  /-- The body is followed. -/
  | some {start : NodeId} {met : List NodeId} {body : List Event}
      (hbody : Walks r start [] body met) : WalksBody r (some start) body

/-- The rules for following several branches, one after another. -/
inductive WalksEach (r : Resolver) : List Branch → List NodeId → List Event → List NodeId → Prop
  /-- There are no more branches. -/
  | nil {met : List NodeId} : WalksEach r [] met [] met
  /-- The first branch is followed before the others. -/
  | cons {branch : Branch} {rest : List Branch} {met met' met'' : List NodeId}
      {first others : List Event} (hfirst : Walks r branch.target met first met')
      (hothers : WalksEach r rest met' others met'') :
      WalksEach r (branch :: rest) met (branch.lead ++ first ++ others) met''

end

/-- The lines written when control is followed from an entry, with nothing met before. -/
def Starts (r : Resolver) (entry : NodeId) (lines : List String) : Prop :=
  ∃ events met, r.Walks entry [] events met ∧ lines = events.filterMap Event.line?

/-- The rules for the compilation of a graph: control is followed from every entry, in order. -/
def Compiles (r : Resolver) (lines : List String) : Prop :=
  ∃ parts, List.Forall₂ r.Starts r.entries parts ∧ lines = parts.flatten

/-- To follow control from one node is, among others, to follow it from another. -/
def Calls (r : Resolver) (id next : NodeId) : Prop :=
  ∃ node, r.graph.node? id = some node ∧
    (node.role = .loop ∧ r.body? node = some next ∨
      ∃ branch ∈ r.branches node, branch.target = next)

/-! ## The rules leave no choice -/

mutual

/-- There is one way to follow control from a node. -/
theorem Walks.unique {r : Resolver} {id : NodeId} {met metA metB : List NodeId}
    {a b : List Event} : r.Walks id met a metA → r.Walks id met b metB → a = b ∧ metA = metB
  | .absent _, h => by cases h <;> simp_all
  | .known _ _ _, h => by cases h <;> simp_all
  | .node hnode hrole hmet hafter, h => by
    cases h with
    | node hnode' _ _ hafter' =>
      obtain rfl := Option.some.inj (hnode.symm.trans hnode')
      obtain ⟨rfl, rfl⟩ := hafter.unique hafter'
      exact ⟨rfl, rfl⟩
    | _ => simp_all
  | .loop hnode hrole hbody hafter, h => by
    cases h with
    | loop hnode' _ hbody' hafter' =>
      obtain rfl := Option.some.inj (hnode.symm.trans hnode')
      obtain rfl := hbody.unique hbody'
      obtain ⟨rfl, rfl⟩ := hafter.unique hafter'
      exact ⟨rfl, rfl⟩
    | _ => simp_all

/-- There is one way to go through a round. -/
theorem WalksBody.unique {r : Resolver} {start : Option NodeId} {a b : List Event} :
    r.WalksBody start a → r.WalksBody start b → a = b
  | .none, h => by cases h; rfl
  | .some hbody, h => by
    cases h with
    | some hbody' => exact (hbody.unique hbody').1

/-- There is one way to follow several branches. -/
theorem WalksEach.unique {r : Resolver} {branches : List Branch} {met metA metB : List NodeId}
    {a b : List Event} :
    r.WalksEach branches met a metA → r.WalksEach branches met b metB → a = b ∧ metA = metB
  | .nil, h => by cases h; exact ⟨rfl, rfl⟩
  | .cons hfirst hothers, h => by
    cases h with
    | cons hfirst' hothers' =>
      obtain ⟨rfl, rfl⟩ := hfirst.unique hfirst'
      obtain ⟨rfl, rfl⟩ := hothers.unique hothers'
      exact ⟨rfl, rfl⟩

end

/-! ## The bounded walk follows the rules -/

variable {r : Resolver}

/-- Branches are followed by the rules if every single one is. -/
theorem walksEach_walkBranches {walk : NodeId → List NodeId → List Event × List NodeId}
    {branches : List Branch}
    (h : ∀ branch ∈ branches, ∀ met,
      r.Walks branch.target met (walk branch.target met).1 (walk branch.target met).2)
    (met : List NodeId) :
    r.WalksEach branches met (walkBranches walk branches met).1
      (walkBranches walk branches met).2 := by
  induction branches generalizing met with
  | nil => exact .nil
  | cons branch rest ih =>
    obtain ⟨hfirst, hrest⟩ := List.forall_mem_cons.1 h
    exact .cons (hfirst met) (ih hrest _)

/-- Where every way of nested calls is shorter than the bound, the bounded walk follows the
rules. -/
theorem walks_walk {bound : Nat} {id : NodeId}
    (hbound : ∀ path, List.IsChain r.Calls (id :: path) → path.length < bound)
    (met : List NodeId) : r.Walks id met (r.walk bound id met).1 (r.walk bound id met).2 := by
  induction bound generalizing id met with
  | zero => exact absurd (hbound [] (.singleton id)) (Nat.lt_irrefl 0)
  | succ bound ih =>
    -- A way of calls from the next node is one shorter than the way through this node.
    have hcall : ∀ next, r.Calls id next → ∀ met,
        r.Walks next met (r.walk bound next met).1 (r.walk bound next met).2 := by
      intro next hnext met
      refine ih (fun path hpath => ?_) met
      exact Nat.lt_of_succ_lt_succ (hbound (next :: path) (.cons_cons hnext hpath))
    rw [walk]
    split
    next hnode => exact .absent hnode
    next node hnode =>
      have hbranches : ∀ branch ∈ r.branches node, ∀ met, r.Walks branch.target met
          (r.walk bound branch.target met).1 (r.walk bound branch.target met).2 :=
        fun branch hbranch => hcall branch.target ⟨node, hnode, .inr ⟨branch, hbranch, rfl⟩⟩
      split
      next hrole =>
        refine .loop hnode hrole ?_ (walksEach_walkBranches hbranches met)
        split
        next hbody => rw [hbody]; exact .none
        next start hbody =>
          rw [hbody]
          exact .some (hcall start ⟨node, hnode, .inl ⟨hrole, hbody⟩⟩ [])
      next hrole =>
        split
        next hmet => exact .known hnode hrole hmet
        next hmet => exact .node hnode hrole hmet (walksEach_walkBranches hbranches (id :: met))

end Resolver

namespace Compiler

variable (compiler : Compiler)

/-- Nested calls pass control on. -/
theorem passes_of_calls {g : Graph} {id next : NodeId} (h : (compiler.resolver g).Calls id next) :
    g.Passes id next := by
  obtain ⟨node, hnode, ⟨hrole, hbody⟩ | ⟨branch, hbranch, rfl⟩⟩ := h
  · exact ⟨node, hnode, compiler.exists_followed_of_body? g hrole hbody⟩
  · exact ⟨node, hnode, compiler.exists_followed_of_mem_branches g hbranch⟩

/-- In a well-formed graph no node comes twice among the nested calls from an entry. -/
theorem nodup_of_isChain_calls {g : Graph} (h : g.WellFormed) {entry : NodeId}
    (hentry : entry ∈ (compiler.resolver g).entries) {path : List NodeId}
    (hpath : List.IsChain (compiler.resolver g).Calls (entry :: path)) :
    (entry :: path).Nodup ∧ (entry :: path).length ≤ g.size := by
  rw [resolver_entries] at hentry
  obtain ⟨hmem, hundriven⟩ := Graph.undriven_of_mem_entries hentry
  exact h.nodup_of_isChain hmem hundriven (hpath.imp fun {a b} hab => compiler.passes_of_calls hab)

/-- In a well-formed graph the walk from an entry follows the rules. -/
theorem walks_of_mem_entries {g : Graph} (h : g.WellFormed) {entry : NodeId}
    (hentry : entry ∈ (compiler.resolver g).entries) :
    (compiler.resolver g).Walks entry [] ((compiler.resolver g).walk g.size entry []).1
      ((compiler.resolver g).walk g.size entry []).2 := by
  refine Resolver.walks_walk (fun path hpath => ?_) []
  exact (compiler.nodup_of_isChain_calls h hentry hpath).2

/-- The lines of a graph are those of the walks from its entries, one after another. -/
theorem compileLines_eq_flatten (g : Graph) : compiler.compileLines g =
    ((compiler.resolver g).entries.map fun entry =>
      ((compiler.resolver g).walk g.size entry []).1.filterMap Event.line?).flatten := by
  rw [compileLines, Resolver.events, List.filterMap_flatMap, List.flatMap_def]
  rfl

end Compiler

/-- Compilation comes to an end on every graph that a session reaches, whatever the scripts. Among
the nested calls from an entry no node comes twice, so there are never more of them than nodes;
every question has the answer that the rules for answers give; and the lines are those that the
rules for following control give. -/
theorem Session.compilation_terminates (compiler : Compiler) (edits : List Edit)
    (hplaced : (run edits).placed < UInt32.size) :
    let g := (run edits).graph
    let r := compiler.resolver g
    (∀ entry ∈ r.entries, ∀ path, List.IsChain r.Calls (entry :: path) →
      (entry :: path).Nodup ∧ (entry :: path).length ≤ g.size) ∧
    (∀ q text, r.Answers [] q text ↔ r.reply q = text) ∧
    (∀ lines, r.Compiles lines ↔ compiler.compileLines g = lines) := by
  intro g r
  have hwf : g.WellFormed := wellFormed_run hplaced
  refine ⟨?_, r.answers_iff, fun lines => ?_⟩
  · intro entry hentry path hpath
    exact compiler.nodup_of_isChain_calls hwf hentry hpath
  · have hunique : Relator.RightUnique r.Starts := by
      rintro entry _ _ ⟨a, _, ha, rfl⟩ ⟨b, _, hb, rfl⟩
      rw [(ha.unique hb).1]
    have hstarts : ∀ entry ∈ r.entries,
        r.Starts entry ((r.walk g.size entry []).1.filterMap Event.line?) :=
      fun entry hentry => ⟨_, _, compiler.walks_of_mem_entries hwf hentry, rfl⟩
    rw [Resolver.Compiles, compiler.compileLines_eq_flatten g]
    simp only [forall₂_iff_eq_map hunique hstarts, exists_eq_left]
    exact eq_comm

/-- A loop with a body, and behind it a sequence whose branch leads back to the sequence. The last
connection takes the place of the one from the loop, and cuts the circle off. -/
def Session.circleCutOff : List Edit :=
  [.add "chat_command" {}, .add "loop" {}, .add "say" {}, .add "sequence" {}, .add "say" {},
    .connect ⟨0⟩ "Exec" ⟨1⟩ "Exec", .connect ⟨1⟩ "Loop Body" ⟨2⟩ "Exec",
    .connect ⟨1⟩ "Completed" ⟨3⟩ "Exec", .connect ⟨3⟩ "Then 0" ⟨4⟩ "Exec",
    .connect ⟨4⟩ "Exec" ⟨3⟩ "Exec"]

/-- Compilation of a graph with a circle in it comes to an end. -/
theorem Session.compilation_terminates_circleCutOff :
    let g := (run circleCutOff).graph
    let r := Compiler.standard.resolver g
    (run circleCutOff).placed < UInt32.size ∧ g.connections.length = 4 ∧ ⟨0⟩ ∈ r.entries ∧
      (∀ path, List.IsChain r.Calls (⟨0⟩ :: path) →
        (⟨0⟩ :: path).Nodup ∧ (⟨0⟩ :: path).length ≤ 5) ∧
      ∀ lines, r.Compiles lines ↔ Compiler.standard.compileLines g = lines := by
  have hplaced : (run circleCutOff).placed < UInt32.size := by decide
  have hentry : ⟨0⟩ ∈ (Compiler.standard.resolver (run circleCutOff).graph).entries := by decide
  obtain ⟨hpaths, -, hlines⟩ := compilation_terminates Compiler.standard circleCutOff hplaced
  exact ⟨hplaced, by decide, hentry, hpaths ⟨0⟩ hentry, hlines⟩

end CommandGraph
