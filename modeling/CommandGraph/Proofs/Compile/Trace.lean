import CommandGraph.Proofs.Compile.Termination

/-!
# Walks without memory

A walk remembers the nodes that it has met, and stops at a node that it remembers. Without memory it
gives all that happens in the tree behind a node (`Resolver.Traces`). In a well-formed graph the two
agree, since no node behind the next one to be followed has been met (`Graph.Clear`). What holds of
compiled graphs is derived from the walks without memory, which have fewer cases and no state.
-/

namespace CommandGraph

open Relation

namespace Resolver

mutual

/-- What happens in the tree behind a node. -/
inductive Traces (r : Resolver) : NodeId → List Event → Prop
  /-- A node writes its command, and then its branches are followed. -/
  | node {id : NodeId} {node : Node} {after : List Event} (hnode : r.graph.node? id = some node)
      (hrole : node.role ≠ .loop) (hafter : TracesEach r (r.branches node) after) :
      Traces r id (.enter id :: r.own node ++ after)
  /-- A loop repeats its body, and then goes on. -/
  | loop {id : NodeId} {node : Node} {body after : List Event}
      (hnode : r.graph.node? id = some node) (hrole : node.role = .loop)
      (hbody : TracesEach r (r.bodyBranches node) body)
      (hafter : TracesEach r (r.branches node) after) :
      Traces r id (.enter id :: r.rounds node body ++ after)

/-- What happens in the trees behind several branches, one after another. -/
inductive TracesEach (r : Resolver) : List Branch → List Event → Prop
  /-- There are no more branches. -/
  | nil : TracesEach r [] []
  /-- The first branch is followed before the others. -/
  | cons {branch : Branch} {rest : List Branch} {first others : List Event}
      (hfirst : Traces r branch.target first) (hothers : TracesEach r rest others) :
      TracesEach r (branch :: rest) (branch.lead ++ first ++ others)

end

end Resolver

/-! ## Nothing behind the next node has been met -/

/-- No node behind a node, itself included, is among those met. -/
def Graph.Clear (g : Graph) (id : NodeId) (met : List NodeId) : Prop :=
  ∀ v, ReflTransGen g.Passes id v → v ∉ met

namespace Graph

variable {g : Graph} {id next : NodeId} {met : List NodeId}

theorem Clear.passes (h : g.Clear id met) (hp : g.Passes id next) : g.Clear next met :=
  fun v hv => h v (.head hp hv)

/-- Having met a node does not stand in the way behind it. -/
theorem Clear.passes_cons (h : g.Clear id met) (hwf : g.WellFormed) {entry : NodeId}
    (hentry : g.hasInboundExec entry = false) (hreach : ReflTransGen g.Passes entry id)
    (hp : g.Passes id next) : g.Clear next (id :: met) := by
  intro v hv hmem
  rcases List.mem_cons.1 hmem with rfl | hmem
  · exact not_transGen_self_of_root hwf.passes_leftUnique (hwf.not_passes_of_undriven hentry) hreach
      (.head' hp hv)
  · exact h.passes hp v hv hmem

end Graph

/-! ## Walks give the traces -/

namespace Compiler

variable (compiler : Compiler) {g : Graph} {id : NodeId} {node : Node}

/-- Control passes to the body of a loop. -/
theorem passes_of_mem_bodyBranches (hnode : g.node? id = some node) :
    ∀ branch ∈ (compiler.resolver g).bodyBranches node, g.Passes id branch.target := by
  intro branch hbranch
  unfold Resolver.bodyBranches at hbranch
  split at hbranch
  next hrole =>
    obtain ⟨start, hstart, rfl⟩ := List.mem_map.1 hbranch
    exact ⟨node, hnode, compiler.exists_followed_of_body? g hrole (Option.mem_toList.1 hstart)⟩
  next => exact absurd hbranch List.not_mem_nil

/-- Control passes along the branches of a node. -/
theorem passes_of_mem_branches (hnode : g.node? id = some node) :
    ∀ branch ∈ (compiler.resolver g).branches node, g.Passes id branch.target :=
  fun _ hbranch => ⟨node, hnode, compiler.exists_followed_of_mem_branches g hbranch⟩

end Compiler

namespace Resolver

variable {compiler : Compiler} {g : Graph} {entry : NodeId}

-- The second half of each statement says where the nodes met lie. It is what keeps the way of the
-- next branch clear.
mutual

/-- Where nothing has been met, a walk gives the trace without memory, and it meets nodes of the
tree behind its start only. -/
theorem Walks.traces (hwf : g.WellFormed) (hentry : g.hasInboundExec entry = false) {id : NodeId}
    {met met' : List NodeId} {events : List Event} :
    (compiler.resolver g).Walks id met events met' →
    ReflTransGen g.Passes entry id → id ∈ g.ids → g.Clear id met →
    (compiler.resolver g).Traces id events ∧ ∀ v ∈ met', v ∈ met ∨ ReflTransGen g.Passes id v
  | .absent hnode, _, hmem, _ => by
    obtain ⟨node, hsome⟩ := Graph.exists_node?_of_mem_ids hmem
    cases hsome.symm.trans hnode
  -- A node that is clear has not been met.
  | .known _ _ hmet, _, _, hclear => absurd hmet (hclear id .refl)
  | @Walks.node _ _ _ _ node _ hnode hrole hmet hafter, hreach, _, hclear => by
    have hpasses := compiler.passes_of_mem_branches hnode
    obtain ⟨htraces, hmeets⟩ := hafter.traces hwf hentry hreach hpasses
      ((hwf.nodup_targets node).sublist (compiler.targets_branches_sublist g node))
      fun branch hbranch => hclear.passes_cons hwf hentry hreach (hpasses branch hbranch)
    refine ⟨.node hnode hrole htraces, fun v hv => ?_⟩
    rcases hmeets v hv with hmem | ⟨branch, hbranch, hbelow⟩
    · rcases List.mem_cons.1 hmem with rfl | hmem
      · exact .inr .refl
      · exact .inl hmem
    · exact .inr (.head (hpasses branch hbranch) hbelow)
  | @Walks.loop _ _ _ _ node body _ hnode hrole hbody hafter, hreach, _, hclear => by
    have hpasses := compiler.passes_of_mem_branches hnode
    obtain ⟨htraces, hmeets⟩ := hafter.traces hwf hentry hreach hpasses
      ((hwf.nodup_targets node).sublist (compiler.targets_branches_sublist g node))
      fun branch hbranch => hclear.passes (hpasses branch hbranch)
    -- A round starts with nothing met, so it needs nothing to be clear.
    have hround :
        (compiler.resolver g).TracesEach ((compiler.resolver g).bodyBranches node) body := by
      rw [bodyBranches, hrole]
      exact hbody.traces hwf hentry hreach fun start hstart =>
        ⟨node, hnode, compiler.exists_followed_of_body? g hrole hstart⟩
    refine ⟨.loop hnode hrole hround htraces, fun v hv => ?_⟩
    rcases hmeets v hv with hmem | ⟨branch, hbranch, hbelow⟩
    · exact .inl hmem
    · exact .inr (.head (hpasses branch hbranch) hbelow)

/-- A round gives the trace of the body. -/
theorem WalksBody.traces (hwf : g.WellFormed) (hentry : g.hasInboundExec entry = false)
    {id : NodeId} {start : Option NodeId} {body : List Event} :
    (compiler.resolver g).WalksBody start body → ReflTransGen g.Passes entry id →
    (∀ next, start = some next → g.Passes id next) →
    (compiler.resolver g).TracesEach (start.toList.map ({ target := · })) body
  | .none, _, _ => .nil
  | @WalksBody.some _ _ _ body hbody, hreach, hpasses => by
    have hp := hpasses _ rfl
    -- A round starts without memory, so its way is clear whatever was met before.
    obtain ⟨htraces, -⟩ := hbody.traces hwf hentry (hreach.tail hp) (hwf.mem_ids_of_passes hp)
      fun v _ => List.not_mem_nil
    simpa using @TracesEach.cons _ { target := _ } _ _ _ htraces .nil

/-- Branches to different nodes give their traces, one after another. -/
theorem WalksEach.traces (hwf : g.WellFormed) (hentry : g.hasInboundExec entry = false)
    {id : NodeId} {branches : List Branch} {met met' : List NodeId} {events : List Event} :
    (compiler.resolver g).WalksEach branches met events met' →
    ReflTransGen g.Passes entry id → (∀ branch ∈ branches, g.Passes id branch.target) →
    (branches.map (·.target)).Nodup → (∀ branch ∈ branches, g.Clear branch.target met) →
    (compiler.resolver g).TracesEach branches events ∧
      ∀ v ∈ met', v ∈ met ∨ ∃ branch ∈ branches, ReflTransGen g.Passes branch.target v
  | .nil, _, _, _, _ => ⟨.nil, fun v hv => .inl hv⟩
  | @WalksEach.cons _ branch rest _ met' _ _ _ hfirst hothers, hreach, hpasses, hnodup, hclear => by
    obtain ⟨hp, hpasses⟩ := List.forall_mem_cons.1 hpasses
    obtain ⟨hclearFirst, hclear⟩ := List.forall_mem_cons.1 hclear
    obtain ⟨hne, hnodup⟩ := List.nodup_cons.1 hnodup
    obtain ⟨htraces, hmeets⟩ := hfirst.traces hwf hentry (hreach.tail hp) (hwf.mem_ids_of_passes hp)
      hclearFirst
    -- What the first branch has met lies in its own tree, apart from the trees of the others.
    have hapart : ∀ other ∈ rest, g.Clear other.target met' := by
      intro other hother v hv hmet
      rcases hmeets v hmet with hmet | hbelow
      · exact hclear other hother v hv hmet
      · refine hwf.not_reaches_both hentry hreach hp (hpasses other hother) ?_ hbelow hv
        exact fun heq => hne (List.mem_map.2 ⟨other, hother, heq.symm⟩)
    obtain ⟨hrest, hmeetsRest⟩ := hothers.traces hwf hentry hreach hpasses hnodup hapart
    refine ⟨.cons htraces hrest, fun v hv => ?_⟩
    rcases hmeetsRest v hv with hmet | ⟨other, hother, hbelow⟩
    · exact (hmeets v hmet).imp_right fun hbelow => ⟨branch, List.mem_cons_self, hbelow⟩
    · exact .inr ⟨other, List.mem_cons_of_mem branch hother, hbelow⟩

end

end Resolver

/-- In a well-formed graph the walk from an entry gives the trace without memory. -/
theorem Compiler.traces_of_mem_entries (compiler : Compiler) {g : Graph} (hwf : g.WellFormed)
    {entry : NodeId} (hentry : entry ∈ g.entries) : (compiler.resolver g).Traces entry
      ((compiler.resolver g).walk g.size entry []).1 := by
  obtain ⟨hmem, hundriven⟩ := Graph.undriven_of_mem_entries hentry
  have hwalks := compiler.walks_of_mem_entries hwf ((compiler.resolver_entries g).symm ▸ hentry)
  exact (hwalks.traces hwf hundriven .refl hmem fun v _ => List.not_mem_nil).1

end CommandGraph
