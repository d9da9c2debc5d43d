import CommandGraph.Proofs.Compile.Trace
import Mathlib.Algebra.BigOperators.Group.List.Basic

/-!
# How often a node is visited

From an entry control follows paths of connections (`Graph.Leads`). In a well-formed graph there is
one path to a node at most, over all entries (`Graph.WellFormed.leads_unique`): going back from the
node, every connection is the only one that carries control to where it ends.

Of all that happens in a compilation, what happens at one node (`eventsAt`) is a number of visits
that are all alike (`Resolver.visit`), one for every choice of rounds of the loops whose bodies the
path goes through (`Resolver.Traces.exists_eventsAt`). At a node without such a path nothing
happens. So the compiled lines that a node writes are those of one visit, as often as it is visited
(`Compiler.exists_linesOf_eq`).
-/

namespace CommandGraph

open Relation

/-! ## Paths of followed connections -/

namespace Graph

/-- The connections are followed one after another, from one node to another. -/
def Leads (g : Graph) : NodeId → List Connection → NodeId → Prop
  | id, [], last => id = last
  | id, c :: path, last =>
    (∃ node, g.node? id = some node ∧ c ∈ g.followed node) ∧ g.Leads c.target path last

/-- Whether a connection is followed from a node can be found out by looking the node up. -/
instance (g : Graph) (id : NodeId) (c : Connection) :
    Decidable (∃ node, g.node? id = some node ∧ c ∈ g.followed node) :=
  decidable_of_iff ((g.node? id).any fun node => c ∈ g.followed node) (by simp [Option.any_eq_true])

/-- Whether a path leads somewhere can be found out by going along it. -/
instance decidableLeads (g : Graph) :
    (id : NodeId) → (path : List Connection) → (last : NodeId) → Decidable (g.Leads id path last)
  | id, [], last => inferInstanceAs (Decidable (id = last))
  | id, c :: path, last =>
    have := decidableLeads g c.target path last
    inferInstanceAs (Decidable ((∃ node, g.node? id = some node ∧ c ∈ g.followed node) ∧
      g.Leads c.target path last))

/-- The loops whose bodies a path of connections goes through. -/
def loopsAround (g : Graph) (path : List Connection) : List Node :=
  path.filterMap fun c =>
    (g.node? c.source).filter fun node => node.role = .loop ∧ c.sourcePin = "Loop Body"

variable {g : Graph} {id entry other v : NodeId} {c : Connection} {path path' : List Connection}

theorem leads_append {more : List Connection} :
    g.Leads id (path ++ more) v ↔ ∃ u, g.Leads id path u ∧ g.Leads u more v := by
  induction path generalizing id with
  | nil => simp [Leads]
  | cons c path ih => simp only [List.cons_append, Leads, ih, ← exists_and_left, and_assoc]

/-- A path leads where control passes. -/
theorem reflTransGen_of_leads (h : g.Leads id path v) : ReflTransGen g.Passes id v := by
  induction path generalizing id with
  | nil =>
    obtain rfl : id = v := h
    exact .refl
  | cons c path ih =>
    obtain ⟨⟨node, hnode, hc⟩, hrest⟩ := h
    exact .head ⟨node, hnode, c, hc, rfl⟩ (ih hrest)

/-- Where control passes, there is a path. -/
theorem exists_leads (h : ReflTransGen g.Passes id v) : ∃ path, g.Leads id path v := by
  induction h using ReflTransGen.head_induction_on with
  | refl => exact ⟨[], rfl⟩
  | head hp _ ih =>
    obtain ⟨node, hnode, c, hc, rfl⟩ := hp
    obtain ⟨path, hpath⟩ := ih
    exact ⟨c :: path, ⟨node, hnode, hc⟩, hpath⟩

namespace WellFormed

/-- The last connection of a path carries control from where the rest of the path ends. -/
theorem leads_concat (h : g.WellFormed) (hpath : g.Leads id (path ++ [c]) v) :
    g.Leads id path c.source ∧ c ∈ g.connections ∧ c.target = v ∧ c.kind = .exec := by
  obtain ⟨u, hfront, ⟨node, hnode, hc⟩, hlast⟩ := leads_append.1 hpath
  obtain ⟨hmem, hsource, hexec⟩ := h.of_mem_followed hc
  obtain rfl : c.source = u := hsource.trans (node?_eq_some hnode).2
  exact ⟨hfront, hmem, hlast, hexec⟩

/-- A connection adds a loop to those around a path exactly if it leads into its body. -/
theorem loopsAround_cons (h : g.WellFormed) {node : Node} (hnode : g.node? id = some node)
    (hc : c ∈ g.followed node) : g.loopsAround (c :: path) =
      if node.role = .loop ∧ c.sourcePin = "Loop Body" then node :: g.loopsAround path
      else g.loopsAround path := by
  have hsource : c.source = id := (h.of_mem_followed hc).2.1.trans (node?_eq_some hnode).2
  rw [loopsAround, List.filterMap_cons, hsource, hnode, Option.filter_some]
  by_cases hloop : node.role = .loop ∧ c.sourcePin = "Loop Body" <;> simp [hloop, loopsAround]

/-- No path ends at an undriven node, unless it has no connection. -/
theorem eq_nil_of_leads_undriven (h : g.WellFormed) (hentry : g.hasInboundExec entry = false)
    (hpath : g.Leads id path entry) : path = [] := by
  rcases List.eq_nil_or_concat path with hnil | ⟨front, c, rfl⟩
  · exact hnil
  · rw [List.concat_eq_append] at hpath
    obtain ⟨-, hmem, rfl, hexec⟩ := h.leads_concat hpath
    have hnone := List.any_eq_false.1 hentry c hmem
    simp [Connection.isExec, PinKind.isExec, hexec] at hnone

/-- From undriven nodes there is one path to a node at most. -/
theorem leads_unique (h : g.WellFormed) (hentry : g.hasInboundExec entry = false)
    (hother : g.hasInboundExec other = false) (hpath : g.Leads entry path v)
    (hpath' : g.Leads other path' v) : entry = other ∧ path = path' := by
  induction path using List.reverseRecOn generalizing v path' with
  | nil =>
    obtain rfl : entry = v := hpath
    obtain rfl := h.eq_nil_of_leads_undriven hentry hpath'
    exact ⟨hpath'.symm, rfl⟩
  | append_singleton front c ih =>
    obtain ⟨hfront, hc, rfl, hcexec⟩ := h.leads_concat hpath
    rcases List.eq_nil_or_concat path' with rfl | ⟨front', d, rfl⟩
    · obtain rfl : other = c.target := hpath'
      have := h.eq_nil_of_leads_undriven hother hpath
      simp at this
    · rw [List.concat_eq_append] at hpath' ⊢
      -- Both paths come in through the one connection that carries control to their end.
      obtain ⟨hfront', hd, htarget, hdexec⟩ := h.leads_concat hpath'
      obtain rfl := h.exec_connection_eq hd hc hdexec hcexec htarget
      obtain ⟨hsame, rfl⟩ := ih hfront hfront'
      exact ⟨hsame, rfl⟩

end WellFormed

end Graph

/-! ## What happens at a node -/

/-- The node at which something happens. -/
def Event.node : Event → NodeId
  | enter node => node
  | command node _ => node
  | round node _ _ => node
  | thenBranch node _ _ => node
  | elseBranch node => node

/-- Of all that happens, what happens at one node. -/
def eventsAt (v : NodeId) (events : List Event) : List Event :=
  events.filter (·.node = v)

section EventsAt

variable {v : NodeId} {events : List Event}

@[simp]
theorem eventsAt_append (first others : List Event) :
    eventsAt v (first ++ others) = eventsAt v first ++ eventsAt v others :=
  List.filter_append ..

theorem eventsAt_cons (event : Event) (events : List Event) : eventsAt v (event :: events) =
    if event.node = v then event :: eventsAt v events else eventsAt v events := by
  simp [eventsAt, List.filter_cons]

theorem eventsAt_flatMap {α : Type} (f : α → List Event) (l : List α) :
    eventsAt v (l.flatMap f) = l.flatMap fun a => eventsAt v (f a) :=
  List.filter_flatMap

theorem eventsAt_flatMap_eq_nil {α : Type} {f : α → List Event} {l : List α}
    (h : ∀ a ∈ l, eventsAt v (f a) = []) : eventsAt v (l.flatMap f) = [] := by
  rw [eventsAt_flatMap]
  exact List.flatMap_eq_nil_iff.2 h

theorem eventsAt_eq_nil_iff : eventsAt v events = [] ↔ ∀ event ∈ events, event.node ≠ v := by
  simp [eventsAt]

theorem eventsAt_of_forall (h : ∀ event ∈ events, event.node = v) : eventsAt v events = events :=
  List.filter_eq_self.2 (by simpa using h)

end EventsAt

namespace Resolver

/-- How often compilation comes to a node. -/
def visits (r : Resolver) (v : NodeId) : Nat :=
  r.events.count (.enter v)

/-- All that happens at a node each time that control comes to it. -/
def visit (r : Resolver) (node : Node) : List Event :=
  .enter node.id :: (if node.role = .loop then r.rounds node [] else r.own node) ++
    (r.branches node).flatMap (·.lead)

/-- The compiled lines, together with the nodes that write them. -/
def writings (r : Resolver) : List (NodeId × String) :=
  r.events.filterMap fun event => event.line?.map (event.node, ·)

/-- The compiled lines that a node writes. -/
def linesOf (r : Resolver) (v : NodeId) : List String :=
  (r.writings.filter (·.1 = v)).map (·.2)

/-- The lines that a node writes each time that control comes to it. A loop marks every round, a
condition every branch that it has, a sequence writes nothing, and any other node writes its command
unless that is empty. -/
def written (r : Resolver) (node : Node) : List String :=
  match node.role with
  | .loop =>
    let total := r.iterations node
    (List.range total).map fun i => s!"# Loop Iteration {i + 1}/{total}"
  | .condition =>
    let test := node.propertyText "conditionType"
    let condition := r.resolve node.id "Condition"
    (if (r.graph.outgoing? node.id "True").isSome then [s!"# If {test} {condition} THEN:"] else [])
      ++ if (r.graph.outgoing? node.id "False").isSome then ["# Else / False:"] else []
  | .sequence => []
  | .plain => if (r.synthesize node.id).isEmpty then [] else [r.synthesize node.id]

/-- A loop makes at least one round, and at most the greatest number of rounds. -/
theorem iterations_bounds (r : Resolver) (node : Node) :
    1 ≤ r.iterations node ∧ r.iterations node ≤ maxIterations := by
  rw [iterations]
  generalize Option.getD _ _ = requested
  unfold clampIterations maxIterations
  split
  · split <;> omega
  · omega

variable {compiler : Compiler} {g : Graph} {v : NodeId} {node : Node} {event : Event}

/-- A node's own command is written at the node. -/
theorem of_mem_own {r : Resolver} (h : event ∈ r.own node) :
    event.node = node.id ∧ event.line?.isSome := by
  unfold own at h
  split at h
  · dsimp only at h
    split at h
    · exact absurd h List.not_mem_nil
    · rw [List.mem_singleton.1 h]
      exact ⟨rfl, rfl⟩
  · exact absurd h List.not_mem_nil

/-- When a way on from a node is taken, lines are written at the node at most. -/
theorem of_mem_lead : ∀ branch ∈ (compiler.resolver g).branches node,
    ∀ event ∈ branch.lead, event.node = node.id ∧ event.line?.isSome := by
  -- A branch has its lead or is not there.
  have hbehind : ∀ {lead : List Event} {c : Option Connection},
      (∀ event ∈ lead, event.node = node.id ∧ event.line?.isSome) →
      ∀ branch ∈ Branch.behind lead c, ∀ event ∈ branch.lead,
        event.node = node.id ∧ event.line?.isSome := by
    intro lead c hlead branch hbranch
    obtain ⟨d, -, rfl⟩ := Option.map_eq_some_iff.1 (Option.mem_toList.1 hbranch)
    exact hlead
  have hnone : ∀ event ∈ ([] : List Event), event.node = node.id ∧ event.line?.isSome :=
    fun _ h => nomatch h
  cases hrole : node.role with
  | loop =>
    rw [compiler.branches_loop g hrole]
    exact hbehind hnone
  | condition =>
    rw [compiler.branches_condition g hrole]
    exact List.forall_mem_append.2
      ⟨hbehind (List.forall_mem_singleton.2 ⟨rfl, rfl⟩),
        hbehind (List.forall_mem_singleton.2 ⟨rfl, rfl⟩)⟩
  | sequence =>
    rw [compiler.branches_sequence g hrole]
    intro branch hbranch
    obtain ⟨pin, -, hpin⟩ := List.mem_flatMap.1 hbranch
    exact hbehind hnone branch hpin
  | plain =>
    rw [compiler.branches_plain g hrole]
    exact hbehind hnone

/-- So what is written in front of a way on from a node that is looked up happens at that node. -/
theorem node_of_mem_lead {id : NodeId} (hnode : g.node? id = some node) :
    ∀ branch ∈ (compiler.resolver g).branches node, ∀ event ∈ branch.lead, event.node = id :=
  fun branch hbranch event hlead =>
    (of_mem_lead branch hbranch event hlead).1.trans (Graph.node?_eq_some hnode).2

/-- A body is entered without any such line. -/
theorem lead_bodyBranches {r : Resolver} : ∀ branch ∈ r.bodyBranches node, branch.lead = [] := by
  unfold bodyBranches
  split <;> simp

theorem eventsAt_leads_self : eventsAt node.id (((compiler.resolver g).branches node).flatMap
    (·.lead)) = ((compiler.resolver g).branches node).flatMap (·.lead) := by
  refine eventsAt_of_forall fun event hevent => ?_
  obtain ⟨branch, hbranch, hlead⟩ := List.mem_flatMap.1 hevent
  exact (of_mem_lead branch hbranch event hlead).1

/-- Elsewhere, the rounds of a loop are so many times the body. -/
theorem eventsAt_rounds_of_ne (r : Resolver) (body : List Event) (hne : node.id ≠ v) :
    eventsAt v (r.rounds node body) =
      (List.replicate (r.iterations node) (eventsAt v body)).flatten := by
  have hround : ∀ i total, eventsAt v (.round node.id i total :: body) = eventsAt v body :=
    fun i total => (eventsAt_cons ..).trans (if_neg hne)
  simp only [rounds, eventsAt_flatMap, hround]
  rw [List.flatMap_def, List.map_const', List.length_range]

/-- At a loop itself the rounds are marked, if the body does not come back to it. -/
theorem eventsAt_rounds_self (r : Resolver) {body : List Event} (h : eventsAt node.id body = []) :
    eventsAt node.id (r.rounds node body) = r.rounds node [] := by
  have hround : ∀ i total, eventsAt node.id (.round node.id i total :: body) =
      [.round node.id i total] := by
    intro i total
    rw [eventsAt_cons, h]
    exact if_pos rfl
  simp only [rounds, eventsAt_flatMap, hround]

/-! ## Traces at a node -/

mutual

/-- All that happens in a trace happens at nodes behind its start. -/
theorem Traces.reaches {id : NodeId} {events : List Event} :
    (compiler.resolver g).Traces id events → event ∈ events → ReflTransGen g.Passes id event.node
  | .node hnode hrole hafter, hmem => by
    simp only [List.cons_append, List.mem_cons, List.mem_append] at hmem
    rcases hmem with rfl | hown | hmem
    · exact .refl
    · rw [(of_mem_own hown).1, (Graph.node?_eq_some hnode).2]
    · exact hafter.reaches_from (compiler.passes_of_mem_branches hnode) (node_of_mem_lead hnode)
        hmem
  | @Traces.loop _ _ node body _ hnode hrole hbody hafter, hmem => by
    simp only [List.cons_append, List.mem_cons, List.mem_append] at hmem
    rcases hmem with rfl | hround | hmem
    · exact .refl
    · obtain ⟨i, -, hi⟩ := List.mem_flatMap.1 hround
      rcases List.mem_cons.1 hi with rfl | hi
      · rw [Event.node, (Graph.node?_eq_some hnode).2]
      · exact hbody.reaches_from (compiler.passes_of_mem_bodyBranches hnode)
          (fun branch hbranch event hlead => by simp [lead_bodyBranches branch hbranch] at hlead) hi
    · exact hafter.reaches_from (compiler.passes_of_mem_branches hnode) (node_of_mem_lead hnode)
        hmem

/-- All that happens along several ways on from a node happens at it or at nodes behind it. -/
theorem TracesEach.reaches_from {id : NodeId} {branches : List Branch} {events : List Event} :
    (compiler.resolver g).TracesEach branches events →
    (∀ branch ∈ branches, g.Passes id branch.target) →
    (∀ branch ∈ branches, ∀ event ∈ branch.lead, event.node = id) → event ∈ events →
    ReflTransGen g.Passes id event.node
  | .nil, _, _, hmem => absurd hmem List.not_mem_nil
  | @TracesEach.cons _ branch rest _ _ hfirst hothers, hpasses, hlead, hmem => by
    obtain ⟨hp, hpasses⟩ := List.forall_mem_cons.1 hpasses
    obtain ⟨hhere, hlead⟩ := List.forall_mem_cons.1 hlead
    rcases List.mem_append.1 hmem with hmem | hmem
    · rcases List.mem_append.1 hmem with hmem | hmem
      · rw [hhere event hmem]
      · exact .head hp (hfirst.reaches hmem)
    · exact hothers.reaches_from hpasses hlead hmem

end

/-- Nothing happens at a node that is not behind the start of a trace. -/
theorem Traces.eventsAt_eq_nil {id : NodeId} {events : List Event}
    (h : (compiler.resolver g).Traces id events) (hapart : ¬ ReflTransGen g.Passes id v) :
    eventsAt v events = [] :=
  eventsAt_eq_nil_iff.2 fun _ hmem heq => hapart (heq ▸ h.reaches hmem)

/-- Where no way on leads to a node, nothing happens at it but the taking of the ways. -/
theorem TracesEach.eventsAt_eq_leads {branches : List Branch} {events : List Event}
    (h : (compiler.resolver g).TracesEach branches events)
    (hapart : ∀ branch ∈ branches, ¬ ReflTransGen g.Passes branch.target v) :
    eventsAt v events = eventsAt v (branches.flatMap (·.lead)) := by
  induction branches generalizing events with
  | nil =>
    cases h
    rfl
  | cons branch rest ih =>
    cases h with
    | @cons _ _ first others hfirst hothers =>
      obtain ⟨hapartFirst, hapart⟩ := List.forall_mem_cons.1 hapart
      rw [eventsAt_append, eventsAt_append, hfirst.eventsAt_eq_nil hapartFirst, List.append_nil,
        ih hothers hapart, List.flatMap_cons, eventsAt_append]

/-- Where one way on at most leads to a node, all that happens at it happens behind that way. -/
theorem TracesEach.exists_eventsAt_eq {branches : List Branch} {events : List Event}
    {next : NodeId} (h : (compiler.resolver g).TracesEach branches events)
    (hquiet : ∀ branch ∈ branches, eventsAt v branch.lead = [])
    (hnodup : (branches.map (·.target)).Nodup) (hnext : next ∈ branches.map (·.target))
    (hapart : ∀ branch ∈ branches, branch.target ≠ next →
      ¬ ReflTransGen g.Passes branch.target v) :
    ∃ first, (compiler.resolver g).Traces next first ∧ eventsAt v events = eventsAt v first := by
  -- The branches in front of the one in question contribute nothing, nor do those behind it.
  induction branches generalizing events with
  | nil => simp at hnext
  | cons branch rest ih =>
    cases h with
    | @cons _ _ first others hfirst hothers =>
      obtain ⟨hlead, hquiet⟩ := List.forall_mem_cons.1 hquiet
      obtain ⟨hapartFirst, hapart⟩ := List.forall_mem_cons.1 hapart
      obtain ⟨hne, hnodup⟩ := List.nodup_cons.1 hnodup
      rw [eventsAt_append, eventsAt_append, hlead, List.nil_append]
      by_cases hhere : branch.target = next
      · subst hhere
        have hothersAt : eventsAt v others = [] := by
          rw [hothers.eventsAt_eq_leads fun other hother => hapart other hother fun heq =>
            hne (List.mem_map.2 ⟨other, hother, heq⟩)]
          exact eventsAt_flatMap_eq_nil hquiet
        exact ⟨first, hfirst, by rw [hothersAt, List.append_nil]⟩
      · obtain ⟨found, hfound, hat⟩ := ih hothers hquiet hnodup
          ((List.mem_cons.1 hnext).resolve_left fun heq => hhere heq.symm) hapart
        exact ⟨found, hfound, by
          rw [hfirst.eventsAt_eq_nil (hapartFirst hhere), hat, List.nil_append]⟩

/-- What a trace is made of: at the start itself the marks of the rounds or a command, elsewhere the
body once for every round, and in both cases what happens along the ways on. -/
theorem Traces.exists_parts {id : NodeId} {events : List Event}
    (h : (compiler.resolver g).Traces id events) :
    ∃ node body after, g.node? id = some node ∧
      (compiler.resolver g).TracesEach ((compiler.resolver g).bodyBranches node) body ∧
      (compiler.resolver g).TracesEach ((compiler.resolver g).branches node) after ∧
      (∀ v, id ≠ v → eventsAt v events = (List.replicate ((compiler.resolver g).iterations node)
        (eventsAt v body)).flatten ++ eventsAt v after) ∧
      (eventsAt id body = [] → eventsAt id events = .enter id ::
        (if node.role = .loop then (compiler.resolver g).rounds node []
          else (compiler.resolver g).own node) ++ eventsAt id after) := by
  -- The coming of control belongs to the start alone.
  have henter : ∀ {rest}, eventsAt id (.enter id :: rest) = .enter id :: eventsAt id rest :=
    (eventsAt_cons ..).trans (if_pos rfl)
  have henterOther : ∀ v {rest}, id ≠ v → eventsAt v (.enter id :: rest) = eventsAt v rest :=
    fun v _ hne => (eventsAt_cons ..).trans (if_neg hne)
  cases h with
  | @node _ node after hnode hrole hafter =>
    obtain rfl : node.id = id := (Graph.node?_eq_some hnode).2
    refine ⟨node, [], after, hnode, ?_, hafter, fun v hne => ?_, fun _ => ?_⟩
    · unfold bodyBranches
      split
      · contradiction
      · exact .nil
    · have hown : eventsAt v ((compiler.resolver g).own node) = [] :=
        eventsAt_eq_nil_iff.2 fun event hevent => (of_mem_own hevent).1 ▸ hne
      rw [List.cons_append, henterOther v hne, eventsAt_append, hown]
      simp [eventsAt]
    · rw [List.cons_append, henter, eventsAt_append, if_neg hrole,
        eventsAt_of_forall fun event hevent => (of_mem_own hevent).1, List.cons_append]
  | @loop _ node body after hnode hrole hbody hafter =>
    obtain rfl : node.id = id := (Graph.node?_eq_some hnode).2
    refine ⟨node, body, after, hnode, hbody, hafter, fun v hne => ?_, fun hbodyAt => ?_⟩
    · rw [List.cons_append, henterOther v hne, eventsAt_append, eventsAt_rounds_of_ne _ _ hne]
    · rw [List.cons_append, henter, eventsAt_append, if_pos hrole,
        eventsAt_rounds_self _ hbodyAt, List.cons_append]

end Resolver

namespace Compiler

variable (compiler : Compiler) {g : Graph} {node : Node} {c : Connection}

/-- A followed connection leads into the body of a loop exactly if it leaves the pin for it. -/
theorem target_mem_bodyBranches_iff (hwf : g.WellFormed) (hc : c ∈ g.followed node) :
    c.target ∈ ((compiler.resolver g).bodyBranches node).map (·.target) ↔
      node.role = .loop ∧ c.sourcePin = "Loop Body" := by
  constructor
  · intro hmem
    obtain ⟨branch, hbranch, htarget⟩ := List.mem_map.1 hmem
    unfold Resolver.bodyBranches at hbranch
    split at hbranch
    next hrole =>
      obtain ⟨start, hstart, rfl⟩ := List.mem_map.1 hbranch
      rw [Option.mem_toList, Resolver.body?, compiler.resolver_outgoing?] at hstart
      obtain ⟨d, hd, rfl⟩ := Option.map_eq_some_iff.1 hstart
      -- The connection from the pin for the body is followed too, and no two end at one node.
      have hdmem : d ∈ g.followed node := by simp [Graph.followed, hrole, hd]
      obtain rfl := List.inj_on_of_nodup_map (hwf.nodup_targets node) hdmem hc htarget
      exact ⟨hrole, (Graph.outgoing?_eq_some hd).2.2⟩
    next => exact absurd hbranch List.not_mem_nil
  · rintro ⟨hrole, hpin⟩
    have hout : g.outgoing? node.id "Loop Body" = some c := by
      rw [Graph.followed, hrole] at hc
      obtain ⟨pin, -, hout⟩ := List.mem_filterMap.1 hc
      rwa [← (Graph.outgoing?_eq_some hout).2.2, hpin] at hout
    simp [Resolver.bodyBranches, hrole, Resolver.body?, compiler.resolver_outgoing?, hout]

end Compiler

namespace Resolver

variable {compiler : Compiler} {g : Graph} {entry id v : NodeId} {node : Node} {c : Connection}
  {events : List Event} (hwf : g.WellFormed) (hentry : g.hasInboundExec entry = false)
  (hreach : ReflTransGen g.Passes entry id)

include hwf hentry hreach

/-- At its start a trace makes one visit. -/
theorem Traces.exists_eventsAt_self (h : (compiler.resolver g).Traces id events) :
    ∃ node, g.node? id = some node ∧ eventsAt id events = (compiler.resolver g).visit node := by
  obtain ⟨node, body, after, hnode, hbody, hafter, -, hself⟩ := h.exists_parts
  obtain rfl : node.id = id := (Graph.node?_eq_some hnode).2
  have hacyclic := not_transGen_self_of_root hwf.passes_leftUnique
    (hwf.not_passes_of_undriven hentry) hreach
  have hbodyAt : eventsAt node.id body = [] := by
    rw [hbody.eventsAt_eq_leads fun branch hbranch hback =>
      hacyclic (.head' (compiler.passes_of_mem_bodyBranches hnode branch hbranch) hback),
      List.flatMap_eq_nil_iff.2 lead_bodyBranches]
    rfl
  have hafterAt := hafter.eventsAt_eq_leads fun branch hbranch hback =>
    hacyclic (.head' (compiler.passes_of_mem_branches hnode branch hbranch) hback)
  exact ⟨node, hnode, by rw [hself hbodyAt, hafterAt, eventsAt_leads_self, visit]⟩

/-- What happens at a node behind a followed connection happens as from there, once for every round
if the connection leads into the body of a loop. -/
theorem Traces.exists_eventsAt_step (h : (compiler.resolver g).Traces id events)
    (hnode : g.node? id = some node) (hc : c ∈ g.followed node)
    (hbelow : ReflTransGen g.Passes c.target v) :
    ∃ first, (compiler.resolver g).Traces c.target first ∧ eventsAt v events =
      (List.replicate (if node.role = .loop ∧ c.sourcePin = "Loop Body"
        then (compiler.resolver g).iterations node else 1) (eventsAt v first)).flatten := by
  obtain ⟨node', body, after, hnode', hbody, hafter, hsplit, -⟩ := h.exists_parts
  obtain rfl := Option.some.inj (hnode.symm.trans hnode')
  have hp : g.Passes id c.target := ⟨node, hnode, c, hc, rfl⟩
  have hne : id ≠ v := by
    rintro rfl
    exact not_transGen_self_of_root hwf.passes_leftUnique (hwf.not_passes_of_undriven hentry)
      hreach (.head' hp hbelow)
  -- Any other way on from here has no node in common with this one.
  have hapart : ∀ branch : Branch, g.Passes id branch.target → branch.target ≠ c.target →
      ¬ ReflTransGen g.Passes branch.target v := by
    intro branch hbranch hother hback
    exact hwf.not_reaches_both hentry hreach hp hbranch hother.symm hbelow hback
  have hinsidePasses := compiler.passes_of_mem_bodyBranches hnode
  have hpasses := compiler.passes_of_mem_branches hnode
  have hnodup := hwf.nodup_targets node
  have htarget : c.target ∈ (g.followed node).map (·.target) := List.mem_map_of_mem hc
  rw [compiler.targets_followed, List.map_append] at hnodup htarget
  obtain ⟨hnodupBody, hnodupAfter, hdisjoint⟩ := List.nodup_append'.1 hnodup
  have hloop := compiler.target_mem_bodyBranches_iff hwf hc
  -- Taking a way on happens at this node, and so not at `v`.
  have hquiet : ∀ branch ∈ (compiler.resolver g).branches node, eventsAt v branch.lead = [] := by
    intro branch hbranch
    refine eventsAt_eq_nil_iff.2 fun event hevent => ?_
    rwa [node_of_mem_lead hnode branch hbranch event hevent]
  have hquietBody : ∀ branch ∈ (compiler.resolver g).bodyBranches node,
      eventsAt v branch.lead = [] := by
    intro branch hbranch
    rw [lead_bodyBranches branch hbranch]
    rfl
  rw [hsplit v hne]
  -- The connection leads into the body or behind the rounds, and never both.
  rcases List.mem_append.1 htarget with hinside | houtside
  · obtain ⟨first, hfirst, heq⟩ := hbody.exists_eventsAt_eq hquietBody hnodupBody hinside
      fun branch hbranch => hapart branch (hinsidePasses branch hbranch)
    have hnone := hafter.eventsAt_eq_leads fun branch hbranch =>
      hapart branch (hpasses branch hbranch) fun htarget =>
        hdisjoint hinside (htarget ▸ List.mem_map_of_mem hbranch)
    exact ⟨first, hfirst, by rw [hnone, eventsAt_flatMap_eq_nil hquiet, heq,
      if_pos (hloop.1 hinside), List.append_nil]⟩
  · obtain ⟨first, hfirst, heq⟩ := hafter.exists_eventsAt_eq hquiet hnodupAfter houtside
      fun branch hbranch => hapart branch (hpasses branch hbranch)
    have hnone := hbody.eventsAt_eq_leads fun branch hbranch =>
      hapart branch (hinsidePasses branch hbranch) fun htarget =>
        hdisjoint (htarget ▸ List.mem_map_of_mem hbranch) houtside
    have hnot := fun hboth => hdisjoint (hloop.2 hboth) houtside
    refine ⟨first, hfirst, ?_⟩
    rw [hnone, eventsAt_flatMap_eq_nil hquietBody, heq, if_neg hnot]
    simp

/-- Along a path to a node, a trace makes one visit of it for every choice of rounds of the loops
whose bodies the path goes through. -/
theorem Traces.exists_eventsAt {path : List Connection} (h : (compiler.resolver g).Traces id events)
    (hpath : g.Leads id path v) : ∃ last, g.node? v = some last ∧ eventsAt v events =
      (List.replicate ((g.loopsAround path).map (compiler.resolver g).iterations).prod
        ((compiler.resolver g).visit last)).flatten := by
  induction path generalizing id events with
  | nil =>
    obtain rfl : id = v := hpath
    obtain ⟨last, hlast, hself⟩ := h.exists_eventsAt_self hwf hentry hreach
    exact ⟨last, hlast, by simp [hself, Graph.loopsAround]⟩
  | cons c rest ih =>
    obtain ⟨⟨node, hnode, hc⟩, hrest⟩ := hpath
    obtain ⟨first, hfirst, hstep⟩ := h.exists_eventsAt_step hwf hentry hreach hnode hc
      (Graph.reflTransGen_of_leads hrest)
    obtain ⟨last, hlast, hat⟩ := ih (hreach.tail ⟨node, hnode, c, hc, rfl⟩) hfirst hrest
    refine ⟨last, hlast, ?_⟩
    -- So many times so many visits are as many as the product.
    rw [hstep, hat, ← List.map_replicate, ← List.flatten_flatten, List.flatten_replicate_replicate,
      hwf.loopsAround_cons hnode hc]
    split <;> simp

end Resolver

/-! ## Lines of compiled graphs -/

/-- Where all but one of a list give nothing, the list gives what that one gives. -/
theorem flatMap_eq_of_nodup {α β : Type} {f : α → List β} {l : List α} {a : α} (hnodup : l.Nodup)
    (ha : a ∈ l) (h : ∀ b ∈ l, b ≠ a → f b = []) : l.flatMap f = f a := by
  induction l with
  | nil => cases ha
  | cons b l ih =>
    obtain ⟨hb, hnodup⟩ := List.nodup_cons.1 hnodup
    obtain ⟨hfirst, hrest⟩ := List.forall_mem_cons.1 h
    rw [List.flatMap_cons]
    rcases List.mem_cons.1 ha with rfl | ha
    · have hnone : l.flatMap f = [] := List.flatMap_eq_nil_iff.2 fun c hc =>
        hrest c hc fun heq => hb (heq ▸ hc)
      rw [hnone, List.append_nil]
    · rw [hfirst fun heq => hb (heq ▸ ha), List.nil_append, ih hnodup ha hrest]

namespace Resolver

/-- The lines that a node writes are those of what happens at it. -/
theorem linesOf_eq (r : Resolver) (v : NodeId) :
    r.linesOf v = (eventsAt v r.events).filterMap Event.line? := by
  rw [linesOf, writings, eventsAt]
  induction r.events with
  | nil => rfl
  | cons event rest ih =>
    cases hline : event.line? <;> by_cases hv : event.node = v <;> simp_all

end Resolver

namespace Compiler

variable (compiler : Compiler)

/-- A visit comes to its node once. -/
theorem count_enter_visit (g : Graph) (node : Node) :
    ((compiler.resolver g).visit node).count (.enter node.id) = 1 := by
  -- What has a line is no coming of control.
  have hwritten : ∀ {events : List Event}, (∀ event ∈ events, event.line?.isSome) →
      events.count (.enter node.id) = 0 :=
    fun h => List.count_eq_zero.2 fun hmem => absurd (h _ hmem) Bool.false_ne_true
  have hleads : ∀ event ∈ ((compiler.resolver g).branches node).flatMap (·.lead),
      event.line?.isSome := by
    intro event hevent
    obtain ⟨branch, hbranch, hlead⟩ := List.mem_flatMap.1 hevent
    exact (Resolver.of_mem_lead branch hbranch event hlead).2
  have hrounds : ∀ event ∈ (compiler.resolver g).rounds node [], event.line?.isSome := by
    intro event hevent
    obtain ⟨i, -, hi⟩ := List.mem_flatMap.1 hevent
    rw [List.mem_singleton.1 hi]
    rfl
  rw [Resolver.visit, List.cons_append, List.count_cons_self, List.count_append, hwritten hleads]
  split
  · rw [hwritten hrounds]
  · rw [hwritten fun event hevent => (Resolver.of_mem_own hevent).2]

/-- The lines of a visit are those that the node writes. -/
theorem lines_visit (g : Graph) (node : Node) :
    ((compiler.resolver g).visit node).filterMap Event.line? =
      (compiler.resolver g).written node := by
  have hleads : ∀ (lead : List Event) (c : Option Connection),
      (Branch.behind lead c).flatMap (·.lead) = if c.isSome then lead else [] := by
    intro lead c
    cases c <;> simp [Branch.behind]
  cases hrole : node.role with
  | loop =>
    rw [Resolver.visit, branches_loop compiler g hrole, hleads]
    simp [Resolver.written, Resolver.rounds, hrole, Event.line?, List.filterMap_cons,
      List.filterMap_flatMap, List.map_eq_flatMap]
  | condition =>
    rw [Resolver.visit, branches_condition compiler g hrole, List.flatMap_append, hleads, hleads]
    -- A branch of a condition is announced if something is behind it.
    cases htrue : g.outgoing? node.id "True" <;> cases hfalse : g.outgoing? node.id "False" <;>
      simp [Resolver.written, Resolver.own, hrole, Event.line?, List.filterMap_cons, resolver_graph,
        htrue, hfalse]
  | sequence =>
    rw [Resolver.visit, branches_sequence compiler g hrole, List.flatMap_assoc]
    simp [Resolver.written, Resolver.own, hrole, Event.line?, List.filterMap_cons, hleads]
  | plain =>
    rw [Resolver.visit, branches_plain compiler g hrole, hleads]
    by_cases htext : (compiler.resolver g).synthesize node.id = "" <;>
      simp [Resolver.written, Resolver.own, hrole, Event.line?, List.filterMap_cons, htext]

section

variable {g : Graph} {entry v : NodeId} (hwf : g.WellFormed)

include hwf

/-- In the walk from an entry nothing happens at a node that no path leads to. -/
theorem eventsAt_walk_eq_nil (hentry : entry ∈ g.entries) (h : ∀ path, ¬ g.Leads entry path v) :
    eventsAt v ((compiler.resolver g).walk g.size entry []).1 = [] := by
  refine (compiler.traces_of_mem_entries hwf hentry).eventsAt_eq_nil fun hreach => ?_
  obtain ⟨path, hpath⟩ := Graph.exists_leads hreach
  exact h path hpath

/-- All that happens at a node comes from the entry that a path leads to it from. -/
theorem exists_eventsAt {path : List Connection} (hentry : entry ∈ g.entries)
    (hpath : g.Leads entry path v) : ∃ node, g.node? v = some node ∧
      eventsAt v (compiler.resolver g).events =
        (List.replicate ((g.loopsAround path).map (compiler.resolver g).iterations).prod
          ((compiler.resolver g).visit node)).flatten := by
  obtain ⟨-, hundriven⟩ := Graph.undriven_of_mem_entries hentry
  obtain ⟨node, hnode, hat⟩ :=
    (compiler.traces_of_mem_entries hwf hentry).exists_eventsAt hwf hundriven .refl hpath
  have hnodup : g.entries.Nodup := hwf.nodup_ids.sublist (List.filter_sublist.map _)
  -- Of the walks from all entries, one alone comes to the node.
  have hothers : ∀ other ∈ g.entries, other ≠ entry →
      eventsAt v ((compiler.resolver g).walk g.size other []).1 = [] := by
    intro other hother hne
    refine compiler.eventsAt_walk_eq_nil hwf hother fun path' hpath' => hne ?_
    obtain ⟨-, hundriven'⟩ := Graph.undriven_of_mem_entries hother
    exact (hwf.leads_unique hundriven' hundriven hpath' hpath).1
  refine ⟨node, hnode, ?_⟩
  rw [Resolver.events, compiler.resolver_entries, eventsAt_flatMap, resolver_graph,
    flatMap_eq_of_nodup hnodup hentry hothers, hat]

/-- Nothing happens at a node that no path leads to from an entry. -/
theorem eventsAt_eq_nil (h : ∀ entry ∈ g.entries, ∀ path, ¬ g.Leads entry path v) :
    eventsAt v (compiler.resolver g).events = [] := by
  rw [Resolver.events, compiler.resolver_entries]
  exact eventsAt_flatMap_eq_nil fun entry hentry =>
    compiler.eventsAt_walk_eq_nil hwf hentry (h entry hentry)

/-- A node is visited once for every choice of rounds of the loops around the path to it. -/
theorem visits_eq {path : List Connection} (hentry : entry ∈ g.entries)
    (hpath : g.Leads entry path v) : (compiler.resolver g).visits v =
      ((g.loopsAround path).map (compiler.resolver g).iterations).prod := by
  obtain ⟨node, hnode, hat⟩ := compiler.exists_eventsAt hwf hentry hpath
  obtain rfl : node.id = v := (Graph.node?_eq_some hnode).2
  have hcount : (eventsAt node.id (compiler.resolver g).events).count (.enter node.id) =
      (compiler.resolver g).visits node.id := List.count_filter (decide_eq_true rfl)
  rw [← hcount, hat, List.count_flatten, List.map_replicate, count_enter_visit]
  simp

/-- A node that no path leads to from an entry is not visited. -/
theorem visits_eq_zero (h : ∀ entry ∈ g.entries, ∀ path, ¬ g.Leads entry path v) :
    (compiler.resolver g).visits v = 0 := by
  have hnone := eventsAt_eq_nil_iff.1 (compiler.eventsAt_eq_nil hwf h)
  exact List.count_eq_zero.2 fun hmem => hnone _ hmem rfl

/-- A node that a path leads to writes its lines once for every visit. -/
theorem exists_linesOf_eq {path : List Connection} (hentry : entry ∈ g.entries)
    (hpath : g.Leads entry path v) : ∃ node, g.node? v = some node ∧
      (compiler.resolver g).linesOf v = (List.replicate ((compiler.resolver g).visits v)
        ((compiler.resolver g).written node)).flatten := by
  obtain ⟨node, hnode, hat⟩ := compiler.exists_eventsAt hwf hentry hpath
  refine ⟨node, hnode, ?_⟩
  rw [Resolver.linesOf_eq, hat, compiler.visits_eq hwf hentry hpath, List.filterMap_flatten,
    List.map_replicate, lines_visit]

end

/-- The compiled lines are those that the nodes write. -/
theorem compileLines_eq_writings (g : Graph) :
    compiler.compileLines g = (compiler.resolver g).writings.map (·.2) := by
  rw [compileLines, Resolver.writings, List.map_filterMap]
  refine List.filterMap_congr fun event _ => ?_
  cases event.line? <;> rfl

end Compiler

/-- In every graph that a session reaches, one path at most leads to a node, over all entries. Along
such a path compilation visits the node as often as the rounds of the loops whose bodies the path
goes through say, multiplied, and of the compiled lines the node writes its own once for every
visit. Without a path compilation does not visit the node at all, and the node writes no line. -/
theorem Session.visits_run (compiler : Compiler) (edits : List Edit)
    (hplaced : (run edits).placed < UInt32.size) (v : NodeId) :
    let g := (run edits).graph
    let r := compiler.resolver g
    compiler.compileLines g = r.writings.map (·.2) ∧
    (∀ entry ∈ g.entries, ∀ other ∈ g.entries, ∀ path path', g.Leads entry path v →
      g.Leads other path' v → entry = other ∧ path = path') ∧
    (∀ entry ∈ g.entries, ∀ path, g.Leads entry path v →
      r.visits v = ((g.loopsAround path).map r.iterations).prod ∧
      (∀ node ∈ g.loopsAround path, 1 ≤ r.iterations node ∧ r.iterations node ≤ 100) ∧
      ∃ node, g.node? v = some node ∧
        r.linesOf v = (List.replicate (r.visits v) (r.written node)).flatten) ∧
    ((∀ entry ∈ g.entries, ∀ path, ¬ g.Leads entry path v) →
      r.visits v = 0 ∧ r.linesOf v = []) := by
  intro g r
  have hwf : g.WellFormed := wellFormed_run hplaced
  refine ⟨compiler.compileLines_eq_writings g, ?_, ?_, ?_⟩
  · intro entry hentry other hother path path' hpath hpath'
    exact hwf.leads_unique (Graph.undriven_of_mem_entries hentry).2
      (Graph.undriven_of_mem_entries hother).2 hpath hpath'
  · intro entry hentry path hpath
    exact ⟨compiler.visits_eq hwf hentry hpath, fun node _ => r.iterations_bounds node,
      compiler.exists_linesOf_eq hwf hentry hpath⟩
  · intro hnone
    refine ⟨compiler.visits_eq_zero hwf hnone, ?_⟩
    rw [r.linesOf_eq, compiler.eventsAt_eq_nil hwf hnone]
    rfl

/-- A loop of two rounds around a loop of three, with a command in the inner body. -/
def Session.loopInLoop : List Edit :=
  [.add "chat_command" {}, .add "loop" {}, .add "loop" {}, .add "say" {}, .add "say" {},
    .set ⟨1⟩ "iterations" ⟨.ofNat 2, trivial⟩, .set ⟨2⟩ "iterations" ⟨.ofNat 3, trivial⟩,
    .connect ⟨0⟩ "Exec" ⟨1⟩ "Exec", .connect ⟨1⟩ "Loop Body" ⟨2⟩ "Exec",
    .connect ⟨2⟩ "Loop Body" ⟨3⟩ "Exec", .connect ⟨2⟩ "Completed" ⟨4⟩ "Exec"]

/-- The command in the inner body is visited once for every pair of rounds, and what follows the
inner loop once for every round of the outer one, in which the inner loop marks its three rounds. -/
theorem Session.visits_run_loopInLoop :
    let g := (run loopInLoop).graph
    let r := Compiler.standard.resolver g
    (run loopInLoop).placed < UInt32.size ∧ g.connections.length = 4 ∧ ⟨0⟩ ∈ g.entries ∧
      r.visits ⟨3⟩ = 6 ∧ r.visits ⟨4⟩ = 2 ∧
      r.linesOf ⟨4⟩ = ["say Hello World!", "say Hello World!"] ∧
      r.linesOf ⟨2⟩ = (List.replicate 2
        ["# Loop Iteration 1/3", "# Loop Iteration 2/3", "# Loop Iteration 3/3"]).flatten := by
  have hplaced : (run loopInLoop).placed < UInt32.size := by decide
  have hentry : ⟨0⟩ ∈ (run loopInLoop).graph.entries := by decide
  obtain ⟨-, -, hinner, -⟩ := visits_run Compiler.standard loopInLoop hplaced ⟨3⟩
  obtain ⟨-, -, hafter, -⟩ := visits_run Compiler.standard loopInLoop hplaced ⟨4⟩
  obtain ⟨-, -, hloop, -⟩ := visits_run Compiler.standard loopInLoop hplaced ⟨2⟩
  have hbody := (hinner ⟨0⟩ hentry ((run loopInLoop).graph.connections.take 3) (by decide)).1
  obtain ⟨hnext, -, command, hcommand, hsays⟩ :=
    hafter ⟨0⟩ hentry ((run loopInLoop).graph.connections.eraseIdx 2) (by decide)
  obtain ⟨hrounds, -, inner, hinner, hmarks⟩ :=
    hloop ⟨0⟩ hentry ((run loopInLoop).graph.connections.take 2) (by decide)
  -- What the two nodes write each time is found out by looking them up.
  have hsay : ((run loopInLoop).graph.node? ⟨4⟩).map
      (Compiler.standard.resolver (run loopInLoop).graph).written = some ["say Hello World!"] := by
    decide +kernel
  have hmark : ((run loopInLoop).graph.node? ⟨2⟩).map
      (Compiler.standard.resolver (run loopInLoop).graph).written = some
        ["# Loop Iteration 1/3", "# Loop Iteration 2/3", "# Loop Iteration 3/3"] := by
    decide +kernel
  rw [hcommand, Option.map_some, Option.some.injEq] at hsay
  rw [hinner, Option.map_some, Option.some.injEq] at hmark
  have htwice : (Compiler.standard.resolver (run loopInLoop).graph).visits ⟨4⟩ = 2 :=
    hnext.trans (by decide +kernel)
  have houter : (Compiler.standard.resolver (run loopInLoop).graph).visits ⟨2⟩ = 2 :=
    hrounds.trans (by decide +kernel)
  rw [htwice, hsay] at hsays
  rw [houter, hmark] at hmarks
  exact ⟨hplaced, by decide, hentry, hbody.trans (by decide +kernel), htwice, hsays, hmarks⟩

end CommandGraph
