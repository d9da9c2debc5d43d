import CommandGraph.Proofs.Compile.DataFlow
import CommandGraph.Proofs.Compile.Similarity
import CommandGraph.Proofs.Compile.Visits
import Mathlib.Algebra.Order.BigOperators.Group.List

/-!
# Dead nodes

Control comes to some nodes of a graph (`Graph.live`), and from a given node data may come to some.
If no data from a node comes to a live node, compilation makes no use of the node: it can be changed
without a trace in the compiled lines (`Graph.SameBut.alikeOn`). It can also be removed, unless
execution would then start somewhere else, since a node that it drove becomes an entry.

The parts on which the graphs before and after are alike are the live nodes, for control, and all
nodes that no data from the dead node comes to, for values.
-/

namespace CommandGraph

open Relation

/-- A search finds in a part of a list what it finds in the whole, if that belongs to the part. -/
theorem find?_filter_of_found {α : Type} {l : List α} {keep p : α → Bool}
    (h : ∀ a, l.find? p = some a → keep a) : (l.filter keep).find? p = l.find? p := by
  induction l with
  | nil => rfl
  | cons a l ih =>
    cases hp : p a with
    | true =>
      -- What is found first is kept.
      have hkeep : keep a := h a (List.find?_cons_of_pos hp)
      rw [List.filter_cons_of_pos hkeep, List.find?_cons_of_pos hp, List.find?_cons_of_pos hp]
    | false =>
      have hskip : ¬ p a := by simp [hp]
      rw [List.find?_cons_of_neg hskip] at h ⊢
      rw [← ih h, List.filter_cons]
      split
      · rw [List.find?_cons_of_neg hskip]
      · rfl

/-- The types at which execution starts. -/
theorem Catalog.tag_of_isEntry {tag : String} (h : IsEntry tag) :
    tag = "command_block" ∨ tag = "chat_command" := by
  have hentries : ∀ type ∈ standard.types, type.entry →
      type.tag = "command_block" ∨ type.tag = "chat_command" := by decide
  obtain ⟨type, htype, hentry⟩ := (Option.any_eq_true _ _).1 h
  obtain ⟨hmem, rfl⟩ := find?_eq_some htype
  exact hentries type hmem hentry

namespace Graph

/-- The nodes that control comes to. -/
def live (g : Graph) : Set NodeId :=
  {id | ∃ entry ∈ g.entries, ReflTransGen g.Passes entry id}

/-- The nodes that no data from a node comes to. The node itself is not among them. -/
def apart (g : Graph) (dead : NodeId) : Set NodeId :=
  {id | id ∈ g.ids ∧ ¬ ReflTransGen g.Feeds dead id}

variable {g h : Graph} {dead id next : NodeId} {c : Connection}

theorem ne_of_mem_apart (hid : id ∈ g.apart dead) : id ≠ dead := by
  rintro rfl
  exact hid.2 .refl

/-- Compilation starts at live nodes. -/
theorem live_of_mem_entries (hid : id ∈ g.entries) : id ∈ g.live :=
  ⟨id, hid, .refl⟩

/-- What control passes to is live. -/
theorem live_of_passes (hid : id ∈ g.live) (hp : g.Passes id next) : next ∈ g.live := by
  obtain ⟨entry, hentry, hreach⟩ := hid
  exact ⟨entry, hentry, hreach.tail hp⟩

/-- Live nodes are there. -/
theorem WellFormed.mem_ids_of_live (hwf : g.WellFormed) (hid : id ∈ g.live) : id ∈ g.ids := by
  obtain ⟨entry, hentry, hreach⟩ := hid
  rcases ReflTransGen.cases_tail hreach with rfl | ⟨u, -, hu⟩
  · exact (undriven_of_mem_entries hentry).1
  · exact hwf.mem_ids_of_passes hu

/-- Data for a node apart comes from nodes apart. -/
theorem WellFormed.source_mem_apart (hwf : g.WellFormed) {pin : String} (hid : id ∈ g.apart dead)
    (hpin : pin ≠ "Exec") (hc : g.inbound? id pin = some c) : c.source ∈ g.apart dead := by
  obtain ⟨hmem, rfl, rfl⟩ := inbound?_eq_some hc
  have hdata : c.isExec = false := by
    simpa [Connection.isExec, PinKind.isExec] using mt (hwf.exec_iff_target c hmem).1 hpin
  exact ⟨(hwf.ends_mem c hmem).1, fun hreach => hid.2 (hreach.tail ⟨c, hmem, hdata, rfl, rfl⟩)⟩

/-! ## Changes at a dead node -/

/-- A graph in which all is as in another, but for one node and some connections at it. -/
structure SameBut (dead : NodeId) (g h : Graph) : Prop where
  /-- The other nodes are found as before. -/
  node?_eq : ∀ {id}, id ≠ dead → h.node? id = g.node? id
  /-- The other connections are as before. -/
  connections_eq : ∃ keep : Connection → Bool, h.connections = g.connections.filter keep ∧
    ∀ c, c.source ≠ dead → c.target ≠ dead → keep c
  /-- Control enters the other nodes as before, as far as execution may start at them. -/
  driven : ∀ {id node}, id ≠ dead → g.node? id = some node → Catalog.IsEntry node.tag →
    h.hasInboundExec id = g.hasInboundExec id
  /-- Compilation starts as before. -/
  entries_eq : h.entries = g.entries

/-- A search among the connections finds the same, if it finds none at the node. -/
theorem SameBut.find?_eq (hsame : g.SameBut dead h) {p : Connection → Bool}
    (hfound : ∀ c, g.connections.find? p = some c → c.source ≠ dead ∧ c.target ≠ dead) :
    h.connections.find? p = (g.connections.find? p).map (·.rename fun id => id) := by
  obtain ⟨keep, hconnections, hkeep⟩ := hsame.connections_eq
  rw [hconnections, find?_filter_of_found fun c hc => hkeep c (hfound c hc).1 (hfound c hc).2]
  exact Option.map_id'.symm

/-- A change at a dead node leaves the parts that compilation looks at alike. -/
theorem SameBut.alikeOn (hsame : g.SameBut dead h) (hwf : g.WellFormed)
    (hdead : g.live ⊆ g.apart dead) :
    g.AlikeOn (fun id => id) (g.apart dead) g.live h where
  mem_ids hid := hid.1
  injOn := Set.injOn_id _
  node hid hnode := ⟨_, (hsame.node?_eq (ne_of_mem_apart hid)).trans hnode, rfl, rfl⟩
  -- Each search below finds a connection with both ends in a part that the dead node is not in, so
  -- the connection is still there; and what it finds first it still finds first.
  inbound hid hpin := hsame.find?_eq fun c hc => by
    have hsource := hwf.source_mem_apart hid hpin hc
    obtain ⟨-, rfl, -⟩ := inbound?_eq_some hc
    exact ⟨ne_of_mem_apart hsource, ne_of_mem_apart hid⟩
  source_mem := hwf.source_mem_apart
  driven hid hnode hentry := hsame.driven (ne_of_mem_apart hid) hnode hentry
  control_subset := hdead
  outgoing hid hnode hpin := hsame.find?_eq fun c hc => by
    have htarget := live_of_passes hid (passes_of_outgoing? hnode hpin hc)
    obtain ⟨-, rfl, -⟩ := outgoing?_eq_some hc
    exact ⟨ne_of_mem_apart (hdead hid), ne_of_mem_apart (hdead htarget)⟩
  nextExec hid hnode hrole := hsame.find?_eq fun c hc => by
    have htarget := live_of_passes hid (passes_of_nextExec? hnode hrole hc)
    obtain ⟨-, rfl, -⟩ := nextExec?_eq_some hc
    exact ⟨ne_of_mem_apart (hdead hid), ne_of_mem_apart (hdead htarget)⟩
  passes_mem := live_of_passes
  entries := hsame.entries_eq.trans (List.map_id' _).symm
  entries_mem := live_of_mem_entries

/-- Changing the property values of a node changes nothing else. -/
theorem sameBut_modifyNode (g : Graph) (dead : NodeId)
    (change : Dictionary Json → Dictionary Json) :
    g.SameBut dead
      (g.modifyNode dead fun node => { node with properties := change node.properties }) where
  node?_eq {id} hne := by
    rw [modifyNode, node?_map fun node => by split <;> rfl]
    cases hnode : g.node? id with
    | none => rfl
    | some node => rw [Option.map_some, if_neg ((node?_eq_some hnode).2 ▸ hne)]
  connections_eq := ⟨fun _ => true, (List.filter_true _).symm, fun _ _ _ => rfl⟩
  driven _ _ _ := rfl
  entries_eq := by
    -- Neither a type tag nor a connection has changed.
    refine (entries_eq_map (g := g) ?_ fun _ _ _ => rfl).trans (List.map_id' _)
    refine List.forall₂_map_right_iff.2 (List.forall₂_same.2 fun node _ => ?_)
    dsimp only
    split <;> exact ⟨rfl, rfl⟩

section Removal

variable (hdrives : ∀ c ∈ g.connections, c.source = dead → c.isExec → ∀ node,
  g.node? c.target = some node → ¬ Catalog.IsEntry node.tag)

include hdrives

/-- Control enters as before where execution may start, if it did not come from a removed node. -/
theorem hasInboundExec_remove (nodes : List Node) {node : Node} (hne : id ≠ dead)
    (hnode : g.node? id = some node) (hentry : Catalog.IsEntry node.tag) :
    hasInboundExec { g with nodes, connections := g.connections.filter (!·.touches dead) } id =
      g.hasInboundExec id := by
  rw [hasInboundExec, hasInboundExec, ← List.isSome_find?, ← List.isSome_find?,
    find?_filter_of_found fun c hc => ?_]
  have hmem := List.mem_of_find?_eq_some hc
  obtain ⟨rfl, hexec⟩ : c.target = id ∧ c.isExec := by simpa using List.find?_some hc
  have hsource : c.source ≠ dead := fun heq => hdrives c hmem heq hexec node hnode hentry
  simp [Connection.touches, hsource, hne]

/-- Compilation starts as before, if it did not start at a removed node. -/
theorem WellFormed.entries_remove (hwf : g.WellFormed) (hquiet : dead ∉ g.entries) :
    entries { g with
      nodes := g.nodes.filter (·.id != dead)
      connections := g.connections.filter (!·.touches dead) } = g.entries := by
  rw [entries, entries, List.filter_filter]
  congr 1
  refine List.filter_congr fun node hnode => ?_
  by_cases hid : node.id = dead
  · -- The node itself is gone, and it was no entry.
    have hnone : (node.type?.any (·.entry) && !g.hasInboundExec node.id) = false := by
      by_contra hentry
      refine hquiet (hid ▸ List.mem_map_of_mem (List.mem_filter.2 ⟨hnode, ?_⟩))
      simpa using hentry
    simp [hid, hid ▸ hnone]
  · -- At any other node of an entry type control enters as before.
    cases hentry : node.type?.any (·.entry) with
    | false => simp
    | true =>
      have hfound := hwf.node?_eq_some_iff.2 ⟨hnode, rfl⟩
      simp [hasInboundExec_remove hdrives _ hid hfound hentry, hid]

/-- Removing a node at which compilation does not start changes nothing else, if the node drives
none at which execution may start. -/
theorem WellFormed.sameBut_remove (hwf : g.WellFormed) (hquiet : dead ∉ g.entries) :
    g.SameBut dead { g with
      nodes := g.nodes.filter (·.id != dead)
      connections := g.connections.filter (!·.touches dead) } where
  node?_eq hne := find?_filter_of_found fun node hnode => by
    obtain rfl := (node?_eq_some hnode).2
    simpa using hne
  connections_eq := by
    refine ⟨fun c => !c.touches dead, rfl, fun c hsource htarget => ?_⟩
    simp [Connection.touches, hsource, htarget]
  driven := hasInboundExec_remove hdrives _
  entries_eq := hwf.entries_remove hdrives hquiet

end Removal

end Graph

/-- Live nodes are visited. -/
theorem Compiler.visits_pos (compiler : Compiler) {g : Graph} (hwf : g.WellFormed) {v : NodeId}
    (hv : v ∈ g.live) : 0 < (compiler.resolver g).visits v := by
  obtain ⟨entry, hentry, hreach⟩ := hv
  obtain ⟨path, hpath⟩ := Graph.exists_leads hreach
  have hprod : 1 ≤ ((g.loopsAround path).map (compiler.resolver g).iterations).prod :=
    List.one_le_prod_of_one_le (List.forall_mem_map.2 fun node _ =>
      ((compiler.resolver g).iterations_bounds node).1)
  rwa [compiler.visits_eq hwf hentry hpath]

/-- No data from a node comes to live nodes, if compilation visits neither the node nor any that its
data comes to. -/
theorem Compiler.live_subset_apart (compiler : Compiler) {g : Graph} (hwf : g.WellFormed)
    {dead : NodeId} (hdead : (compiler.resolver g).visits dead = 0)
    (hbelow : ∀ v, TransGen g.Feeds dead v → (compiler.resolver g).visits v = 0) :
    g.live ⊆ g.apart dead := by
  intro v hv
  have hpos := compiler.visits_pos hwf hv
  refine ⟨hwf.mem_ids_of_live hv, fun hreach => ?_⟩
  rcases reflTransGen_iff_eq_or_transGen.1 hreach with rfl | hreach
  · exact absurd hdead (Nat.ne_of_gt hpos)
  · exact absurd (hbelow v hreach) (Nat.ne_of_gt hpos)

/-- Dead nodes have no influence. A node that compilation does not visit, and from which no data
comes to a visited node, can have any property set to any value, and the graph compiles to the same
lines. It can also be removed, unless it drives a command block or chat command. -/
theorem Session.compileLines_of_dead (edits : List Edit)
    (hplaced : (run edits).placed < UInt32.size) (dead : NodeId) :
    let g := (run edits).graph
    let r := Compiler.standard.resolver g
    dead ∈ g.ids → r.visits dead = 0 → (∀ v, TransGen g.Feeds dead v → r.visits v = 0) →
    (∀ name value, ∃ g', g.setProperty dead name value = .ok g' ∧
      Compiler.standard.compileLines g' = Compiler.standard.compileLines g) ∧
    ((∀ c ∈ g.connections, c.source = dead → c.isExec → ∀ node, g.node? c.target = some node →
        node.tag ≠ "command_block" ∧ node.tag ≠ "chat_command") →
      ∃ node g', g.removeNode? dead = some (node, g') ∧
        Compiler.standard.compileLines g' = Compiler.standard.compileLines g) := by
  intro g r hmem hdead hbelow
  have hwf : g.WellFormed := wellFormed_run hplaced
  have hapart : g.live ⊆ g.apart dead := Compiler.standard.live_subset_apart hwf hdead hbelow
  refine ⟨fun name value => ?_, fun hdrives => ?_⟩
  · refine ⟨_, Graph.editNode_of_mem_ids hmem _, ?_⟩
    have hsame := g.sameBut_modifyNode dead (·.insert name value)
    exact (hsame.alikeOn hwf hapart).compileLines_eq Compiler.local_standard hwf
      (hwf.map_nodes fun node => by split <;> rfl)
  · obtain ⟨node, hnode⟩ := Graph.exists_node?_of_mem_ids hmem
    refine ⟨node, _, by rw [Graph.removeNode?, hnode]; rfl, ?_⟩
    -- An entry would be visited.
    have hquiet : dead ∉ g.entries := fun hentry =>
      Graph.ne_of_mem_apart (hapart (Graph.live_of_mem_entries hentry)) rfl
    have hsame := hwf.sameBut_remove (fun c hc hsource hexec node hnode hentry => by
      obtain ⟨hblock, hchat⟩ := hdrives c hc hsource hexec node hnode
      exact (Catalog.tag_of_isEntry hentry).elim hblock hchat) hquiet
    exact (hsame.alikeOn hwf hapart).compileLines_eq Compiler.local_standard hwf (hwf.remove dead)

/-- A command beside the way of control: what drives it hands control to another node first, it
takes the text that this node takes, and both what it drives and what it feeds are dead too. -/
def Session.deadBranch : List Edit :=
  [.add "chat_command" {}, .add "say" {}, .add "text" {}, .add "say" {}, .add "say" {},
    .add "execute" {}, .set ⟨2⟩ "value" ⟨.string "hi", trivial⟩, .connect ⟨0⟩ "Exec" ⟨1⟩ "Exec",
    .connect ⟨0⟩ "Exec" ⟨3⟩ "Exec", .connect ⟨3⟩ "Exec" ⟨4⟩ "Exec",
    .connect ⟨2⟩ "String" ⟨1⟩ "Message", .connect ⟨2⟩ "String" ⟨3⟩ "Message",
    .connect ⟨3⟩ "Command" ⟨5⟩ "Run"]

/-- The command can be changed and removed, and the rest compiles to what it compiled to. -/
theorem Session.compileLines_of_dead_deadBranch :
    let g := (run deadBranch).graph
    let r := Compiler.standard.resolver g
    (run deadBranch).placed < UInt32.size ∧ ⟨3⟩ ∈ g.ids ∧ r.visits ⟨3⟩ = 0 ∧
      (∀ v, TransGen g.Feeds ⟨3⟩ v → r.visits v = 0) ∧ g.connections.length = 6 ∧
      (∃ g', g.setProperty ⟨3⟩ "message" (.string "bye") = .ok g' ∧
        Compiler.standard.compileLines g' = ["# In chat", "say hi"]) ∧
      ∃ node g', g.removeNode? ⟨3⟩ = some (node, g') ∧
        Compiler.standard.compileLines g' = ["# In chat", "say hi"] := by
  have hplaced : (run deadBranch).placed < UInt32.size := by decide
  have hmem : ⟨3⟩ ∈ (run deadBranch).graph.ids := by decide
  have hdead : (Compiler.standard.resolver (run deadBranch).graph).visits ⟨3⟩ = 0 := by
    decide +kernel
  -- Data goes from the command to one node, and from there nowhere.
  have hfeeds : ∀ c ∈ (run deadBranch).graph.connections, c.isExec = false →
      c.source = ⟨3⟩ ∨ c.source = ⟨5⟩ → c.target = ⟨5⟩ := by decide
  have hbelow : ∀ v, TransGen (run deadBranch).graph.Feeds ⟨3⟩ v →
      (Compiler.standard.resolver (run deadBranch).graph).visits v = 0 := by
    intro v hv
    have hfive : v = ⟨5⟩ := by
      induction hv with
      | single hstep =>
        obtain ⟨c, hc, hdata, hsource, rfl⟩ := hstep
        exact hfeeds c hc hdata (.inl hsource)
      | tail _ hstep ih =>
        obtain ⟨c, hc, hdata, hsource, rfl⟩ := hstep
        exact hfeeds c hc hdata (.inr (hsource.trans ih))
    rw [hfive]
    decide +kernel
  have hlines : Compiler.standard.compileLines (run deadBranch).graph =
      ["# In chat", "say hi"] := by decide +kernel
  obtain ⟨hset, hremove⟩ := compileLines_of_dead deadBranch hplaced ⟨3⟩ hmem hdead hbelow
  rw [hlines] at hremove
  refine ⟨hplaced, hmem, hdead, hbelow, by decide, ?_, hremove ?_⟩
  · obtain ⟨g', hg', hsame⟩ := hset "message" (.string "bye")
    exact ⟨g', hg', hsame.trans hlines⟩
  · have hfour : ∀ c ∈ (run deadBranch).graph.connections, c.source = ⟨3⟩ → c.isExec →
        ((run deadBranch).graph.node? c.target).map (·.tag) = some "say" := by decide
    intro c hc hsource hexec node hnode
    have htag := hfour c hc hsource hexec
    rw [hnode, Option.map_some, Option.some.injEq] at htag
    rw [htag]
    decide

end CommandGraph
