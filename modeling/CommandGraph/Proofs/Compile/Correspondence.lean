import CommandGraph.Proofs.Compile.Similarity

/-!
# What compilation depends on

Two graphs correspond (`Graph.Corresponds`) if they have the same nodes in the same order, up to
identities and positions, and the same connections, up to the order of those that leave different
pins. Corresponding graphs compile to the same lines
(`Session.compileLines_eq_of_corresponds`).

Each search among the connections has its own reason not to depend on their order. An input pin has
one connection at most, so no other can be found first. At an output pin the order is the same.
Control leaves a node without a role of its own by whatever pin comes first, but in a well-typed
graph such a node has one pin for control (`Graph.WellTyped.nextExec?_eq_outgoing?`). Whether
control enters a node is not a matter of order at all.
-/

namespace CommandGraph

/-- Nodes that are neither loop nor condition nor sequence have one output pin for control. -/
theorem Catalog.name_of_exec_output : ∀ type ∈ standard.types,
    type.tag ≠ "loop" → type.tag ≠ "if_condition" → type.tag ≠ "sequence" →
    ∀ pin ∈ type.outputs, pin.kind = .exec → pin.name = "Exec" := by
  decide

namespace Graph

variable {g : Graph}

/-- An output pin that has a kind is declared by the type of its node. -/
theorem exists_output_of_pinKind {id : NodeId} {node : Node} {name : String} {kind : PinKind}
    (hnode : g.node? id = some node) (h : g.pinKind id .output name = .ok kind) :
    ∃ type, node.type? = some type ∧ ∃ pin ∈ type.outputs, pin.name = name ∧ pin.kind = kind := by
  obtain ⟨type, htype, hpin⟩ := pinKind_eq_ok_iff.1 h
  rw [type?, hnode] at htype
  exact ⟨type, htype, hpin⟩

/-- A node without a role of its own hands control on behind its one pin for it. -/
theorem WellTyped.nextExec?_eq_outgoing? (htyped : g.WellTyped) (hwf : g.WellFormed) {id : NodeId}
    {node : Node} (hnode : g.node? id = some node) (hrole : node.role = .plain) :
    g.nextExec? id = g.outgoing? id "Exec" := by
  refine List.find?_congr fun c hc => ?_
  rw [Bool.eq_iff_iff]
  simp only [Connection.leaves, Connection.isExec, PinKind.isExec, Bool.and_eq_true, beq_iff_eq,
    decide_eq_true_eq]
  refine and_congr_right fun hsource => ⟨fun hexec => ?_, fun hpin => ?_⟩
  -- The pin is declared by the node's own type, which is none of the three with more such pins.
  · obtain ⟨type, htype, pin, hpin, hname, hkind⟩ :=
      exists_output_of_pinKind hnode (hsource ▸ htyped.output_kind c hc)
    obtain ⟨hmem, htag⟩ := Catalog.find?_eq_some htype
    obtain ⟨hloop, hcondition, hsequence⟩ := htag ▸ Node.tag_of_role_plain hrole
    rw [← hname]
    exact Catalog.name_of_exec_output type hmem hloop hcondition hsequence pin hpin
      (hkind.trans hexec)
  · exact (hwf.exec_iff_source c hc).2 (by rw [hpin]; decide)

/-- A search finds the one connection that enters an input pin. -/
theorem WellFormed.inbound?_eq_some_iff (h : g.WellFormed) {id : NodeId} {pin : String}
    {c : Connection} :
    g.inbound? id pin = some c ↔ c ∈ g.connections ∧ c.target = id ∧ c.targetPin = pin := by
  refine ⟨inbound?_eq_some, ?_⟩
  rintro ⟨hc, rfl, rfl⟩
  obtain ⟨d, hd⟩ : ∃ d, g.inbound? c.target c.targetPin = some d := by
    refine Option.isSome_iff_exists.1 (List.find?_isSome.2 ⟨c, hc, ?_⟩)
    simp [Connection.enters]
  obtain ⟨hdmem, htarget, hpin⟩ := inbound?_eq_some hd
  rw [hd, h.connection_eq hdmem hc htarget hpin]

/-! ## Corresponding graphs -/

/-- Two graphs have the same nodes and connections, under other identities. -/
structure Corresponds (ρ : NodeId → NodeId) (g h : Graph) : Prop where
  /-- The nodes stand in the same order, with the same types and property values. -/
  nodes : List.Forall₂ (fun node node' => node'.id = ρ node.id ∧ node'.tag = node.tag ∧
    node'.properties = node.properties) g.nodes h.nodes
  /-- The connections are the same, in some order. -/
  connections : h.connections.Perm (g.connections.map (·.rename ρ))
  /-- The connections that leave one pin are in the same order. -/
  order : ∀ c ∈ g.connections, h.connections.filter (·.leaves (ρ c.source) c.sourcePin) =
    (g.connections.filter (·.leaves c.source c.sourcePin)).map (·.rename ρ)

namespace Corresponds

variable {h : Graph} {ρ : NodeId → NodeId} (hgh : g.Corresponds ρ h)

include hgh

/-- The identities are renamed one by one. -/
theorem ids_eq : h.ids = g.ids.map ρ := by
  have hsame := hgh.nodes
  rw [ids, ids, List.map_map]
  generalize g.nodes = nodes, h.nodes = nodes' at hsame
  induction hsame with
  | nil => rfl
  | cons hnode _ ih => rw [List.map_cons, List.map_cons, ih, hnode.1, Function.comp_apply]

/-- Different nodes stay different. -/
theorem injOn (hh : h.WellFormed) : Set.InjOn ρ {id | id ∈ g.ids} := by
  have hnodup := hh.nodup_ids
  rw [hgh.ids_eq] at hnodup
  exact fun _ ha _ hb => List.inj_on_of_nodup_map hnodup ha hb

/-- A node is found again. -/
theorem node (hh : h.WellFormed) {id : NodeId} {node : Node} (hnode : g.node? id = some node) :
    ∃ node', h.node? (ρ id) = some node' ∧ node.Alike node' := by
  obtain ⟨hmem, rfl⟩ := node?_eq_some hnode
  obtain ⟨i, hi, rfl⟩ := List.mem_iff_getElem.1 hmem
  have hi' : i < h.nodes.length := hgh.nodes.length_eq ▸ hi
  obtain ⟨hid, htag, hproperties⟩ := hgh.nodes.get hi hi'
  exact ⟨h.nodes[i], hh.node?_eq_some_iff.2 ⟨List.getElem_mem hi', hid⟩, htag, hproperties⟩

/-- The connections of the second graph are those of the first. -/
theorem mem_connections {d : Connection} :
    d ∈ h.connections ↔ ∃ c ∈ g.connections, c.rename ρ = d := by
  rw [hgh.connections.mem_iff, List.mem_map]

/-- An input pin is fed by the same connection, since there is no other. -/
theorem inbound?_eq (hg : g.WellFormed) (hh : h.WellFormed) {id : NodeId} (hid : id ∈ g.ids)
    (pin : String) : h.inbound? (ρ id) pin = (g.inbound? id pin).map (·.rename ρ) := by
  refine Option.ext fun d => ?_
  rw [hh.inbound?_eq_some_iff, hgh.mem_connections, Option.map_eq_some_iff]
  constructor
  · rintro ⟨⟨c, hc, rfl⟩, htarget, hpin⟩
    have hsame := hgh.injOn hh (hg.ends_mem c hc).2 hid htarget
    exact ⟨c, hg.inbound?_eq_some_iff.2 ⟨hc, hsame, hpin⟩, rfl⟩
  · rintro ⟨c, hc, rfl⟩
    obtain ⟨hmem, rfl, rfl⟩ := hg.inbound?_eq_some_iff.1 hc
    exact ⟨⟨c, hmem, rfl⟩, rfl, rfl⟩

/-- An output pin is left first by the same connection. -/
theorem outgoing?_eq (hg : g.WellFormed) (hh : h.WellFormed) {id : NodeId} (hid : id ∈ g.ids)
    (pin : String) : h.outgoing? (ρ id) pin = (g.outgoing? id pin).map (·.rename ρ) := by
  cases hfound : g.outgoing? id pin with
  | some c =>
    obtain ⟨hc, rfl, rfl⟩ := outgoing?_eq_some hfound
    rw [← hfound, outgoing?, outgoing?, ← List.head?_filter, ← List.head?_filter, hgh.order c hc,
      List.head?_map]
  | none =>
    -- What left the pin in the second graph would leave it in the first.
    refine List.find?_eq_none.2 fun d hd hleaves => ?_
    obtain ⟨c, hc, rfl⟩ := hgh.mem_connections.1 hd
    obtain ⟨hsource, hpin⟩ : ρ c.source = ρ id ∧ c.sourcePin = pin := by
      simpa [Connection.leaves, Connection.rename] using hleaves
    have hsame := hgh.injOn hh (hg.ends_mem c hc).1 hid hsource
    exact List.find?_eq_none.1 hfound c hc (by simp [Connection.leaves, hsame, hpin])

/-- Control enters the same nodes. -/
theorem hasInboundExec_eq (hg : g.WellFormed) (hh : h.WellFormed) {id : NodeId}
    (hid : id ∈ g.ids) : h.hasInboundExec (ρ id) = g.hasInboundExec id := by
  have hrenamed : (g.rename ρ g.nextIndex).hasInboundExec (ρ id) = g.hasInboundExec id :=
    hasInboundExec_rename (hgh.injOn hh) hid hg
  rw [← hrenamed]
  exact hgh.connections.any_eq

/-- Corresponding graphs are alike. -/
theorem alike (hg : g.WellFormed) (hh : h.WellFormed) (hgtyped : g.WellTyped)
    (hhtyped : h.WellTyped) : g.Alike ρ h where
  injOn := hgh.injOn hh
  node := hgh.node hh
  inbound := hgh.inbound?_eq hg hh
  outgoing := hgh.outgoing?_eq hg hh
  nextExec hnode hrole := by
    obtain ⟨node', hnode', hagree⟩ := hgh.node hh hnode
    have hrole' : node'.role = .plain := by rw [← hrole, Node.role, Node.role, hagree.tag]
    rw [hgtyped.nextExec?_eq_outgoing? hg hnode hrole,
      hhtyped.nextExec?_eq_outgoing? hh hnode' hrole',
      hgh.outgoing?_eq hg hh (mem_ids_of_node? hnode)]
  driven := hgh.hasInboundExec_eq hg hh
  entries := entries_eq_map (hgh.nodes.imp fun _ _ hnode => ⟨hnode.1, hnode.2.1⟩)
    fun node hnode _ => hgh.hasInboundExec_eq hg hh (List.mem_map_of_mem hnode)

end Corresponds

end Graph

/-- Compilation depends on types, property values and connections only. Two sessions without
overwritten type tags may place their nodes anywhere, under whatever identities, and make their
connections in different orders: if their graphs correspond, these compile to the same lines. -/
theorem Session.compileLines_eq_of_corresponds (edits edits' : List Edit)
    (hretype : ∀ e ∈ edits, e.isRetype = false) (hretype' : ∀ e ∈ edits', e.isRetype = false)
    (hplaced : (run edits).placed < UInt32.size) (hplaced' : (run edits').placed < UInt32.size)
    (ρ : NodeId → NodeId) (h : (run edits).graph.Corresponds ρ (run edits').graph) :
    Compiler.standard.compileLines (run edits').graph =
      Compiler.standard.compileLines (run edits).graph := by
  have hg : (run edits).graph.WellFormed := wellFormed_run hplaced
  have hh : (run edits').graph.WellFormed := wellFormed_run hplaced'
  have halike := h.alike hg hh (wellTyped_run hretype hplaced) (wellTyped_run hretype' hplaced')
  exact halike.compileLines_eq Compiler.local_standard hg hh

/-- A sequence of two commands that write the same text, connected from front to back. Control would
also go to a third command, but the sequence is connected first. -/
def Session.sharedText : List Edit :=
  [.add "chat_command" {}, .add "sequence" {}, .add "say" {}, .add "say" {}, .add "text" {},
    .add "say" {}, .set ⟨4⟩ "value" ⟨.string "hi", trivial⟩, .connect ⟨0⟩ "Exec" ⟨1⟩ "Exec",
    .connect ⟨0⟩ "Exec" ⟨5⟩ "Exec", .connect ⟨1⟩ "Then 0" ⟨2⟩ "Exec",
    .connect ⟨1⟩ "Then 2" ⟨3⟩ "Exec", .connect ⟨4⟩ "String" ⟨2⟩ "Message",
    .connect ⟨4⟩ "String" ⟨3⟩ "Message"]

/-- The same behind a gap, with one node elsewhere, and connected from back to front, except that
the connections at one pin are in the order in which they were. -/
def Session.sharedTextBehindGap : List Edit :=
  [.add "loop" {}, .add "chat_command" {}, .add "sequence" {}, .add "say" ⟨.one, .zero⟩,
    .add "say" {}, .remove ⟨0⟩, .add "text" {}, .add "say" {},
    .connect ⟨5⟩ "String" ⟨3⟩ "Message", .connect ⟨5⟩ "String" ⟨4⟩ "Message",
    .connect ⟨2⟩ "Then 2" ⟨4⟩ "Exec", .connect ⟨2⟩ "Then 0" ⟨3⟩ "Exec",
    .connect ⟨1⟩ "Exec" ⟨2⟩ "Exec", .connect ⟨1⟩ "Exec" ⟨6⟩ "Exec",
    .set ⟨5⟩ "value" ⟨.string "hi", trivial⟩]

/-- The two sessions compile to the same lines, in the order of the sequence's pins. -/
theorem Session.compileLines_eq_of_corresponds_sharedText :
    let g := (run sharedText).graph
    let h := (run sharedTextBehindGap).graph
    (∀ e ∈ sharedText, e.isRetype = false) ∧ (∀ e ∈ sharedTextBehindGap, e.isRetype = false) ∧
      (run sharedText).placed < UInt32.size ∧ (run sharedTextBehindGap).placed < UInt32.size ∧
      g.Corresponds (fun id => ⟨id.index + 1⟩) h ∧
      h.connections ≠ g.connections.map (·.rename fun id => ⟨id.index + 1⟩) ∧
      Compiler.standard.compileLines h = ["# In chat", "say hi", "say hi"] := by
  have hretype : ∀ e ∈ sharedText, e.isRetype = false := by decide
  have hretype' : ∀ e ∈ sharedTextBehindGap, e.isRetype = false := by decide
  have hplaced : (run sharedText).placed < UInt32.size := by decide
  have hplaced' : (run sharedTextBehindGap).placed < UInt32.size := by decide
  have hcorresponds : (run sharedText).graph.Corresponds (fun id => ⟨id.index + 1⟩)
      (run sharedTextBehindGap).graph := by
    refine ⟨?_, by decide, by decide⟩
    exact .cons ⟨rfl, rfl, rfl⟩ (.cons ⟨rfl, rfl, rfl⟩ (.cons ⟨rfl, rfl, rfl⟩
      (.cons ⟨rfl, rfl, rfl⟩ (.cons ⟨rfl, rfl, rfl⟩ (.cons ⟨rfl, rfl, rfl⟩ .nil)))))
  refine ⟨hretype, hretype', hplaced, hplaced', hcorresponds, by decide, ?_⟩
  rw [compileLines_eq_of_corresponds sharedText sharedTextBehindGap hretype hretype' hplaced
    hplaced' _ hcorresponds]
  decide +kernel

end CommandGraph
