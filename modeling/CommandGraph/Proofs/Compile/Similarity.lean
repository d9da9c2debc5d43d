import CommandGraph.Proofs.Compile.Locality
import CommandGraph.Proofs.Compile.Unfolding
import Mathlib.Data.List.Find
import Mathlib.Data.Set.Function

/-!
# Graphs that compile alike

Compilation looks at parts of a graph only: it follows control through the nodes behind the entries,
and it makes the values of these nodes out of those that data comes from. Two graphs are alike on
such parts under a renaming of the nodes (`Graph.AlikeOn`) if every search that compilation makes
there finds the renamed result in the other graph. Then a question about a renamed node has the same
answer (`Graph.AlikeOn.reply_eq`), the tree behind it unfolds to the same lines
(`Resolver.Unfolds.rename`), and both graphs compile to the same lines
(`Graph.AlikeOn.compileLines_eq`), for all scripts that are local. What is outside of the parts may
differ in any way.

Where all searches agree (`Graph.Alike`), the part is the whole graph. In particular a graph is like
itself under other identities (`Graph.WellFormed.alike_rename`), so identities do not matter.
-/

namespace CommandGraph

/-- The output pins behind which control is followed. A node without a role of its own hands control
on by any pin. -/
def Role.pins : Role → List String
  | .loop => ["Loop Body", "Completed"]
  | .condition => ["True", "False"]
  | .sequence => ["Then 0", "Then 1", "Then 2"]
  | .plain => []

/-- Control passes behind these pins. -/
theorem Graph.passes_of_outgoing? {g : Graph} {id : NodeId} {node : Node} {pin : String}
    {c : Connection} (hnode : g.node? id = some node) (hpin : pin ∈ node.role.pins)
    (hc : g.outgoing? id pin = some c) : g.Passes id c.target := by
  obtain rfl := (node?_eq_some hnode).2
  have hfound : c ∈ node.role.pins.filterMap (g.outgoing? node.id) :=
    List.mem_filterMap.2 ⟨pin, hpin, hc⟩
  refine ⟨node, hnode, c, ?_, rfl⟩
  unfold followed
  split <;> simp_all [Role.pins]

/-- Control passes behind the first connection that carries it away from a plain node. -/
theorem Graph.passes_of_nextExec? {g : Graph} {id : NodeId} {node : Node} {c : Connection}
    (hnode : g.node? id = some node) (hrole : node.role = .plain)
    (hc : g.nextExec? id = some c) : g.Passes id c.target := by
  refine ⟨node, hnode, c, ?_, rfl⟩
  simp [followed, hrole, (node?_eq_some hnode).2, hc]

/-! ## Alike graphs -/

variable (ρ : NodeId → NodeId)

/-- A connection between nodes under other identities. -/
def Connection.rename (c : Connection) : Connection :=
  { c with source := ρ c.source, target := ρ c.target }

/-- A question about a node under another identity. -/
def Query.rename : Query → Query
  | .resolve id pin => .resolve (ρ id) pin
  | .output id pin => .output (ρ id) pin
  | .synthesize id => .synthesize (ρ id)

/-- A question is about a node from a part of the graph, and not about the pin through which control
enters. -/
def Query.Within (values : Set NodeId) : Query → Prop
  | .resolve id pin => id ∈ values ∧ pin ≠ "Exec"
  | .output id _ | .synthesize id => id ∈ values

/-- What compilation finds in a part of one graph it finds in the other, where the nodes have other
identities. There is a part in which values are made, and within it one that control is followed
through. -/
structure Graph.AlikeOn (values control : Set NodeId) (g h : Graph) : Prop where
  /-- The parts consist of nodes. -/
  mem_ids : ∀ {id}, id ∈ values → id ∈ g.ids
  /-- Different nodes stay different. -/
  injOn : values.InjOn ρ
  /-- A node is found again, and agrees with what it was. -/
  node : ∀ {id node}, id ∈ values → g.node? id = some node →
    ∃ node', h.node? (ρ id) = some node' ∧ node.Alike node'
  /-- An input pin for data is fed by the same connection. -/
  inbound : ∀ {id pin}, id ∈ values → pin ≠ "Exec" →
    h.inbound? (ρ id) pin = (g.inbound? id pin).map (·.rename ρ)
  /-- Data comes from within the part. -/
  source_mem : ∀ {id pin c}, id ∈ values → pin ≠ "Exec" → g.inbound? id pin = some c →
    c.source ∈ values
  /-- Control enters the same nodes, as far as execution may start at them. -/
  driven : ∀ {id node}, id ∈ values → g.node? id = some node → Catalog.IsEntry node.tag →
    h.hasInboundExec (ρ id) = g.hasInboundExec id
  /-- Values are made of all nodes that control is followed through. -/
  control_subset : control ⊆ values
  /-- An output pin behind which control is followed is left first by the same connection. -/
  outgoing : ∀ {id node pin}, id ∈ control → g.node? id = some node → pin ∈ node.role.pins →
    h.outgoing? (ρ id) pin = (g.outgoing? id pin).map (·.rename ρ)
  /-- Control leaves a plain node through the same connection. -/
  nextExec : ∀ {id node}, id ∈ control → g.node? id = some node → node.role = .plain →
    h.nextExec? (ρ id) = (g.nextExec? id).map (·.rename ρ)
  /-- Control stays within the part. -/
  passes_mem : ∀ {id next}, id ∈ control → g.Passes id next → next ∈ control
  /-- Compilation starts at the same nodes, in the same order. -/
  entries : h.entries = g.entries.map ρ
  /-- Compilation starts within the part. -/
  entries_mem : ∀ {entry}, entry ∈ g.entries → entry ∈ control

variable {ρ} {values control : Set NodeId} {compiler : Compiler} {g h : Graph}

/-! ## Answers -/

namespace Graph.AlikeOn

variable (halike : g.AlikeOn ρ values control h)

include halike

/-- Renaming brings no node under way. -/
theorem notMem_map {id : NodeId} {busy : List NodeId} (hmem : id ∈ values)
    (hbusy : ∀ other ∈ busy, other ∈ values) (hid : id ∉ busy) : ρ id ∉ busy.map ρ := by
  intro hrenamed
  obtain ⟨other, hother, heq⟩ := List.mem_map.1 hrenamed
  exact hid (halike.injOn (hbusy other hother) hmem heq ▸ hother)

/-- The resolvers find the same connection into an input pin. -/
theorem resolver_inbound? {id : NodeId} (hmem : id ∈ values) {pin : String} (hpin : pin ≠ "Exec")
    {found : Option Connection} (hfound : (compiler.resolver g).wiring.inbound? id pin = found) :
    (compiler.resolver h).wiring.inbound? (ρ id) pin = found.map (·.rename ρ) := by
  rw [← hfound, compiler.resolver_inbound?, compiler.resolver_inbound?, halike.inbound hmem hpin]

/-- The scripts of a node see the same in both graphs. -/
theorem view {id : NodeId} {node node' : Node} (hmem : id ∈ values) (hnode : g.node? id = some node)
    (hnode' : h.node? (ρ id) = some node') (hagree : node.Alike node') :
    ((compiler.resolver g).view node).Alike (Catalog.IsEntry node.tag)
      ((compiler.resolver h).view node') where
  node := hagree
  driven hlooks := by
    change (compiler.resolver h).wiring.hasInboundExec node'.id =
      (compiler.resolver g).wiring.hasInboundExec node.id
    rw [compiler.resolver_hasInboundExec, compiler.resolver_hasInboundExec,
      (Graph.node?_eq_some hnode).2, (Graph.node?_eq_some hnode').2,
      halike.driven hmem hnode hlooks]

/-- The script for the values of a node does the same in both graphs. -/
theorem mirrors_producer (hlocal : compiler.Local) {id : NodeId} {node node' : Node}
    {script : Producer} (hmem : id ∈ values) (hnode : g.node? id = some node)
    (hnode' : h.node? (ρ id) = some node') (hagree : node.Alike node')
    (hscript : compiler.producer? node.tag = some script) (pin : String) :
    Script.Mirrors id (ρ id) (script ((compiler.resolver g).view node) pin)
      (script ((compiler.resolver h).view node') pin) := by
  rw [← (Graph.node?_eq_some hnode').2]
  obtain rfl := (Graph.node?_eq_some hnode).2
  exact hlocal.producer hscript _ _ pin (halike.view hmem hnode hnode' hagree)

/-- The script for the command of a node does the same in both graphs. -/
theorem mirrors_synthesizer (hlocal : compiler.Local) {id : NodeId} {node node' : Node}
    {script : Synthesizer} (hmem : id ∈ values) (hnode : g.node? id = some node)
    (hnode' : h.node? (ρ id) = some node') (hagree : node.Alike node')
    (hscript : compiler.synthesizer? node.tag = some script) :
    Script.Mirrors id (ρ id) (script ((compiler.resolver g).view node))
      (script ((compiler.resolver h).view node')) := by
  rw [← (Graph.node?_eq_some hnode').2]
  obtain rfl := (Graph.node?_eq_some hnode).2
  exact hlocal.synthesizer hscript _ _ (halike.view hmem hnode hnode' hagree)

end Graph.AlikeOn

namespace Resolver

-- Both recursions follow the derivation in one graph and build the same derivation in the other.
-- All nodes on the way are in the part where the renaming keeps them apart.
mutual

/-- A question about a renamed node has the same answer. -/
theorem Answers.rename (hlocal : compiler.Local) (halike : g.AlikeOn ρ values control h)
    {busy : List NodeId} {q : Query} {text : String} :
    (compiler.resolver g).Answers busy q text → q.Within values → (∀ id ∈ busy, id ∈ values) →
    (compiler.resolver h).Answers (busy.map ρ) (q.rename ρ) text
  -- The nodes that are asked about are there, in both graphs.
  | .resolve_absent hnode, ⟨hmem, _⟩, _ | .output_absent hnode, hmem, _
  | .synthesize_absent hnode, hmem, _ => by
    obtain ⟨node, hsome⟩ := Graph.exists_node?_of_mem_ids (halike.mem_ids hmem)
    cases hsome.symm.trans hnode
  | @Answers.resolve_connected _ _ id pin _ _ c hnode hc hsource, ⟨hmem, hpin⟩, hbusy => by
    obtain ⟨node', hnode', -⟩ := halike.node hmem hnode
    have hfound : g.inbound? id pin = some c := by rw [← compiler.resolver_inbound?, hc]
    exact .resolve_connected hnode' (halike.resolver_inbound? hmem hpin hc)
      (hsource.rename hlocal halike (halike.source_mem hmem hpin hfound) hbusy)
  | .resolve_property hnode hc, ⟨hmem, hpin⟩, _ => by
    obtain ⟨node', hnode', hagree⟩ := halike.node hmem hnode
    rw [← hagree.propertyText]
    exact .resolve_property hnode' (halike.resolver_inbound? hmem hpin hc)
  | .output_command hnode hpin hcommand, hmem, hbusy => by
    obtain ⟨node', hnode', hagree⟩ := halike.node hmem hnode
    rw [← hagree.type?] at hpin
    exact .output_command hnode' hpin (hcommand.rename hlocal halike hmem hbusy)
  | .output_busy hnode hpin hid, hmem, _ => by
    obtain ⟨node', hnode', hagree⟩ := halike.node hmem hnode
    rw [← hagree.type?] at hpin
    exact .output_busy hnode' hpin (List.mem_map_of_mem hid)
  | .output_property hnode hpin hid hscript, hmem, hbusy => by
    obtain ⟨node', hnode', hagree⟩ := halike.node hmem hnode
    rw [← hagree.type?] at hpin
    rw [← hagree.tag] at hscript
    rw [← hagree.propertyText]
    exact .output_property hnode' hpin (halike.notMem_map hmem hbusy hid) hscript
  -- The scripts mirror each other, and run with the renamed node under way.
  | .output_script hnode hpin hid hscript hrun, hmem, hbusy => by
    obtain ⟨node', hnode', hagree⟩ := halike.node hmem hnode
    have hruns := hrun.rename hlocal halike
      (halike.mirrors_producer hlocal hmem hnode hnode' hagree hscript _) hmem
      (List.forall_mem_cons.2 ⟨hmem, hbusy⟩)
    rw [← hagree.type?] at hpin
    rw [← hagree.tag] at hscript
    exact .output_script hnode' hpin (halike.notMem_map hmem hbusy hid) hscript hruns
  | .synthesize_busy hnode hid, hmem, _ => by
    obtain ⟨node', hnode', -⟩ := halike.node hmem hnode
    exact .synthesize_busy hnode' (List.mem_map_of_mem hid)
  | .synthesize_silent hnode hid hscript, hmem, hbusy => by
    obtain ⟨node', hnode', hagree⟩ := halike.node hmem hnode
    rw [← hagree.tag] at hscript
    exact .synthesize_silent hnode' (halike.notMem_map hmem hbusy hid) hscript
  | .synthesize_script hnode hid hscript hrun, hmem, hbusy => by
    obtain ⟨node', hnode', hagree⟩ := halike.node hmem hnode
    have hruns := hrun.rename hlocal halike
      (halike.mirrors_synthesizer hlocal hmem hnode hnode' hagree hscript) hmem
      (List.forall_mem_cons.2 ⟨hmem, hbusy⟩)
    rw [← hagree.tag] at hscript
    exact .synthesize_script hnode' (halike.notMem_map hmem hbusy hid) hscript hruns

/-- A script that does the same about a renamed node has the same result. -/
theorem Runs.rename (hlocal : compiler.Local) (halike : g.AlikeOn ρ values control h)
    {busy : List NodeId} {id : NodeId} {script script' : Script String} {text : String} :
    (compiler.resolver g).Runs busy script text → script.Mirrors id (ρ id) script' → id ∈ values →
    (∀ id ∈ busy, id ∈ values) → (compiler.resolver h).Runs (busy.map ρ) script' text
  | .done, hmirrors, _, _ => by
    cases hmirrors
    exact .done
  | .ask hreply hnext, hmirrors, hmem, hbusy => by
    obtain ⟨pin, next', hpin, hq, rfl, hafter⟩ := hmirrors.of_ask
    have hanswer := hreply.rename hlocal halike (by rw [hq]; exact ⟨hmem, hpin⟩) hbusy
    rw [hq] at hanswer
    exact .ask hanswer (hnext.rename hlocal halike (hafter _) hmem hbusy)

end

end Resolver

namespace Graph.AlikeOn

variable (halike : g.AlikeOn ρ values control h)

include halike

/-- A renamed question gets the same reply. -/
theorem reply_eq (hlocal : compiler.Local) {q : Query} (hmem : q.Within values) :
    (compiler.resolver h).reply (q.rename ρ) = (compiler.resolver g).reply q := by
  have hanswers := ((compiler.resolver g).answers_iff q _).2 rfl
  exact (Resolver.answers_iff _ _ _).1
    (hanswers.rename hlocal halike hmem (List.forall_mem_nil _))

/-- A loop makes the same number of rounds. -/
theorem iterations_eq (hlocal : compiler.Local) {id : NodeId} {node node' : Node}
    (hmem : id ∈ values) (hnode : g.node? id = some node)
    (hnode' : h.node? (ρ id) = some node') (hagree : node.Alike node') :
    (compiler.resolver h).iterations node' = (compiler.resolver g).iterations node := by
  have hcount : (compiler.resolver h).resolve (ρ id) "Count" =
      (compiler.resolver g).resolve id "Count" :=
    halike.reply_eq hlocal (q := .resolve id "Count") ⟨hmem, by decide⟩
  simp only [Resolver.iterations, (Graph.node?_eq_some hnode).2, (Graph.node?_eq_some hnode').2,
    hcount, hagree.propertyNumber?]

/-- Behind a pin control goes the same way in both graphs, and stays within the part. -/
theorem way_outgoing? {id : NodeId} {node : Node} {pin : String} (hmem : id ∈ control)
    (hnode : g.node? id = some node) (hpin : pin ∈ node.role.pins) :
    h.outgoing? (ρ id) pin = (g.outgoing? id pin).map (·.rename ρ) ∧
      ∀ c, g.outgoing? id pin = some c → c.target ∈ control := by
  exact ⟨halike.outgoing hmem hnode hpin,
    fun c hc => halike.passes_mem hmem (Graph.passes_of_outgoing? hnode hpin hc)⟩

/-- So it does behind a plain node. -/
theorem way_nextExec? {id : NodeId} {node : Node} (hmem : id ∈ control)
    (hnode : g.node? id = some node) (hrole : node.role = .plain) :
    h.nextExec? (ρ id) = (g.nextExec? id).map (·.rename ρ) ∧
      ∀ c, g.nextExec? id = some c → c.target ∈ control := by
  exact ⟨halike.nextExec hmem hnode hrole,
    fun c hc => halike.passes_mem hmem (Graph.passes_of_nextExec? hnode hrole hc)⟩

end Graph.AlikeOn

/-! ## Unfolded trees -/

/-- A node of the loop type repeats its body. -/
theorem Node.role_of_tag_loop {node : Node} (h : node.tag = "loop") : node.role = .loop := by
  simp [role, h]

/-- A node of the condition type chooses between branches. -/
theorem Node.role_of_tag_condition {node : Node} (h : node.tag = "if_condition") :
    node.role = .condition := by
  simp [role, h]

/-- A node of the sequence type goes through its branches in turn. -/
theorem Node.role_of_tag_sequence {node : Node} (h : node.tag = "sequence") :
    node.role = .sequence := by
  simp [role, h]

/-- A node that is neither loop nor condition nor sequence has no role of its own. -/
theorem Node.role_of_tag_ne {node : Node}
    (h : node.tag ≠ "loop" ∧ node.tag ≠ "if_condition" ∧ node.tag ≠ "sequence") :
    node.role = .plain := by
  unfold role
  split <;> simp_all

namespace Resolver

mutual

/-- The tree behind a renamed node unfolds to the same lines. -/
theorem Unfolds.rename (hlocal : compiler.Local) (halike : g.AlikeOn ρ values control h)
    {id : NodeId} {lines : List String} :
    (compiler.resolver g).Unfolds id lines → id ∈ control →
    (compiler.resolver h).Unfolds (ρ id) lines
  | @Unfolds.plain _ id node _ hnode htag hafter, hmem => by
    have hvalues := halike.control_subset hmem
    obtain ⟨node', hnode', hagree⟩ := halike.node hvalues hnode
    have hsynthesize : (compiler.resolver h).synthesize (ρ id) =
        (compiler.resolver g).synthesize id :=
      halike.reply_eq hlocal (q := .synthesize id) hvalues
    have hbehind := hafter.rename hlocal halike
      (halike.way_nextExec? hmem hnode (Node.role_of_tag_ne htag))
    rw [← hagree.tag] at htag
    rw [← hsynthesize]
    exact .plain hnode' htag hbehind
  | .sequence hnode htag hzero hone htwo, hmem => by
    obtain ⟨node', hnode', hagree⟩ := halike.node (halike.control_subset hmem) hnode
    have hway {pin : String} (hpin : pin ∈ Role.pins .sequence) :=
      halike.way_outgoing? hmem hnode (Node.role_of_tag_sequence htag ▸ hpin)
    exact .sequence hnode' (hagree.tag.trans htag) (hzero.rename hlocal halike (hway (by decide)))
      (hone.rename hlocal halike (hway (by decide))) (htwo.rename hlocal halike (hway (by decide)))
  | @Unfolds.condition _ id node _ _ hnode htag hholds hfails, hmem => by
    have hvalues := halike.control_subset hmem
    obtain ⟨node', hnode', hagree⟩ := halike.node hvalues hnode
    have hresolve : (compiler.resolver h).resolve (ρ id) "Condition" =
        (compiler.resolver g).resolve id "Condition" :=
      halike.reply_eq hlocal (q := .resolve id "Condition") ⟨hvalues, by decide⟩
    have hway {pin : String} (hpin : pin ∈ Role.pins .condition) :=
      halike.way_outgoing? hmem hnode (Node.role_of_tag_condition htag ▸ hpin)
    -- The comment shows a property and a value, which are the same on both sides.
    have hholds := hholds.rename hlocal halike (hway (by decide))
    rw [← hresolve, ← hagree.propertyText] at hholds
    exact .condition hnode' (hagree.tag.trans htag) hholds
      (hfails.rename hlocal halike (hway (by decide)))
  | .loop hnode htag htotal hbody hafter, hmem => by
    have hvalues := halike.control_subset hmem
    obtain ⟨node', hnode', hagree⟩ := halike.node hvalues hnode
    have hrounds := halike.iterations_eq hlocal hvalues hnode hnode' hagree
    have hway {pin : String} (hpin : pin ∈ Role.pins .loop) :=
      halike.way_outgoing? hmem hnode (Node.role_of_tag_loop htag ▸ hpin)
    exact .loop hnode' (hagree.tag.trans htag) (hrounds.trans htotal)
      (hbody.rename hlocal halike (hway (by decide)))
      (hafter.rename hlocal halike (hway (by decide)))

/-- What lies behind a renamed connection unfolds to the same lines. -/
theorem UnfoldsBehind.rename (hlocal : compiler.Local) (halike : g.AlikeOn ρ values control h)
    {lead lines : List String} {c c' : Option Connection} :
    (compiler.resolver g).UnfoldsBehind lead c lines →
    (c' = c.map (·.rename ρ) ∧ ∀ d, c = some d → d.target ∈ control) →
    (compiler.resolver h).UnfoldsBehind lead c' lines
  | .unwired, ⟨hsame, _⟩ => hsame ▸ .unwired
  | .wired hlines, ⟨hsame, hmem⟩ => hsame ▸ .wired (hlines.rename hlocal halike (hmem _ rfl))

end

end Resolver

/-- Graphs that are alike on the parts that compilation looks at compile to the same lines, where
the scripts are local and both graphs are well formed. -/
theorem Graph.AlikeOn.compileLines_eq (halike : g.AlikeOn ρ values control h)
    (hlocal : compiler.Local) (hg : g.WellFormed) (hh : h.WellFormed) :
    compiler.compileLines h = compiler.compileLines g := by
  rw [Compiler.compileLines_eq_flatten, Compiler.compileLines_eq_flatten,
    Compiler.resolver_entries, Compiler.resolver_entries, halike.entries, List.map_map]
  congr 1
  refine List.map_congr_left fun entry hentry => ?_
  have hmem : ρ entry ∈ h.entries := halike.entries ▸ List.mem_map_of_mem hentry
  exact (compiler.unfolds_of_mem_entries hh hmem).unique
    ((compiler.unfolds_of_mem_entries hg hentry).rename hlocal halike (halike.entries_mem hentry))

/-- Where the nodes stand in the same order with the same types, and control enters the same nodes
at which execution may start, compilation starts at the same nodes. -/
theorem Graph.entries_eq_map
    (hnodes : List.Forall₂ (fun node node' => node'.id = ρ node.id ∧ node'.tag = node.tag)
      g.nodes h.nodes)
    (hdriven : ∀ node ∈ g.nodes, Catalog.IsEntry node.tag →
      h.hasInboundExec (ρ node.id) = g.hasInboundExec node.id) :
    h.entries = g.entries.map ρ := by
  rw [entries, entries]
  -- The two lists are gone through together; of nodes that are no entries nothing is known.
  generalize g.nodes = nodes, h.nodes = nodes' at hnodes hdriven ⊢
  induction hnodes with
  | nil => rfl
  | @cons node node' nodes nodes' hnode _ ih =>
    obtain ⟨hfirst, hrest⟩ := List.forall_mem_cons.1 hdriven
    have hsame : (node'.type?.any (·.entry) && !h.hasInboundExec node'.id) =
        (node.type?.any (·.entry) && !g.hasInboundExec node.id) := by
      rw [Node.type?, Node.type?, hnode.1, hnode.2]
      cases hentry : (Catalog.standard.find? node.tag).any (·.entry) with
      | false => rfl
      | true => rw [hfirst hentry]
    rw [List.filter_cons, List.filter_cons, hsame]
    split
    · rw [List.map_cons, List.map_cons, List.map_cons, ih hrest, hnode.1]
    · exact ih hrest

/-! ## Whole graphs -/

variable (ρ) in
/-- What compilation finds in one graph it finds in the other, where the nodes have other
identities. -/
structure Graph.Alike (g h : Graph) : Prop where
  /-- Different nodes stay different. -/
  injOn : Set.InjOn ρ {id | id ∈ g.ids}
  /-- A node is found again, and agrees with what it was. -/
  node : ∀ {id node}, g.node? id = some node →
    ∃ node', h.node? (ρ id) = some node' ∧ node.Alike node'
  /-- An input pin is fed by the same connection. -/
  inbound : ∀ {id}, id ∈ g.ids → ∀ pin,
    h.inbound? (ρ id) pin = (g.inbound? id pin).map (·.rename ρ)
  /-- An output pin is left first by the same connection. -/
  outgoing : ∀ {id}, id ∈ g.ids → ∀ pin,
    h.outgoing? (ρ id) pin = (g.outgoing? id pin).map (·.rename ρ)
  /-- Control leaves a plain node through the same connection. -/
  nextExec : ∀ {id node}, g.node? id = some node → node.role = .plain →
    h.nextExec? (ρ id) = (g.nextExec? id).map (·.rename ρ)
  /-- Control enters the same nodes. -/
  driven : ∀ {id}, id ∈ g.ids → h.hasInboundExec (ρ id) = g.hasInboundExec id
  /-- Compilation starts at the same nodes, in the same order. -/
  entries : h.entries = g.entries.map ρ

namespace Graph.Alike

/-- Graphs that are alike are so on the part that has all nodes. -/
theorem alikeOn (halike : g.Alike ρ h) (hwf : g.WellFormed) :
    g.AlikeOn ρ {id | id ∈ g.ids} {id | id ∈ g.ids} h where
  mem_ids hid := hid
  injOn := halike.injOn
  node _ hnode := halike.node hnode
  inbound hid _ := halike.inbound hid _
  source_mem _ _ hc := (hwf.ends_mem _ (List.mem_of_find?_eq_some hc)).1
  driven hid _ _ := halike.driven hid
  control_subset := subset_rfl
  outgoing hid _ _ := halike.outgoing hid _
  nextExec _ hnode hrole := halike.nextExec hnode hrole
  passes_mem _ hp := hwf.mem_ids_of_passes hp
  entries := halike.entries
  entries_mem hentry := (Graph.undriven_of_mem_entries hentry).1

/-- Alike graphs compile to the same lines, where the scripts are local and both graphs are well
formed. -/
theorem compileLines_eq (halike : g.Alike ρ h) (hlocal : compiler.Local) (hg : g.WellFormed)
    (hh : h.WellFormed) : compiler.compileLines h = compiler.compileLines g :=
  (halike.alikeOn hg).compileLines_eq hlocal hg hh

end Graph.Alike

/-! ## Renamed graphs -/

variable (ρ) in
/-- A node under another identity. -/
def Node.rename (node : Node) : Node :=
  { node with id := ρ node.id }

variable (ρ) in
/-- A graph under other identities, with a number for the next node. -/
def Graph.rename (g : Graph) (nextIndex : UInt32) : Graph where
  nodes := g.nodes.map (·.rename ρ)
  connections := g.connections.map (·.rename ρ)
  nextIndex := nextIndex

namespace Graph

variable {nextIndex : UInt32}

theorem size_rename (g : Graph) : (g.rename ρ nextIndex).size = g.size :=
  List.length_map _

/-- A search among renamed connections finds the renamed connection, if it looks for the same. -/
theorem find?_connections_rename {p q : Connection → Bool}
    (hsame : ∀ c ∈ g.connections, q (c.rename ρ) = p c) :
    (g.rename ρ nextIndex).connections.find? q = (g.connections.find? p).map (·.rename ρ) := by
  rw [rename, List.find?_map]
  congr 1
  exact List.find?_congr hsame

section Injective

variable (hinj : Set.InjOn ρ {id | id ∈ g.ids}) {id : NodeId} (hid : id ∈ g.ids)

include hinj hid

/-- Comparing identities gives the same before and after. -/
theorem rename_beq {other : NodeId} (hother : other ∈ g.ids) :
    (ρ other == ρ id) = (other == id) := by
  rw [Bool.eq_iff_iff, beq_iff_eq, beq_iff_eq]
  exact hinj.eq_iff hother hid

/-- A look-up finds the renamed node. -/
theorem node?_rename :
    (g.rename ρ nextIndex).node? (ρ id) = (g.node? id).map (·.rename ρ) := by
  rw [node?, node?, rename, List.find?_map]
  congr 1
  exact List.find?_congr fun other hother => rename_beq hinj hid (List.mem_map_of_mem hother)

/-- Control enters a renamed node as before. -/
theorem hasInboundExec_rename (hwf : g.WellFormed) :
    (g.rename ρ nextIndex).hasInboundExec (ρ id) = g.hasInboundExec id := by
  have hsame : ∀ c ∈ g.connections, ((c.rename ρ).target == ρ id && (c.rename ρ).isExec) =
      (c.target == id && c.isExec) := fun c hc => by
    simp only [Connection.isExec, Connection.rename, rename_beq hinj hid (hwf.ends_mem c hc).2]
  rw [hasInboundExec, hasInboundExec, ← List.isSome_find?, ← List.isSome_find?,
    find?_connections_rename hsame, Option.isSome_map]

end Injective

/-- A well-formed graph is like itself under other identities that are as different. -/
theorem WellFormed.alike_rename (hwf : g.WellFormed) (hinj : Set.InjOn ρ {id | id ∈ g.ids}) :
    g.Alike ρ (g.rename ρ nextIndex) where
  injOn := hinj
  node hnode := by
    rw [node?_rename hinj (mem_ids_of_node? hnode), hnode]
    exact ⟨_, rfl, rfl, rfl⟩
  inbound hid pin := find?_connections_rename fun c hc => by
    simp only [Connection.enters, Connection.rename, rename_beq hinj hid (hwf.ends_mem c hc).2]
  outgoing hid pin := find?_connections_rename fun c hc => by
    simp only [Connection.leaves, Connection.rename, rename_beq hinj hid (hwf.ends_mem c hc).1]
  nextExec hnode _ := find?_connections_rename fun c hc => by
    simp only [Connection.isExec, Connection.rename,
      rename_beq hinj (mem_ids_of_node? hnode) (hwf.ends_mem c hc).1]
  driven hid := hasInboundExec_rename hinj hid hwf
  entries := entries_eq_map
    (List.forall₂_map_right_iff.2 (List.forall₂_same.2 fun _ _ => ⟨rfl, rfl⟩))
    fun node hnode _ => hasInboundExec_rename hinj (List.mem_map_of_mem hnode) hwf

end Graph

end CommandGraph
