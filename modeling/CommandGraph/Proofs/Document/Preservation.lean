import CommandGraph.Proofs.Document.Restore
import CommandGraph.Proofs.Document.Text

/-!
# Saving and loading preserve the meaning

A graph that is reached by the graph's own operations can be saved as text, and what is loaded from
the text compiles to the same. Three facts come together: the text is read as the document that was
written (`CommandGraph.Proofs.Document.Text`), the document is loaded as the graph with other
identities (`CommandGraph.Proofs.Document.Restore`), and compilation does not depend on identities
(`CommandGraph.Proofs.Compile.Similarity`). Only the text depends on numbers: it holds positions and
property values, and it takes that the doubles among them are read back as they were written.
-/

namespace CommandGraph

/-! ## Property values of edited graphs -/

/-- A value without arrays and objects is ordered. -/
theorem Json.ordered_of_depth_eq_zero {value : Json} (h : value.depth = 0) : value.Ordered := by
  cases value with
  | array items => cases h
  | object members => cases h
  | _ => trivial

/-- The default values of the standard types hold neither arrays nor objects. -/
theorem Catalog.depth_default_eq_zero :
    ∀ type ∈ standard.types, ∀ property ∈ type.properties, property.default.depth = 0 := by
  decide

/-- The property values of all nodes list their members by key. -/
def Graph.OrderedValues (g : Graph) : Prop :=
  ∀ node ∈ g.nodes, ∀ entry ∈ node.properties.entries, entry.2.Ordered

/-- A new node has ordered values. -/
theorem NodeType.ordered_defaults {type : NodeType} (h : type ∈ Catalog.standard.types) :
    ∀ entry ∈ type.defaults.entries, entry.2.Ordered := by
  intro entry hentry
  obtain ⟨property, hproperty, rfl⟩ :=
    List.mem_map.1 (Dictionary.mem_of_mem_entries_ofList hentry)
  exact Json.ordered_of_depth_eq_zero (Catalog.depth_default_eq_zero type h property hproperty)

/-- An operation keeps the values of a node ordered. -/
theorem Edit.ordered_alter {e : Edit} (he : e.isOperation) {node : Node}
    (h : ∀ entry ∈ node.properties.entries, entry.2.Ordered) :
    ∀ entry ∈ (e.alter node).properties.entries, entry.2.Ordered := by
  cases e with
  | set id name value =>
    rw [alter]
    split
    · intro entry hentry
      rcases Entries.mem_insert hentry with rfl | hold
      · exact value.ordered
      · exact h entry hold
    · exact h
  | move id position =>
    rw [alter]
    split <;> exact h
  | retype | rewrite | load => cases he
  | _ => exact h

/-- Every step of an operation keeps the values ordered. -/
theorem Graph.OrderedValues.step {g g' : Graph} (h : g.OrderedValues) {e : Edit}
    (he : e.isOperation) (hs : e.Step g g') : g'.OrderedValues := by
  cases hs with
  | refused => exact h
  | place htype position =>
    refine List.forall_mem_append.2 ⟨h, List.forall_mem_singleton.2 ?_⟩
    exact NodeType.ordered_defaults (Catalog.find?_eq_some htype).1
  | remove id => exact fun node hnode => h node (List.mem_filter.1 hnode).1
  | alter => exact List.forall_mem_map.2 fun node hnode => Edit.ordered_alter he (h node hnode)
  | connect hne hsource htarget => exact h
  | disconnect id pin => exact h

namespace Session

variable {edits : List Edit} (hoperations : ∀ e ∈ edits, e.isOperation)
  (hplaced : (run edits).placed < UInt32.size)

include hoperations hplaced

/-- The property values of a graph that operations reach are ordered. -/
theorem orderedValues_run : (run edits).graph.OrderedValues := by
  refine (run_induction (P := Graph.OrderedValues) (A := fun e => e.isOperation)
    (fun _ h => by cases h) (fun _ _ _ he _ h hs => h.step he hs) (fun e he => ?_) hplaced).2
  exact ⟨hoperations e he, (Edit.of_isOperation (hoperations e he)).1⟩

omit hoperations in
/-- All of a graph can be loaded again if no edit replaced it or overwrote a type tag, and no direct
change took a property away. -/
theorem complete_run_of_keeps (hload : ∀ e ∈ edits, e.isLoad = false)
    (hretype : ∀ e ∈ edits, e.isRetype = false)
    (hkeeps : ∀ id change, .rewrite id change ∈ edits → ∀ (properties : Dictionary Json) (name),
      (properties.find? name).isSome → ((change properties).find? name).isSome) :
    (run edits).graph.Complete := by
  refine ⟨wellFormed_run hplaced, wellTyped_run hretype hplaced, ?_⟩
  intro node hnode type htype property hproperty
  rcases isSome_property?_run hload hretype hplaced hnode htype hproperty with h | h
  · exact h
  · obtain ⟨before, change, after, old, rfl, -, hold, hgone⟩ := h
    have hkept := hkeeps node.id change (by simp) old.properties property.name hold
    rw [hgone] at hkept
    cases hkept

/-- All of a graph that operations reach can be loaded again. -/
theorem complete_run : (run edits).graph.Complete := by
  refine complete_run_of_keeps hplaced (fun e he => (Edit.of_isOperation (hoperations e he)).1)
    (fun e he => (Edit.of_isOperation (hoperations e he)).2.1) ?_
  -- Operations make no direct changes.
  intro id change hmem
  exact absurd rfl ((Edit.of_isOperation (hoperations _ hmem)).2.2 id change)

end Session

/-! ## The text of a graph -/

/-- A graph is loaded from its text as the graph with places as identities, if its values are
ordered and not too deep and its numbers are read back. -/
theorem Document.parse_toText_ofGraph {g : Graph} (hordered : g.OrderedValues)
    (hpositions : ∀ node ∈ g.nodes, node.position.x.ReadsBack ∧ node.position.y.ReadsBack)
    (hdoubles : ∀ node ∈ g.nodes, ∀ entry ∈ node.properties.entries,
      ∀ x ∈ entry.2.doubles, x.ReadsBack)
    (hdepth : ∀ node ∈ g.nodes, ∀ entry ∈ node.properties.entries,
      entry.2.depth ≤ Json.Raw.valueLimit) :
    parse (ofGraph g).toText = .ok (ofGraph g) := by
  have hrecord : ∀ record ∈ (ofGraph g).nodes, ∃ node ∈ g.nodes, ∃ place,
      record = recordNode node place := by
    intro record hrecord
    obtain ⟨⟨node, place⟩, hmem, rfl⟩ := List.mem_map.1 hrecord
    exact ⟨node, List.fst_mem_of_mem_zipIdx hmem, place, rfl⟩
  -- What is asked of the records is known of the nodes they were made from.
  have hwritable : (ofGraph g).Writable := by
    refine ⟨Viewport.writable_default, fun record hmem => ?_⟩
    obtain ⟨node, hnode, place, rfl⟩ := hrecord record hmem
    exact ⟨(hpositions node hnode).1, (hpositions node hnode).2, hordered node hnode,
      hdoubles node hnode⟩
  have hshallow : ∀ record ∈ (ofGraph g).nodes, ∀ entry ∈ record.data.entries,
      entry.2.depth ≤ Json.Raw.valueLimit := by
    intro record hmem
    obtain ⟨node, hnode, place, rfl⟩ := hrecord record hmem
    exact hdepth node hnode
  rw [parse_toText hwritable, if_pos hshallow]
  rfl

/-- Loading what was saved changes nothing for compilation, where the scripts are local. -/
theorem Compiler.compile_toGraph_ofGraph {compiler : Compiler} (hlocal : compiler.Local) {g : Graph}
    (hg : g.Complete) :
    compiler.compile (Document.ofGraph g).toGraph = compiler.compile g := by
  -- Any graph that is loaded is well formed, as one that a session reaches.
  have hplaced : (Session.run [.load (Document.ofGraph g)]).placed < UInt32.size := by
    change (Document.ofGraph g).toGraph.size < UInt32.size
    rw [Document.toGraph_ofGraph hg, Graph.renumbered, Graph.size_rename]
    exact hg.wellFormed.size_lt
  have hloaded : (Document.ofGraph g).toGraph.WellFormed := Session.wellFormed_run hplaced
  rw [Document.toGraph_ofGraph hg] at hloaded ⊢
  exact congrArg ("\n".intercalate ·)
    ((hg.wellFormed.alike_rename hg.place_injOn).compileLines_eq hlocal hg.wellFormed hloaded)

/-- A graph that its own operations reach can be saved and loaded: its text is that of a document,
and the document's graph compiles to the same text as the graph. The positions are finite, the
property values nest no deeper than the reader allows, and the doubles among them are read back as
they were written. -/
theorem Session.compile_saved_loaded (edits : List Edit) (hoperations : ∀ e ∈ edits, e.isOperation)
    (hplaced : (run edits).placed < UInt32.size)
    (hpositions : ∀ node ∈ (run edits).graph.nodes,
      node.position.x.ReadsBack ∧ node.position.y.ReadsBack)
    (hdoubles : ∀ node ∈ (run edits).graph.nodes, ∀ entry ∈ node.properties.entries,
      ∀ x ∈ entry.2.doubles, x.ReadsBack)
    (hdepth : ∀ node ∈ (run edits).graph.nodes, ∀ entry ∈ node.properties.entries,
      entry.2.depth ≤ 123) :
    let g := (run edits).graph
    ∃ document, Document.parse (Document.ofGraph g).toText = .ok document ∧
      Compiler.standard.compile document.toGraph = Compiler.standard.compile g := by
  intro g
  have hparse : Document.parse (Document.ofGraph g).toText = .ok (Document.ofGraph g) :=
    Document.parse_toText_ofGraph (orderedValues_run hoperations hplaced) hpositions hdoubles hdepth
  -- All of the graph is loaded again, with other identities, which no script depends on.
  have hg : g.Complete := complete_run hoperations hplaced
  exact ⟨_, hparse, Compiler.compile_toGraph_ofGraph Compiler.local_standard hg⟩

/-- A loop for half a round more than two, with a gap in front of it where a node was removed, and
with nested values at the node in its body. -/
def Session.loopBehindGap : List Edit :=
  [.add "chat_command" {}, .add "say" {}, .add "loop" {}, .add "say" ⟨.finite .half, .one⟩,
    .connect ⟨0⟩ "Exec" ⟨2⟩ "Exec", .remove ⟨1⟩, .connect ⟨2⟩ "Loop Body" ⟨3⟩ "Exec",
    .set ⟨2⟩ "iterations" ⟨.double ⟨false, 5629499534213120, -51, by decide⟩, trivial⟩,
    .set ⟨3⟩ "notes" ⟨.object [("a", .array [.double .half, .null]), ("b", .object [])],
      List.pairwise_pair.2 (by decide),
      by simp [Json.OrderedMembers, Json.OrderedItems, Json.Ordered, Entries.Ascending]⟩]

/-- The loop behind the gap can be saved and loaded, and both graphs compile to two rounds. -/
theorem Session.compile_saved_loaded_loopBehindGap :
    let g := (run loopBehindGap).graph
    (∀ e ∈ loopBehindGap, e.isOperation) ∧ (run loopBehindGap).placed < UInt32.size ∧
      (∀ node ∈ g.nodes, node.position.x.ReadsBack ∧ node.position.y.ReadsBack) ∧
      (∀ node ∈ g.nodes, ∀ entry ∈ node.properties.entries, ∀ x ∈ entry.2.doubles, x.ReadsBack) ∧
      (∀ node ∈ g.nodes, ∀ entry ∈ node.properties.entries, entry.2.depth ≤ 123) ∧
      g.ids = [⟨0⟩, ⟨2⟩, ⟨3⟩] ∧
      ∃ document, Document.parse (Document.ofGraph g).toText = .ok document ∧
        Compiler.standard.compile document.toGraph = "\n".intercalate
          ["# In chat", "# Loop Iteration 1/2", "say Hello World!", "# Loop Iteration 2/2",
            "say Hello World!"] := by
  have hoperations : ∀ e ∈ loopBehindGap, e.isOperation := by decide
  have hplaced : (run loopBehindGap).placed < UInt32.size := by decide
  have hpositions : ∀ node ∈ (run loopBehindGap).graph.nodes,
      node.position.x.ReadsBack ∧ node.position.y.ReadsBack := by decide +kernel
  have hdoubles : ∀ node ∈ (run loopBehindGap).graph.nodes, ∀ entry ∈ node.properties.entries,
      ∀ x ∈ entry.2.doubles, x.ReadsBack := by decide +kernel
  have hdepth : ∀ node ∈ (run loopBehindGap).graph.nodes, ∀ entry ∈ node.properties.entries,
      entry.2.depth ≤ 123 := by decide +kernel
  obtain ⟨document, hparse, hcompile⟩ := compile_saved_loaded loopBehindGap hoperations hplaced
    hpositions hdoubles hdepth
  refine ⟨hoperations, hplaced, hpositions, hdoubles, hdepth, by decide, document, hparse, ?_⟩
  rw [hcompile]
  decide +kernel

end CommandGraph
