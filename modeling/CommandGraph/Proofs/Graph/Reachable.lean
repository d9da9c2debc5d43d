import CommandGraph.Proofs.Graph.Arena
import Mathlib.Data.List.Induction

/-!
# What every session keeps

Every graph that a session reaches is well formed, as long as fewer than `UInt32.size` nodes were
ever placed in it. A document is loaded by edits of a session of its own
(`Session.exists_run_eq_load`), so loadings need no argument about them: a session with loadings
reaches what some session without them reaches.

The stores hold the graph that the session reaches (`Arena.graph_run`). So all that is known of the
graphs of sessions holds of what is kept in the stores.
-/

namespace CommandGraph

/-! ## Loading as a session -/

/-- The edits of which the loading of a document consists. -/
inductive Edit.Loads : Edit → Prop
  /-- A recorded node is placed. -/
  | add (tag : String) (position : Position) : Loads (.add tag position)
  /-- The recorded values are laid over the defaults. -/
  | overlay (id : NodeId) (data : Dictionary Json) : Loads (.rewrite id (·.overlay data))
  /-- A recorded connection is made. -/
  | connect (source : NodeId) (sourcePin : String) (target : NodeId) (targetPin : String) :
      Loads (.connect source sourcePin target targetPin)

/-- A loading edit is no loading itself. -/
theorem Edit.Loads.isLoad_eq_false {e : Edit} (h : e.Loads) : e.isLoad = false := by
  cases h <;> rfl

/-- A loading edit overwrites no type tag. -/
theorem Edit.Loads.isRetype_eq_false {e : Edit} (h : e.Loads) : e.isRetype = false := by
  cases h <;> rfl

/-- In the stores a loading edit gives out as many numbers as in a graph. -/
theorem Edit.Loads.nextIndex_eq {e : Edit} (he : e.Loads) {a : Arena} {g : Graph}
    (h : a.nextIndex = g.nextIndex) : (e.perform a).nextIndex = (e.apply g).nextIndex := by
  cases he with
  | add tag position =>
    rw [perform, apply, Arena.run_addNode, Graph.addNode]
    cases Catalog.standard.find? tag with
    | none => exact h
    | some type => exact congrArg (· + 1) h
  | overlay id data =>
    rw [perform, apply, Arena.run_editNode, Graph.editNode]
    cases a.node? id <;> cases g.node? id <;> exact h
  | connect source sourcePin target targetPin =>
    have hgraph : ((Edit.connect source sourcePin target targetPin).apply g).nextIndex =
        g.nextIndex := by
      rw [apply]
      cases hconnect : g.connect source sourcePin target targetPin with
      | error _ => rfl
      | ok connected =>
        obtain ⟨kind, -, -, -, rfl⟩ := Graph.connect_eq_ok_iff.1 hconnect
        rfl
    obtain ⟨-, -, hnext, -⟩ := Arena.connect_frame
      (rfl : (Arena.connect source sourcePin target targetPin).run.run a = (_, _))
    exact hnext.trans (h.trans hgraph.symm)

/-- Editing a node that is there changes it. -/
theorem Graph.editNode_of_mem_ids {g : Graph} {id : NodeId} (h : id ∈ g.ids)
    (change : Node → Node) : g.editNode id change = .ok (g.modifyNode id change) := by
  obtain ⟨node, hnode⟩ := Graph.exists_node?_of_mem_ids h
  rw [Graph.editNode, hnode]

namespace Document

section Records

variable (loading : Loading) (ids : List (UInt32 × NodeId)) (a : Arena)

/-- A record of no standard type is left out. -/
theorem Loading.addNode_of_unknown {record : NodeRecord}
    (h : Catalog.standard.find? record.tag = none) : loading.addNode record = loading := by
  rw [addNode, Graph.addNode, h]

theorem run_restoreNode_of_unknown {record : NodeRecord}
    (h : Catalog.standard.find? record.tag = none) : (restoreNode ids record).run a = (ids, a) := by
  have hadd := Arena.run_addNode record.tag ⟨record.x, record.y⟩ a
  rw [h] at hadd
  rw [restoreNode, StateT.run_bind, hadd]
  rfl

/-- Any other recorded node is placed by two edits. -/
theorem Loading.addNode_of_known {record : NodeRecord} {type : NodeType}
    (h : Catalog.standard.find? record.tag = some type) : loading.addNode record =
      { graph := (Edit.rewrite ⟨loading.graph.nextIndex⟩ (·.overlay record.data)).apply
          ((Edit.add record.tag ⟨record.x, record.y⟩).apply loading.graph)
        ids := (record.id, ⟨loading.graph.nextIndex⟩) :: loading.ids } := by
  obtain ⟨g, ids⟩ := loading
  let placed : Graph := { g with
    nodes := g.nodes ++ [type.newNode ⟨g.nextIndex⟩ ⟨record.x, record.y⟩]
    nextIndex := g.nextIndex + 1 }
  have hadd : (Edit.add record.tag ⟨record.x, record.y⟩).apply g = placed := by
    rw [Edit.apply, Graph.addNode, h]
    rfl
  have hmem : ⟨g.nextIndex⟩ ∈ placed.ids := by simp [placed, Graph.ids, NodeType.newNode]
  rw [hadd, Edit.apply, Graph.editNode_of_mem_ids hmem, addNode, Graph.addNode, h]
  rfl

theorem run_restoreNode_of_known {record : NodeRecord} {type : NodeType}
    (h : Catalog.standard.find? record.tag = some type) :
    (restoreNode ids record).run a = ((record.id, ⟨a.nextIndex⟩) :: ids,
      (Edit.rewrite ⟨a.nextIndex⟩ (·.overlay record.data)).perform
        ((Edit.add record.tag ⟨record.x, record.y⟩).perform a)) := by
  have hadd := Arena.run_addNode record.tag ⟨record.x, record.y⟩ a
  rw [h] at hadd
  rw [restoreNode, StateT.run_bind, hadd, Edit.perform, Edit.perform, hadd]
  rfl

/-- A recorded connection is left out, or made by one edit. -/
theorem Loading.addConnection_eq (record : ConnectionRecord) :
    loading.addConnection record = loading ∧
        (restoreConnection loading.ids record).run a = ((), a) ∨
      ∃ source target, loading.addConnection record = { loading with
          graph := (Edit.connect source record.sourcePin target record.targetPin).apply
            loading.graph } ∧
        (restoreConnection loading.ids record).run a =
          ((), (Edit.connect source record.sourcePin target record.targetPin).perform a) := by
  unfold addConnection restoreConnection
  split
  next source target hsource htarget =>
    refine .inr ⟨source, target, ?_, ?_⟩
    · rw [Edit.apply]
      cases loading.graph.connect source record.sourcePin target record.targetPin <;> rfl
    · rfl
  next => exact .inl ⟨rfl, rfl⟩

end Records

section Induction

variable {P : Graph → Arena → Prop}
  (hedit : ∀ (g : Graph) (a : Arena) (e : Edit), e.Loads → P g a → P (e.apply g) (e.perform a))

include hedit

/-- What loading edits keep is kept while nodes are restored. Graph and stores number the nodes
alike, so that a record changes the same node in both. -/
theorem restoreNodes_induction (records : List NodeRecord) (loading : Loading) (a : Arena)
    (hnext : a.nextIndex = loading.graph.nextIndex) (h : P loading.graph a) :
    ∃ placed, (records.foldlM restoreNode loading.ids).run a =
        ((records.foldl Loading.addNode loading).ids, placed) ∧
      P (records.foldl Loading.addNode loading).graph placed := by
  induction records generalizing loading a with
  | nil => exact ⟨a, rfl, h⟩
  | cons record rest ih =>
    rw [List.foldlM_cons, List.foldl_cons, StateT.run_bind]
    cases hfind : Catalog.standard.find? record.tag with
    | none =>
      rw [run_restoreNode_of_unknown _ _ hfind, loading.addNode_of_unknown hfind]
      exact ih loading a hnext h
    | some type =>
      rw [run_restoreNode_of_known _ _ hfind, loading.addNode_of_known hfind, hnext]
      have hadd := Edit.Loads.add record.tag ⟨record.x, record.y⟩
      have hover := Edit.Loads.overlay ⟨loading.graph.nextIndex⟩ record.data
      exact ih { graph := _, ids := _ } _ (hover.nextIndex_eq (hadd.nextIndex_eq hnext))
        (hedit _ _ _ hover (hedit _ _ _ hadd h))

/-- It is kept while connections are restored, by which time all numbers are settled. -/
theorem restoreConnections_induction (records : List ConnectionRecord) (loading : Loading)
    (a : Arena) (h : P loading.graph a) :
    P (records.foldl Loading.addConnection loading).graph
      ((forM records (restoreConnection loading.ids)).run a).2 := by
  induction records generalizing loading a with
  | nil => exact h
  | cons record rest ih =>
    rw [List.forM_cons, List.foldl_cons, StateT.run_bind]
    rcases loading.addConnection_eq a record with
      ⟨hgraph, harena⟩ | ⟨source, target, hgraph, harena⟩
    · rw [hgraph, harena]
      exact ih loading a h
    · rw [hgraph, harena]
      exact ih { loading with graph := _ } _ (hedit _ _ _ (.connect _ _ _ _) h)

/-- What holds of the empty graph and the empty stores and is kept by loading edits, holds of the
graph of every document and the stores into which it is loaded. -/
theorem load_induction (hempty : P .empty {}) (document : Document) :
    P document.toGraph document.toArena := by
  obtain ⟨placed, hrun, hplaced⟩ :=
    restoreNodes_induction hedit document.nodes {} {} rfl hempty
  have hall := restoreConnections_induction hedit document.connections _ _ hplaced
  rw [toGraph, toArena, StateT.run_bind, hrun]
  exact hall

end Induction

end Document

namespace Session

/-- Placing a node of a standard type gives the graph one more node. -/
theorem size_apply_add (g : Graph) (tag : String) (position : Position) :
    ((Edit.add tag position).apply g).size =
      if Catalog.standard.contains tag then g.size + 1 else g.size := by
  rw [Edit.apply, Graph.addNode, Catalog.contains]
  cases Catalog.standard.find? tag with
  | none => rfl
  | some type => simp [Graph.size, Graph.orUnchanged, Except.map]

/-- A direct change of a node leaves the number of nodes as it was. -/
theorem size_apply_rewrite (g : Graph) (id : NodeId) (change : Dictionary Json → Dictionary Json) :
    ((Edit.rewrite id change).apply g).size = g.size := by
  rw [Edit.apply]
  cases h : g.editNode id _ with
  | error _ => rfl
  | ok edited =>
    rw [Graph.editNode_eq_ok h]
    simp [Graph.orUnchanged, Graph.size, Graph.modifyNode]

/-- So does a connection. -/
theorem size_apply_connect (g : Graph) (source : NodeId) (sourcePin : String) (target : NodeId)
    (targetPin : String) :
    ((Edit.connect source sourcePin target targetPin).apply g).size = g.size := by
  rw [Edit.apply]
  cases h : g.connect source sourcePin target targetPin with
  | error _ => rfl
  | ok connected =>
    obtain ⟨kind, -, -, -, rfl⟩ := Graph.connect_eq_ok_iff.1 h
    rfl

/-- A document is loaded by a session of loading edits, which removes none of the nodes it places.
The same edits fill the stores. -/
theorem exists_run_eq_load (document : Document) :
    ∃ edits : List Edit, (∀ e ∈ edits, e.Loads) ∧
      run edits = { graph := document.toGraph, placed := document.toGraph.size } ∧
      Arena.run edits = document.toArena := by
  refine Document.load_induction
    (P := fun g a => ∃ edits : List Edit, (∀ e ∈ edits, e.Loads) ∧
      run edits = { graph := g, placed := g.size } ∧ Arena.run edits = a)
    ?_ ⟨[], by simp, rfl, rfl⟩ document
  rintro g a e he ⟨edits, hedits, hrun, rfl⟩
  refine ⟨edits ++ [e], ?_, ?_, Arena.run_concat edits e⟩
  · exact List.forall_mem_append.2 ⟨hedits, List.forall_mem_singleton.2 he⟩
  · rw [run_concat, hrun, apply]
    congr 1
    cases he with
    | add tag position => rw [size_apply_add, placedAfter]
    | overlay id data => exact (size_apply_rewrite g id _).symm
    | connect source sourcePin target targetPin => exact (size_apply_connect g _ _ _ _).symm

/-- A session with loadings reaches what some session without them reaches, in its graph and in the
stores. -/
theorem exists_run_without_load (edits : List Edit) :
    ∃ others : List Edit, (∀ e ∈ others, e.isLoad = false ∧ (e ∈ edits ∨ e.Loads)) ∧
      run others = run edits ∧ Arena.run others = Arena.run edits := by
  induction edits using List.reverseRecOn with
  | nil => exact ⟨[], by simp, rfl, rfl⟩
  | append_singleton edits e ih =>
    cases hload : e.isLoad with
    | true =>
      cases e with
      | load document =>
        -- A loading makes all that came before it irrelevant.
        obtain ⟨others, hothers, hrun, harena⟩ := exists_run_eq_load document
        refine ⟨others, fun e he => ⟨(hothers e he).isLoad_eq_false, .inr (hothers e he)⟩, ?_, ?_⟩
        · rw [hrun, run_concat]
          rfl
        · rw [harena, Arena.run_concat]
          rfl
      | _ => cases hload
    | false =>
      obtain ⟨others, hothers, hrun, harena⟩ := ih
      refine ⟨others ++ [e], ?_, by rw [run_concat, run_concat, hrun],
        by rw [Arena.run_concat, Arena.run_concat, harena]⟩
      refine List.forall_mem_append.2 ⟨fun e he => ?_, List.forall_mem_singleton.2 ?_⟩
      · exact (hothers e he).imp_right fun h => h.imp_left (List.mem_append_left _)
      · exact ⟨hload, .inl (List.mem_append_right _ (List.mem_singleton_self e))⟩

/-! ## Invariants of sessions -/

/-- The number for the next node counts the nodes that were ever placed. -/
theorem nextIndex_apply (s : Session) (h : s.graph.nextIndex = .ofNat s.placed) {e : Edit}
    (he : e.isLoad = false) : (s.apply e).graph.nextIndex = .ofNat (s.apply e).placed := by
  -- Only placing a node takes a number.
  have hstay : ∀ {result : Except GraphError Graph},
      (∀ edited, result = .ok edited → edited.nextIndex = s.graph.nextIndex) →
      (s.graph.orUnchanged result).nextIndex = .ofNat s.placed := by
    intro result hresult
    rw [← h]
    cases result with
    | error _ => rfl
    | ok edited => exact hresult edited rfl
  have hedit : ∀ {id : NodeId} {change : Node → Node} (edited : Graph),
      s.graph.editNode id change = .ok edited → edited.nextIndex = s.graph.nextIndex := by
    intro id change edited hedited
    rw [Graph.editNode_eq_ok hedited]
    rfl
  cases e with
  | add tag position =>
    cases htype : Catalog.standard.find? tag with
    | none =>
      simpa [apply, Edit.apply, Graph.addNode, placedAfter, Catalog.contains, htype,
        Graph.orUnchanged, Except.map] using h
    | some type =>
      simp [apply, Edit.apply, Graph.addNode, placedAfter, Catalog.contains, htype,
        Graph.orUnchanged, Except.map, h]
  | remove id =>
    simp only [apply, Edit.apply, Graph.removeNode?]
    cases s.graph.node? id <;> exact h
  | set id name value => exact hstay hedit
  | move id position => exact hstay hedit
  | connect source sourcePin target targetPin =>
    refine hstay fun connected hconnected => ?_
    obtain ⟨kind, -, -, -, rfl⟩ := Graph.connect_eq_ok_iff.1 hconnected
    rfl
  | disconnect id pin =>
    simp only [apply, Edit.apply, Graph.disconnect?]
    cases s.graph.inbound? id pin <;> exact h
  | retype id tag => exact hstay hedit
  | rewrite id change => exact hstay hedit
  | load document => cases he

/-- The same along a session without loadings. -/
theorem nextIndex_run {edits : List Edit} (hload : ∀ e ∈ edits, e.isLoad = false) :
    (run edits).graph.nextIndex = .ofNat (run edits).placed := by
  induction edits using List.reverseRecOn with
  | nil => rfl
  | append_singleton edits e ih =>
    obtain ⟨hedits, he⟩ := List.forall_mem_append.1 hload
    rw [run_concat]
    exact (run edits).nextIndex_apply (ih hedits) (he e (List.mem_singleton_self e))

/-- While fewer than `UInt32.size` nodes are placed, the number for the next node never falls. -/
theorem nextIndex_le_apply (s : Session) (h : s.graph.nextIndex = .ofNat s.placed) {e : Edit}
    (he : e.isLoad = false) (hplaced : s.placedAfter e < UInt32.size) :
    s.graph.nextIndex ≤ (e.apply s.graph).nextIndex := by
  have hle := s.placed_le_placedAfter he
  have hafter : (e.apply s.graph).nextIndex = .ofNat (s.placedAfter e) := s.nextIndex_apply h he
  rw [h, hafter, UInt32.le_iff_toNat_le, UInt32.toNat_ofNat_of_lt' hplaced,
    UInt32.toNat_ofNat_of_lt' (Nat.lt_of_le_of_lt hle hplaced)]
  exact hle

/-- What holds of the empty graph and is kept by the steps of allowed edits holds of every graph
that a session of them without loadings reaches, as long as the numbers do not wrap around. -/
theorem run_induction {P : Graph → Prop} {A : Edit → Prop} (hempty : P .empty)
    (hstep : ∀ (g g' : Graph) (e : Edit), A e → g.WellFormed → P g → e.Step g g' → P g')
    {edits : List Edit} (hallowed : ∀ e ∈ edits, A e ∧ e.isLoad = false)
    (hplaced : (run edits).placed < UInt32.size) :
    (run edits).graph.WellFormed ∧ P (run edits).graph := by
  induction edits using List.reverseRecOn with
  | nil => exact ⟨.empty, hempty⟩
  | append_singleton edits e ih =>
    obtain ⟨hedits, he⟩ := List.forall_mem_append.1 hallowed
    obtain ⟨he, hload⟩ := List.forall_mem_singleton.1 he
    rw [run_concat] at hplaced ⊢
    have hle := (run edits).placed_le_placedAfter hload
    obtain ⟨hwf, hP⟩ := ih hedits (Nat.lt_of_le_of_lt hle hplaced)
    -- The bound on the nodes placed at the end holds all along, so no number wraps around.
    have hs := e.step_apply (run edits).graph hload
    have hroom := (run edits).nextIndex_le_apply (nextIndex_run fun e he => (hedits e he).2) hload
      hplaced
    exact ⟨hwf.step hs hroom, hstep _ _ e he hwf hP hs⟩

/-- Every graph that a session reaches is well formed. -/
theorem wellFormed_run {edits : List Edit} (hplaced : (run edits).placed < UInt32.size) :
    (run edits).graph.WellFormed := by
  obtain ⟨others, hothers, hrun, -⟩ := exists_run_without_load edits
  rw [← hrun] at hplaced ⊢
  exact (run_induction (P := fun _ => True) (A := fun _ => True) trivial
    (fun _ _ _ _ _ _ _ => trivial) (fun e he => ⟨trivial, (hothers e he).1⟩) hplaced).1

/-- Every graph that a session reaches without overwriting type tags is well typed. -/
theorem wellTyped_run {edits : List Edit} (hretype : ∀ e ∈ edits, e.isRetype = false)
    (hplaced : (run edits).placed < UInt32.size) : (run edits).graph.WellTyped := by
  obtain ⟨others, hothers, hrun, -⟩ := exists_run_without_load edits
  rw [← hrun] at hplaced ⊢
  refine (run_induction (P := Graph.WellTyped) (A := fun e => e.isRetype = false)
    .empty (fun _ _ _ he hwf h hs => h.step hwf he hs) (fun e he => ⟨?_, (hothers e he).1⟩)
    hplaced).2
  exact (hothers e he).2.elim (hretype e) Edit.Loads.isRetype_eq_false

end Session

/-! ## Sessions on the stores -/

namespace Arena

/-- The same edits reach the same graph, in the stores and as a list, if no loading is among
them. -/
theorem graph_run_of_not_load {edits : List Edit} (hload : ∀ e ∈ edits, e.isLoad = false)
    (hplaced : (Session.run edits).placed < UInt32.size) :
    (run edits).Coupled ∧ (run edits).graph = (Session.run edits).graph := by
  induction edits using List.reverseRecOn with
  | nil => exact ⟨.empty, rfl⟩
  | append_singleton edits e ih =>
    obtain ⟨hedits, he⟩ := List.forall_mem_append.1 hload
    replace he := he e (List.mem_singleton_self e)
    rw [Session.run_concat] at hplaced ⊢
    have hbefore := Nat.lt_of_le_of_lt ((Session.run edits).placed_le_placedAfter he) hplaced
    obtain ⟨hcoupled, hgraph⟩ := ih hedits hbefore
    -- The graph so far is well formed, so the next number is not in use.
    have hbelow : ∀ id ∈ (run edits).order, id.index < (run edits).nextIndex := by
      rw [← hcoupled.ids_graph, hgraph]
      have hnext : (run edits).nextIndex = (Session.run edits).graph.nextIndex :=
        congrArg Graph.nextIndex hgraph
      rw [hnext]
      exact (Session.wellFormed_run hbefore).ids_below
    have hstep := hcoupled.perform hbelow he
    rw [hgraph] at hstep
    rw [run_concat]
    exact hstep

/-- Every session reaches the same graph in the stores and as a list. -/
theorem graph_run {edits : List Edit} (hplaced : (Session.run edits).placed < UInt32.size) :
    (run edits).Coupled ∧ (run edits).graph = (Session.run edits).graph := by
  obtain ⟨others, hothers, hrun, harena⟩ := Session.exists_run_without_load edits
  rw [← hrun] at hplaced ⊢
  rw [← harena]
  exact graph_run_of_not_load (fun e he => (hothers e he).1) hplaced

end Arena

end CommandGraph
