import CommandGraph.Compile.Wiring
import CommandGraph.Proofs.Graph.Reachable

/-!
# Making and finding connections

Two pins can be connected exactly if they are there, on the right sides of different nodes, and of
one kind (`Graph.exists_connect_iff`). In every graph that a session reaches, at most one connection
enters an input pin (`Session.pairwise_run`). So a new connection drives out one other at most, and
all else stays as it was (`Session.connect_local`).

The index from which a compilation works answers like a search through the whole list of connections
(`Wiring.answers_like_list`).
-/

namespace CommandGraph

/-! ## When pins can be connected -/

namespace Graph

variable {g connected : Graph} {source target id : NodeId} {sourcePin targetPin pin : String}

/-- Two pins can be connected exactly if their nodes differ and have standard types that declare
them on the right sides, with one kind. -/
theorem exists_connect_iff :
    (∃ connected, g.connect source sourcePin target targetPin = .ok connected) ↔
      source ≠ target ∧ ∃ sourceType targetType,
        g.type? source = some sourceType ∧ g.type? target = some targetType ∧
        ∃ output ∈ sourceType.outputs, ∃ input ∈ targetType.inputs,
          output.name = sourcePin ∧ input.name = targetPin ∧ output.kind = input.kind := by
  simp only [connect_eq_ok_iff, pinKind_eq_ok_iff]
  constructor
  · rintro ⟨-, kind, hne, ⟨sourceType, hsource, output, houtput, hname, rfl⟩,
      ⟨targetType, htarget, input, hinput, hname', hkind⟩, -⟩
    exact ⟨hne, sourceType, targetType, hsource, htarget, output, houtput, input, hinput, hname,
      hname', hkind.symm⟩
  · rintro ⟨hne, sourceType, targetType, hsource, htarget, output, houtput, input, hinput, hname,
      hname', hkind⟩
    exact ⟨_, output.kind, hne, ⟨sourceType, hsource, output, houtput, hname, rfl⟩,
      ⟨targetType, htarget, input, hinput, hname', hkind.symm⟩, rfl⟩

/-! ## One connection into a pin -/

/-- Every step of an edit leaves one connection into a pin at most, if there were no more before. -/
theorem pairwise_step {e : Edit} (hs : e.Step g connected)
    (h : g.connections.Pairwise fun c d => ¬ (c.target = d.target ∧ c.targetPin = d.targetPin)) :
    connected.connections.Pairwise fun c d =>
      ¬ (c.target = d.target ∧ c.targetPin = d.targetPin) := by
  cases hs with
  | refused => exact h
  | place htype position => exact h
  | remove id => exact h.filter _
  | alter => exact h
  | @connect source target sourcePin targetPin kind hne hsource htarget =>
    exact pairwise_replace h { source, sourcePin, target, targetPin, kind }
  | disconnect id pin => exact h.sublist List.eraseP_sublist

end Graph

/-- At most one connection enters an input pin, however many nodes were placed. -/
theorem Session.pairwise_run (edits : List Edit) :
    (run edits).graph.connections.Pairwise fun c d =>
      ¬ (c.target = d.target ∧ c.targetPin = d.targetPin) := by
  obtain ⟨others, hothers, hrun, -⟩ := exists_run_without_load edits
  have hload : ∀ e ∈ others, e.isLoad = false := fun e he => (hothers e he).1
  rw [← hrun]
  clear hothers hrun
  -- The invariant of the edits so far carries over by what the last one can do.
  induction others using List.reverseRecOn with
  | nil => exact List.Pairwise.nil
  | append_singleton others e ih =>
    obtain ⟨hothers, he⟩ := List.forall_mem_append.1 hload
    rw [run_concat]
    exact Graph.pairwise_step (e.step_apply _ (he e (List.mem_singleton_self e))) (ih hothers)

/-! ## What a new connection changes -/

/-- Where one entry at most has a property, leaving out all that have it erases the first. -/
theorem filter_not_eq_eraseP {α : Type} {p : α → Bool} {entries : List α}
    (h : entries.Pairwise fun a b => ¬ (p a = true ∧ p b = true)) :
    entries.filter (!p ·) = entries.eraseP p := by
  induction entries with
  | nil => rfl
  | cons a entries ih =>
    obtain ⟨hfirst, hrest⟩ := List.pairwise_cons.1 h
    cases ha : p a with
    | true =>
      rw [List.filter_cons_of_neg (by simp [ha]), List.eraseP_cons_of_pos ha, List.filter_eq_self]
      intro b hb
      simpa [ha] using hfirst b hb
    | false =>
      rw [List.filter_cons_of_pos (by simp [ha]), List.eraseP_cons_of_neg (by simp [ha]), ih hrest]

theorem Connection.enters_iff {c : Connection} {id : NodeId} {pin : String} :
    c.enters id pin = true ↔ c.target = id ∧ c.targetPin = pin := by
  simp [enters]

namespace Graph

variable {g : Graph} {id : NodeId} {pin : String}

/-- Disconnecting an input pin erases what feeds it, if there is anything. -/
theorem apply_disconnect (g : Graph) (id : NodeId) (pin : String) :
    (Edit.disconnect id pin).apply g =
      { g with connections := g.connections.eraseP (·.enters id pin) } := by
  rw [Edit.apply, disconnect?]
  cases h : g.inbound? id pin with
  | some c => rfl
  | none =>
    rw [List.eraseP_of_forall_not (List.find?_eq_none.1 h)]
    rfl

/-- The graph in which a connection has taken the place of the one into its input pin. -/
def replace (g : Graph) (new : Connection) : Graph :=
  { g with connections := g.connections.filter (!·.enters new.target new.targetPin) ++ [new] }

variable (g) (new : Connection)

theorem not_enters_of_mem_filter {c : Connection}
    (h : c ∈ g.connections.filter (!·.enters new.target new.targetPin)) :
    ¬ c.enters new.target new.targetPin = true := by
  simpa using (List.mem_filter.1 h).2

theorem inbound?_replace : (g.replace new).inbound? new.target new.targetPin = some new := by
  have hold : (g.connections.filter (!·.enters new.target new.targetPin)).find?
      (·.enters new.target new.targetPin) = none :=
    List.find?_eq_none.2 fun c hc => g.not_enters_of_mem_filter new hc
  rw [inbound?, replace, List.find?_append, hold, Option.none_or]
  exact List.find?_cons_of_pos (Connection.enters_iff.2 ⟨rfl, rfl⟩)

/-- Other pins are fed as before. -/
theorem inbound?_replace_of_ne (hne : (id, pin) ≠ (new.target, new.targetPin)) :
    (g.replace new).inbound? id pin = g.inbound? id pin := by
  have hnew : [new].find? (·.enters id pin) = none := by
    refine List.find?_eq_none.2 fun c hc hcEnters => hne ?_
    rw [List.mem_singleton.1 hc, Connection.enters_iff] at hcEnters
    rw [hcEnters.1, hcEnters.2]
  have hold : (g.connections.filter (!·.enters new.target new.targetPin)).find? (·.enters id pin) =
      g.connections.find? (·.enters id pin) := by
    rw [List.find?_filter]
    congr 1
    funext c
    rw [Bool.eq_iff_iff, decide_eq_true_iff, Bool.not_eq_true', ← Bool.not_eq_true]
    refine and_iff_right_of_imp fun hc hcNew => hne ?_
    rw [Connection.enters_iff] at hc hcNew
    rw [← hc.1, ← hc.2, hcNew.1, hcNew.2]
  rw [inbound?, inbound?, replace, List.find?_append, hold, hnew, Option.or_none]

theorem filter_connections_replace :
    (g.replace new).connections.filter (!·.enters new.target new.targetPin) =
      g.connections.filter (!·.enters new.target new.targetPin) := by
  simp [replace, List.filter_append, Connection.enters]

theorem disconnect?_replace
    (h : g.connections.Pairwise fun c d => ¬ (c.target = d.target ∧ c.targetPin = d.targetPin)) :
    (g.replace new).disconnect? new.target new.targetPin =
      some (new, (Edit.disconnect new.target new.targetPin).apply g) := by
  have hsingle : g.connections.Pairwise fun c d => ¬ (c.enters new.target new.targetPin = true ∧
      d.enters new.target new.targetPin = true) := by
    refine h.imp fun {c d} hcd hboth => hcd ?_
    rw [Connection.enters_iff, Connection.enters_iff] at hboth
    exact ⟨hboth.1.1.trans hboth.2.1.symm, hboth.1.2.trans hboth.2.2.symm⟩
  have herase : [new].eraseP (·.enters new.target new.targetPin) = [] :=
    List.eraseP_cons_of_pos (Connection.enters_iff.2 ⟨rfl, rfl⟩)
  rw [disconnect?, inbound?_replace, apply_disconnect, ← filter_not_eq_eraseP hsingle,
    Option.map_some, replace,
    List.eraseP_append_right _ fun c hc => g.not_enters_of_mem_filter new hc, herase,
    List.append_nil]

end Graph

/-- Connecting is atomic and local, in every graph that a session reaches. It succeeds exactly for
pins of one kind that the types of two different nodes declare on the right sides, and a refusal
leaves the graph as it was. A success leaves the nodes, their order and the next identity. The new
connection feeds its input pin, every other pin is fed as before, the connections into other pins
stay in their order, and taking the new connection away again leaves what taking away the one
before it would have left. In the stores, a refusal comes before any change, a success changes the
connections alone, and either is what it is in the graph. -/
theorem Session.connect_local (edits : List Edit) (source : NodeId) (sourcePin : String)
    (target : NodeId) (targetPin : String) :
    let g := (run edits).graph
    ((∃ connected, g.connect source sourcePin target targetPin = .ok connected) ↔
      source ≠ target ∧ ∃ sourceType targetType,
        g.type? source = some sourceType ∧ g.type? target = some targetType ∧
        ∃ output ∈ sourceType.outputs, ∃ input ∈ targetType.inputs,
          output.name = sourcePin ∧ input.name = targetPin ∧ output.kind = input.kind) ∧
    (∀ error, g.connect source sourcePin target targetPin = .error error →
      (run (edits ++ [.connect source sourcePin target targetPin])).graph = g) ∧
    (∀ connected, g.connect source sourcePin target targetPin = .ok connected →
      (run (edits ++ [.connect source sourcePin target targetPin])).graph = connected ∧
      connected.nodes = g.nodes ∧ connected.nextIndex = g.nextIndex ∧
      ∃ kind, g.pinKind source .output sourcePin = .ok kind ∧
        connected.inbound? target targetPin =
          some { source, sourcePin, target, targetPin, kind } ∧
        (∀ id pin, (id, pin) ≠ (target, targetPin) →
          connected.inbound? id pin = g.inbound? id pin) ∧
        connected.connections.filter (!·.enters target targetPin) =
          g.connections.filter (!·.enters target targetPin) ∧
        connected.disconnect? target targetPin =
          some ({ source, sourcePin, target, targetPin, kind },
            (run (edits ++ [.disconnect target targetPin])).graph)) ∧
    let a := Arena.run edits
    (∀ result after, (Arena.connect source sourcePin target targetPin).run.run a =
        (result, after) →
      after.table = a.table ∧ after.order = a.order ∧ after.nextIndex = a.nextIndex ∧
        ∀ error, result = .error error → after = a) ∧
    ((run edits).placed < UInt32.size →
      a.Refines (Arena.connect source sourcePin target targetPin)
        (g.connect source sourcePin target targetPin)) := by
  intro g
  refine ⟨Graph.exists_connect_iff, fun error herror => ?_, fun connected hconnected => ?_,
    fun result after => Arena.connect_frame, fun hplaced => ?_⟩
  · rw [run_concat, apply, Edit.apply, herror]
    rfl
  · obtain ⟨kind, -, hsource, -, hreplace⟩ := Graph.connect_eq_ok_iff.1 hconnected
    have hrun :
        (run (edits ++ [.connect source sourcePin target targetPin])).graph = connected := by
      rw [run_concat, apply, Edit.apply, hconnected]
      rfl
    have hdisconnect : (run (edits ++ [.disconnect target targetPin])).graph =
        (Edit.disconnect target targetPin).apply g := by
      rw [run_concat]
      rfl
    -- From here on it is a matter of replacing one connection in a list.
    let new : Connection := { source, sourcePin, target, targetPin, kind }
    change connected = g.replace new at hreplace
    rw [hrun, hdisconnect, hreplace]
    exact ⟨rfl, rfl, rfl, kind, hsource, g.inbound?_replace new,
      fun id pin => g.inbound?_replace_of_ne new, g.filter_connections_replace new,
      g.disconnect?_replace new (pairwise_run edits)⟩
  -- The stores hold the graph of the session, so connecting in them is connecting in it.
  · obtain ⟨hcoupled, hgraph⟩ := Arena.graph_run hplaced
    have hrefines := hcoupled.refines_connect source sourcePin target targetPin
    rwa [hgraph] at hrefines

/-- Two selectors, the first of which feeds a pin, and a number that feeds another pin. -/
def Session.twoSelectors : List Edit :=
  [.add "give" {}, .add "selector" {}, .add "selector" {}, .add "number" {},
    .connect ⟨1⟩ "Selector" ⟨0⟩ "Target", .connect ⟨3⟩ "Number" ⟨0⟩ "Count"]

/-- The second selector takes the place of the first and leaves the number alone. The number cannot
take the place of a selector, and trying it changes nothing. -/
theorem Session.connect_local_twoSelectors :
    let g := (run twoSelectors).graph
    let new : Connection := ⟨⟨2⟩, "Selector", ⟨0⟩, "Target", .selector⟩
    (∃ connected, g.connect ⟨2⟩ "Selector" ⟨0⟩ "Target" = .ok connected ∧
      connected.inbound? ⟨0⟩ "Target" = some new ∧
      connected.inbound? ⟨0⟩ "Count" = g.inbound? ⟨0⟩ "Count" ∧
      connected.disconnect? ⟨0⟩ "Target" =
        some (new, (run (twoSelectors ++ [.disconnect ⟨0⟩ "Target"])).graph)) ∧
    g.connect ⟨3⟩ "Number" ⟨0⟩ "Target" = .error (.kindMismatch .number .selector) ∧
      (run (twoSelectors ++ [.connect ⟨3⟩ "Number" ⟨0⟩ "Target"])).graph = g ∧
      ((Arena.connect ⟨3⟩ "Number" ⟨0⟩ "Target").run.run (Arena.run twoSelectors)).2 =
        Arena.run twoSelectors := by
  intro g new
  have hmismatch : g.connect ⟨3⟩ "Number" ⟨0⟩ "Target" = .error (.kindMismatch .number .selector) :=
    rfl
  have hrefusedStores :
      ((Arena.connect ⟨3⟩ "Number" ⟨0⟩ "Target").run.run (Arena.run twoSelectors)).1 =
        .error (.kindMismatch .number .selector) := by decide +kernel
  obtain ⟨-, hrefused, -, hstores, -⟩ := connect_local twoSelectors ⟨3⟩ "Number" ⟨0⟩ "Target"
  obtain ⟨-, -, haccepted, -, -⟩ := connect_local twoSelectors ⟨2⟩ "Selector" ⟨0⟩ "Target"
  refine ⟨?_, hmismatch, hrefused _ hmismatch, (hstores _ _ rfl).2.2.2 _ hrefusedStores⟩
  cases hconnect : g.connect ⟨2⟩ "Selector" ⟨0⟩ "Target" with
  | error e => cases hconnect
  | ok connected =>
    obtain ⟨-, -, -, kind, hkind, hfed, hothers, -, hback⟩ := haccepted connected hconnect
    obtain rfl : PinKind.selector = kind := Except.ok.inj hkind
    exact ⟨connected, rfl, hfed, hothers ⟨0⟩ "Count" (by decide), hback⟩

/-! ## The index of the connections -/

/-- The first of some connections that has a property. -/
def IsFirst (connections : List Connection) (P : Connection → Prop) (c : Connection) : Prop :=
  ∃ before after, connections = before ++ c :: after ∧ P c ∧ ∀ d ∈ before, ¬ P d

theorem find?_eq_some_iff_isFirst {connections : List Connection} {p : Connection → Bool}
    {P : Connection → Prop} (h : ∀ c, p c = true ↔ P c) {c : Connection} :
    connections.find? p = some c ↔ IsFirst connections P c := by
  simp only [List.find?_eq_some_iff_append, IsFirst, ← h, Bool.not_eq_true', Bool.not_eq_true]
  constructor
  · rintro ⟨hc, before, after, heq, hbefore⟩
    exact ⟨before, after, heq, hc, hbefore⟩
  · rintro ⟨before, after, heq, hc, hbefore⟩
    exact ⟨hc, before, after, heq, hbefore⟩

/-- The index of a graph's connections answers like a search through the list of them, whatever the
list: it finds what feeds a pin, whether control enters a node, the first connection that leaves a
pin, and the first one through which control leaves a node, by whatever pin. -/
theorem Wiring.answers_like_list (g : Graph) (id : NodeId) (pin : String) :
    let wiring := ofConnections g.connections
    wiring.inbound? id pin = g.inbound? id pin ∧
    wiring.hasInboundExec id = g.hasInboundExec id ∧
    (∀ c, wiring.outgoing? id pin = some c ↔
      IsFirst g.connections (fun d => d.source = id ∧ d.sourcePin = pin) c) ∧
    ∀ c, wiring.nextExec? id = some c ↔
      IsFirst g.connections (fun d => d.source = id ∧ d.kind = .exec) c := by
  intro wiring
  refine ⟨inbound?_ofConnections g.connections id pin,
    hasInboundExec_ofConnections g.connections id, fun c => ?_, fun c => ?_⟩
  · rw [outgoing?_ofConnections]
    exact find?_eq_some_iff_isFirst fun d => by simp [Connection.leaves]
  · rw [nextExec?_ofConnections]
    exact find?_eq_some_iff_isFirst fun d => by simp [Connection.isExec, PinKind.isExec]

end CommandGraph
