import CommandGraph.Proofs.Compile.Control
import CommandGraph.Proofs.Compile.Locality
import CommandGraph.Proofs.Compile.Sharing
import CommandGraph.Proofs.Graph.Reachable

/-!
# Values without a guard

What a value is can be said by recursion, with no word about nodes under way: `Compiler.valueWith`
gives the value that a question asks for in terms of the values of others. If data flows in a
circle, this may say nothing, or contradict itself, and the guard of the resolver breaks the circle.
If it does not, the nodes under way are always downstream of the node that is asked about
(`Graph.Upstream`), so the guard has nothing to do. Then the recursion has exactly one solution, and
that is what the resolver replies (`Resolver.Unguarded.eq_of_valueWith`).

Scripts never ask for the value of the pin through which control enters, so circles of control do
not matter.
-/

namespace CommandGraph

open Relation

/-! ## What scripts ask for -/

namespace Script

variable {α : Type} {id : NodeId}

/-- A script asks for input values of one node, and never for the pin through which control
enters. -/
def AsksInputs (id : NodeId) (script : Script α) : Prop :=
  ∀ q, script.Asks q → ∃ pin, pin ≠ "Exec" ∧ q = .resolve id pin

theorem AsksInputs.pure (a : α) : AsksInputs id (Pure.pure a : Script α) := by
  intro q h
  cases h

theorem AsksInputs.ask {pin : String} {next : String → Script α} (hpin : pin ≠ "Exec")
    (hnext : ∀ answer, AsksInputs id (next answer)) :
    AsksInputs id (.ask (.resolve id pin) next) := by
  intro q h
  cases h with
  | here => exact ⟨pin, hpin, rfl⟩
  | later answer h => exact hnext answer q h

/-- Scripts that ask about two nodes alike ask for input values of them. -/
theorem Mirrors.asksInputs {id' : NodeId} {script script' : Script α}
    (h : Mirrors id id' script script') : AsksInputs id script := by
  induction h with
  | done a => exact .pure a
  | ask hpin _ ih => exact .ask hpin ih

end Script

/-- All scripts of a compiler ask for input values of their own node only. -/
structure Compiler.AsksInputs (compiler : Compiler) : Prop where
  /-- How commands are written. -/
  synthesizer : ∀ {tag script}, compiler.synthesizer? tag = some script →
    ∀ view : NodeView, (script view).AsksInputs view.node.id
  /-- How values are made. -/
  producer : ∀ {tag script}, compiler.producer? tag = some script →
    ∀ (view : NodeView) (pin : String), (script view pin).AsksInputs view.node.id

theorem Compiler.asksInputs_standard : Compiler.standard.AsksInputs where
  synthesizer h view := (local_standard.synthesizer h view view (.refl _ view)).asksInputs
  producer h view pin := (local_standard.producer h view view pin (.refl _ view)).asksInputs

/-! ## The flow of data -/

namespace Graph

/-- A connection that does not carry control leads from one node to another. -/
def Feeds (g : Graph) (source target : NodeId) : Prop :=
  ∃ c ∈ g.connections, c.isExec = false ∧ c.source = source ∧ c.target = target

/-- Data flows in no circle. -/
def Acyclic (g : Graph) : Prop :=
  ∀ id, ¬ TransGen g.Feeds id id

/-- Control enters nodes through the pin for it only. -/
def ControlApart (g : Graph) : Prop :=
  ∀ c ∈ g.connections, c.isExec → c.targetPin = "Exec"

/-- The values under way are made of the value that is asked for. Only the pin through which control
enters is no data, so nothing is under way when its value is asked for. -/
def Upstream (g : Graph) : Call → Prop
  | ⟨busy, .resolve id pin⟩ =>
    (pin = "Exec" → busy = []) ∧ ∀ other ∈ busy, ReflTransGen g.Feeds id other
  | ⟨busy, .output id _⟩ => ∀ other ∈ busy, TransGen g.Feeds id other
  | ⟨busy, .synthesize id⟩ => ∀ other ∈ busy, TransGen g.Feeds id other

variable {g : Graph}

theorem upstream_nil (q : Query) : g.Upstream ⟨[], q⟩ := by
  cases q <;> simp [Upstream]

/-- An edit keeps control apart. -/
theorem ControlApart.step (h : g.ControlApart) {e : Edit} {g' : Graph} (hs : e.Step g g') :
    g'.ControlApart := by
  cases hs with
  | refused => exact h
  | place htype position => exact h
  | remove id => exact fun c hc => h c (List.mem_of_mem_filter hc)
  | alter => exact h
  | @connect source target sourcePin targetPin kind hne hsource htarget =>
    refine List.forall_mem_append.2 ⟨fun c hc => h c (List.mem_of_mem_filter hc), ?_⟩
    refine List.forall_mem_singleton.2 fun hexec => (exec_iff_of_input htarget).1 ?_
    simpa [Connection.isExec, PinKind.isExec] using hexec
  | disconnect id pin => exact fun c hc => h c (List.mem_of_mem_eraseP hc)

end Graph

/-- Every session keeps control apart. -/
theorem Session.controlApart_run (edits : List Edit) : (run edits).graph.ControlApart := by
  obtain ⟨others, hothers, hrun, -⟩ := exists_run_without_load edits
  rw [← hrun]
  have hload : ∀ e ∈ others, e.isLoad = false := fun e he => (hothers e he).1
  clear hothers hrun
  -- No bound on the number of nodes is needed, since connections are looked at alone.
  induction others using List.reverseRecOn with
  | nil => exact fun c hc => absurd hc List.not_mem_nil
  | append_singleton others e ih =>
    obtain ⟨hothers, he⟩ := List.forall_mem_append.1 hload
    rw [run_concat]
    exact (ih hothers).step (e.step_apply _ (he e (List.mem_singleton_self e)))

/-! ## The guard has nothing to do -/

/-- A question is refused by the guard, since it is for a value under way. -/
def Call.Blocked : Call → Prop
  | ⟨_, .resolve _ _⟩ => False
  | ⟨busy, .output id _⟩ => id ∈ busy
  | ⟨busy, .synthesize id⟩ => id ∈ busy

theorem Graph.Acyclic.not_blocked {g : Graph} (h : g.Acyclic) {call : Call}
    (hup : g.Upstream call) : ¬ call.Blocked := by
  obtain ⟨busy, q⟩ := call
  cases q with
  | resolve id pin => exact not_false
  | output id pin => exact fun hid => h id (hup id hid)
  | synthesize id => exact fun hid => h id (hup id hid)

namespace Resolver

variable {compiler : Compiler} {g : Graph} {call next : Call} {q : Query} {busy : List NodeId}

theorem Makes.asksInputs (hscripts : compiler.AsksInputs) {id : NodeId} {script : Script String}
    (h : (compiler.resolver g).Makes call id script) : script.AsksInputs id := by
  cases h with
  | @produce _ id pin node hnode hpin hidle =>
    obtain rfl : node.id = id := (Graph.node?_eq_some hnode).2
    change Script.AsksInputs _ (((compiler.producer? node.tag).map _).getD _)
    cases hscript : compiler.producer? node.tag with
    | none => exact .pure _
    | some script => exact hscripts.producer hscript _ pin
  | @synthesize _ id node hnode hidle =>
    obtain rfl : node.id = id := (Graph.node?_eq_some hnode).2
    change Script.AsksInputs _ (((compiler.synthesizer? node.tag).map _).getD _)
    cases hscript : compiler.synthesizer? node.tag with
    | none => exact .pure _
    | some script => exact hscripts.synthesizer hscript _

/-- Whatever a question leads to is upstream of what is under way by then. -/
theorem Nests.upstream (hscripts : compiler.AsksInputs) (hg : g.ControlApart)
    (h : (compiler.resolver g).Nests call next) (hup : g.Upstream call) : g.Upstream next := by
  cases h with
  | @connected busy id pin node c hnode hc =>
    intro other hother
    rw [compiler.resolver_inbound?] at hc
    obtain ⟨hmem, rfl, rfl⟩ := Graph.inbound?_eq_some hc
    have hdata : c.isExec = false := by
      -- If control came through the connection, nothing would be under way.
      by_contra hexec
      rw [hup.1 (hg c hmem (by simpa using hexec))] at hother
      exact List.not_mem_nil hother
    exact .head' ⟨c, hmem, hdata, rfl, rfl⟩ (hup.2 other hother)
  | command hnode hpin => exact hup
  | nested hmakes hasks =>
    obtain ⟨pin, hpin, rfl⟩ := hmakes.asksInputs hscripts _ hasks
    -- The script belongs to the node that is asked about, which is now under way itself.
    refine ⟨fun h => absurd h hpin, List.forall_mem_cons.2 ⟨.refl, fun other hother => ?_⟩⟩
    cases hmakes with
    | produce => exact (hup other hother).to_reflTransGen
    | synthesize => exact (hup other hother).to_reflTransGen

/-! ## Whatever is under way, a value is the same -/

/-- The script that makes a value for an output pin asks nested questions. -/
theorem nests_producer {r : Resolver} {id : NodeId} {pin : String} {node : Node}
    {script : Producer} (hnode : r.graph.node? id = some node)
    (hpin : (node.type?.bind (·.valueOutput)) ≠ some pin) (hidle : id ∉ busy)
    (hscript : r.compiler.producer? node.tag = some script)
    (hasks : (script (r.view node) pin).Asks q) :
    r.Nests ⟨busy, .output id pin⟩ ⟨id :: busy, q⟩ :=
  .nested (.produce hnode hpin hidle) (by rwa [hscript])

/-- The script that writes a command asks nested questions. -/
theorem nests_synthesizer {r : Resolver} {id : NodeId} {node : Node} {script : Synthesizer}
    (hnode : r.graph.node? id = some node) (hidle : id ∉ busy)
    (hscript : r.compiler.synthesizer? node.tag = some script)
    (hasks : (script (r.view node)).Asks q) :
    r.Nests ⟨busy, .synthesize id⟩ ⟨id :: busy, q⟩ :=
  .nested (.synthesize hnode hidle) (by rwa [hscript])

/-- A property of questions that passes on to nested questions, and that the guard lets pass. -/
structure Unguarded (r : Resolver) (P : Call → Prop) : Prop where
  /-- Nested questions have it too. -/
  nested : ∀ {call next}, r.Nests call next → P call → P next
  /-- None of the questions is refused. -/
  idle : ∀ {call}, P call → ¬ call.Blocked

/-- In a graph without circles the guard lets pass what is upstream of all that is under way. -/
theorem unguarded_upstream (hscripts : compiler.AsksInputs) (hg : g.ControlApart)
    (hacyclic : g.Acyclic) : (compiler.resolver g).Unguarded g.Upstream where
  nested h hup := h.upstream hscripts hg hup
  idle hup := hacyclic.not_blocked hup

theorem Unguarded.of_nests {r : Resolver} {P : Call → Prop} (h : r.Unguarded P)
    (hnests : ReflTransGen r.Nests call next) (hcall : P call) : P next := by
  induction hnests with
  | refl => exact hcall
  | tail _ hnext ih => exact h.nested hnext ih

mutual

/-- An answer does not depend on what is under way where the guard has nothing to do. -/
theorem Answers.rebase {r : Resolver} {P : Call → Prop} (h : r.Unguarded P)
    {busy busy' : List NodeId} {q : Query} {text : String} :
    r.Answers busy q text → P ⟨busy, q⟩ → P ⟨busy', q⟩ → r.Answers busy' q text
  | .resolve_absent hnode, _, _ => .resolve_absent hnode
  | .resolve_property hnode hc, _, _ => .resolve_property hnode hc
  | .resolve_connected hnode hc hsource, hP, hP' =>
    .resolve_connected hnode hc
      (hsource.rebase h (h.nested (.connected hnode hc) hP) (h.nested (.connected hnode hc) hP'))
  | .output_absent hnode, _, _ => .output_absent hnode
  | .output_command hnode hpin hcommand, hP, hP' =>
    .output_command hnode hpin
      (hcommand.rebase h (h.nested (.command hnode hpin) hP) (h.nested (.command hnode hpin) hP'))
  -- The guard steps in only where a node is under way, which is nowhere here.
  | .output_busy _ _ hbusy, hP, _ => absurd hbusy (h.idle hP)
  | .output_property hnode hpin _ hscript, _, hP' =>
    .output_property hnode hpin (h.idle hP') hscript
  | .output_script hnode hpin hidle hscript hrun, hP, hP' =>
    .output_script hnode hpin (h.idle hP') hscript
      (hrun.rebase h (fun _ hasks => h.nested (nests_producer hnode hpin hidle hscript hasks) hP)
        (fun _ hasks => h.nested (nests_producer hnode hpin (h.idle hP') hscript hasks) hP'))
  | .synthesize_absent hnode, _, _ => .synthesize_absent hnode
  | .synthesize_busy _ hbusy, hP, _ => absurd hbusy (h.idle hP)
  | .synthesize_silent hnode _ hscript, _, hP' =>
    .synthesize_silent hnode (h.idle hP') hscript
  | .synthesize_script hnode hidle hscript hrun, hP, hP' =>
    .synthesize_script hnode (h.idle hP') hscript
      (hrun.rebase h (fun _ hasks => h.nested (nests_synthesizer hnode hidle hscript hasks) hP)
        (fun _ hasks => h.nested (nests_synthesizer hnode (h.idle hP') hscript hasks) hP'))

/-- Nor does the result of a script. -/
theorem Runs.rebase {r : Resolver} {P : Call → Prop} (h : r.Unguarded P)
    {busy busy' : List NodeId} {script : Script String} {text : String} :
    r.Runs busy script text → (∀ q, script.Asks q → P ⟨busy, q⟩) →
      (∀ q, script.Asks q → P ⟨busy', q⟩) → r.Runs busy' script text
  | .done, _, _ => .done
  | .ask hreply hnext, hP, hP' =>
    .ask (hreply.rebase h (hP _ .here) (hP' _ .here))
      (hnext.rebase h (fun q hasks => hP q (.later _ hasks)) fun q hasks => hP' q (.later _ hasks))

end

end Resolver

/-! ## Values by recursion -/

/-- What scripts see of a node. -/
def Graph.view (g : Graph) (node : Node) : NodeView where
  node := node
  driven := g.hasInboundExec node.id
  graphSize := g.size

/-- The value that a question asks for, made of the values that `value` gives. No node is under way
here: this is the definition of values without a guard against circles. -/
def Compiler.valueWith (compiler : Compiler) (g : Graph) (value : Query → String) : Query → String
  | .resolve id pin =>
    match g.node? id with
    | none => ""
    | some node =>
      match g.inbound? id pin with
      | some c => value (.output c.source c.sourcePin)
      | none => node.propertyText (Text.lowerCase pin)
  | .output id pin =>
    match g.node? id with
    | none => ""
    | some node =>
      if (node.type?.bind (·.valueOutput)) = some pin then value (.synthesize id)
      else
        match compiler.producer? node.tag with
        | some script => (script (g.view node) pin).run (m := Id) value
        | none => node.propertyText "value"
  | .synthesize id =>
    match g.node? id with
    | none => ""
    | some node =>
      match compiler.synthesizer? node.tag with
      | some script => (script (g.view node)).run (m := Id) value
      | none => ""

namespace Resolver

variable {compiler : Compiler} {g : Graph} {q : Query} {busy : List NodeId} {text : String}
  {value : Query → String}

theorem view_resolver (compiler : Compiler) (g : Graph) (node : Node) :
    (compiler.resolver g).view node = g.view node := by
  rw [view, compiler.resolver_hasInboundExec]
  rfl

/-- A script that gets the same answers has the same result. -/
theorem Runs.run_eq {r : Resolver} {script : Script String} (h : r.Runs busy script text)
    (hvalue : ∀ q reply, script.Asks q → r.Answers busy q reply → value q = reply) :
    script.run (m := Id) value = text := by
  induction script with
  | done => cases h; rfl
  | ask q next ih =>
    cases h with
    | @ask _ _ _ reply _ hreply hnext =>
      obtain rfl := hvalue q reply .here hreply
      exact ih _ hnext fun q reply hasks => hvalue q reply (.later _ hasks)

/-- An answer that the guard has no part in is what the definition says, if the answers that it is
made of are. -/
theorem Answers.valueWith_eq (h : (compiler.resolver g).Answers busy q text)
    (hidle : ¬ (Call.mk busy q).Blocked)
    (hvalue : ∀ next, (compiler.resolver g).Nests ⟨busy, q⟩ next → ∀ reply,
      (compiler.resolver g).Answers next.busy next.query reply → value next.query = reply) :
    compiler.valueWith g value q = text := by
  cases h with
  | resolve_absent hnode =>
    rw [compiler.resolver_graph] at hnode
    simp only [Compiler.valueWith, hnode]
  | resolve_connected hnode hc hsource =>
    have hnested := hvalue _ (.connected hnode hc) _ hsource
    rw [compiler.resolver_graph] at hnode
    rw [compiler.resolver_inbound?] at hc
    simpa only [Compiler.valueWith, hnode, hc] using hnested
  | resolve_property hnode hc =>
    rw [compiler.resolver_graph] at hnode
    rw [compiler.resolver_inbound?] at hc
    simp only [Compiler.valueWith, hnode, hc]
  | output_absent hnode =>
    rw [compiler.resolver_graph] at hnode
    simp only [Compiler.valueWith, hnode]
  | output_command hnode hpin hcommand =>
    have hnested := hvalue _ (.command hnode hpin) _ hcommand
    rw [compiler.resolver_graph] at hnode
    simpa only [Compiler.valueWith, hnode, hpin, if_true] using hnested
  -- The answers of the guard do not occur.
  | output_busy hnode hpin hbusy => exact absurd hbusy hidle
  | output_property hnode hpin _ hscript =>
    rw [compiler.resolver_graph] at hnode
    simp only [Compiler.valueWith, hnode, hpin, if_false]
    rw [show compiler.producer? _ = none from hscript]
  | output_script hnode hpin hidle hscript hrun =>
    -- The script gets the values that it gets by the definition.
    have hnested := hrun.run_eq fun q reply hasks =>
      hvalue _ (nests_producer hnode hpin hidle hscript hasks) reply
    rw [compiler.resolver_graph] at hnode
    rw [view_resolver] at hnested
    simp only [Compiler.valueWith, hnode, hpin, if_false]
    rwa [show compiler.producer? _ = some _ from hscript]
  | synthesize_absent hnode =>
    rw [compiler.resolver_graph] at hnode
    simp only [Compiler.valueWith, hnode]
  | synthesize_busy hnode hbusy => exact absurd hbusy hidle
  | synthesize_silent hnode _ hscript =>
    rw [compiler.resolver_graph] at hnode
    simp only [Compiler.valueWith, hnode]
    rw [show compiler.synthesizer? _ = none from hscript]
  | synthesize_script hnode hidle hscript hrun =>
    have hnested := hrun.run_eq fun q reply hasks =>
      hvalue _ (nests_synthesizer hnode hidle hscript hasks) reply
    rw [compiler.resolver_graph] at hnode
    rw [view_resolver] at hnested
    simp only [Compiler.valueWith, hnode]
    rwa [show compiler.synthesizer? _ = some _ from hscript]

/-- Where the guard has nothing to do, every question is answered as if nothing were under way. -/
theorem Unguarded.reply_eq {r : Resolver} {P : Call → Prop} (h : r.Unguarded P) (hP : P ⟨busy, q⟩)
    (hnil : P ⟨[], q⟩) (hanswers : r.Answers busy q text) : r.reply q = text :=
  (r.answers_iff q text).1 (hanswers.rebase h hP hnil)

/-- The replies of the resolver are as the definition says. -/
theorem Unguarded.reply_eq_valueWith {P : Call → Prop} (h : (compiler.resolver g).Unguarded P)
    (hnil : ∀ q, P ⟨[], q⟩) (q : Query) :
    (compiler.resolver g).reply q = compiler.valueWith g (compiler.resolver g).reply q := by
  have hanswers := ((compiler.resolver g).answers_iff q _).2 rfl
  -- A script asks while its node is under way, but the answers are the same as without.
  refine (hanswers.valueWith_eq (h.idle (hnil q)) fun next hnext reply hreply => ?_).symm
  exact h.reply_eq (h.nested hnext (hnil q)) (hnil _) hreply

/-- Only the answers of the rules are as the definition says, wherever the guard has nothing
to do. -/
theorem Unguarded.eq_of_valueWith {P : Call → Prop} (h : (compiler.resolver g).Unguarded P)
    (hvalue : ∀ q, value q = compiler.valueWith g value q) (call : Call) (hP : P call)
    (text : String) (hanswers : (compiler.resolver g).Answers call.busy call.query text) :
    value call.query = text := by
  -- Nested questions have less room, so there is no infinite descent.
  induction hroom : (compiler.resolver g).room call using Nat.strongRecOn
    generalizing call text with
  | ind room ih =>
    rw [hvalue]
    refine hanswers.valueWith_eq (h.idle hP) fun next hnext reply hreply => ?_
    exact ih _ (hroom ▸ hnext.room_lt) next (h.nested hnext hP) reply hreply rfl

end Resolver

/-- Where data flows in no circle, the guard of the resolver has nothing to do. No question that
another one leads to is refused, and every question gets the answer that it gets when nothing is
under way, so a value that is needed in several places is whole in each. The definition of values
without a guard has one solution, and the resolver gives it. -/
theorem Session.resolution_of_acyclic (edits : List Edit) (hacyclic : (run edits).graph.Acyclic) :
    let g := (run edits).graph
    let r := Compiler.standard.resolver g
    (∀ q call, ReflTransGen r.Nests ⟨[], q⟩ call →
      ¬ call.Blocked ∧ (r.ask call.query).run call.busy = (r.reply call.query, call.busy)) ∧
    ∀ value : Query → String,
      (∀ q, value q = Compiler.standard.valueWith g value q) ↔ value = r.reply := by
  intro g r
  -- Upstream questions lead to upstream ones only, and the first one has nothing under way.
  have h : r.Unguarded g.Upstream :=
    Resolver.unguarded_upstream Compiler.asksInputs_standard (controlApart_run edits) hacyclic
  refine ⟨fun q call hnests => ?_, fun value => ⟨fun hvalue => funext fun q => ?_, ?_⟩⟩
  · have hup := h.of_nests hnests (Graph.upstream_nil q)
    obtain ⟨text, hgives, hanswers⟩ := r.exists_gives_ask call.busy call.query
    refine ⟨h.idle hup, ?_⟩
    rw [h.reply_eq hup (Graph.upstream_nil _) hanswers]
    exact hgives
  · exact h.eq_of_valueWith hvalue ⟨[], q⟩ (Graph.upstream_nil q) _ ((r.answers_iff q _).2 rfl)
  · rintro rfl q
    exact h.reply_eq_valueWith Graph.upstream_nil q

/-- A selector that is used by a command in two places, and also by the command that this one runs.
Control goes round in a circle. -/
def Session.sharedSelector : List Edit :=
  [.add "selector" {}, .add "kill" {}, .add "execute" {},
    .connect ⟨0⟩ "Selector" ⟨1⟩ "Target", .connect ⟨0⟩ "Selector" ⟨2⟩ "As",
    .connect ⟨0⟩ "Selector" ⟨2⟩ "At", .connect ⟨1⟩ "Command" ⟨2⟩ "Run",
    .connect ⟨1⟩ "Exec" ⟨2⟩ "Exec", .connect ⟨2⟩ "Exec" ⟨1⟩ "Exec"]

/-- A graph has no circles if its data connections all lead to nodes that were placed later. -/
theorem Graph.acyclic_of_ascending {g : Graph}
    (h : ∀ c ∈ g.connections, c.isExec = false → c.source.index < c.target.index) : g.Acyclic := by
  have hlt : ∀ a b, TransGen g.Feeds a b → a.index < b.index := by
    intro a b hab
    induction hab with
    | single hfeeds =>
      obtain ⟨c, hc, hdata, rfl, rfl⟩ := hfeeds
      exact h c hc hdata
    | tail _ hfeeds ih =>
      obtain ⟨c, hc, hdata, rfl, rfl⟩ := hfeeds
      exact UInt32.lt_trans ih (h c hc hdata)
  exact fun id hid => UInt32.lt_irrefl _ (hlt id id hid)

/-- The shared selector is whole in all three places. -/
theorem Session.resolution_of_acyclic_sharedSelector :
    let g := (run sharedSelector).graph
    g.Acyclic ∧ g.connections.length = 6 ∧
      ∀ value : Query → String, (∀ q, value q = Compiler.standard.valueWith g value q) →
        value (.synthesize ⟨2⟩) = "execute as @a at @a run kill @a" := by
  have hacyclic : (run sharedSelector).graph.Acyclic :=
    Graph.acyclic_of_ascending (by decide)
  refine ⟨hacyclic, by decide, fun value hvalue => ?_⟩
  obtain rfl := ((resolution_of_acyclic sharedSelector hacyclic).2 value).1 hvalue
  decide +kernel

end CommandGraph
