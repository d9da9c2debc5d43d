import CommandGraph.Compile.Values

/-!
# What the standard scripts depend on

A standard script asks for input values of its own node and for nothing else, never for the pin
through which control enters, and it looks at the property values of the node. Scripts of the types
at which execution starts may also look at whether control enters the node. So two nodes that agree
in these have scripts that differ in the identity they ask about only (`Script.Mirrors`). In
particular no script depends on the identity itself, on the position, or on the size of the graph.
-/

namespace CommandGraph

namespace Script

/-- Two scripts that ask for the same input values, one of a node and the other of another, and do
the same with the same answers. Neither asks for the pin through which control enters. -/
inductive Mirrors {α : Type} (id id' : NodeId) : Script α → Script α → Prop
  /-- Both are done with the same result. -/
  | done (a : α) : Mirrors id id' (.done a) (.done a)
  /-- Both ask for the same input value. -/
  | ask {pin : String} (hpin : pin ≠ "Exec") {next next' : String → Script α}
      (hnext : ∀ answer, Mirrors id id' (next answer) (next' answer)) :
      Mirrors id id' (.ask (.resolve id pin) next) (.ask (.resolve id' pin) next')

variable {α β : Type} {id id' : NodeId}

/-- Returning a result asks nothing. -/
theorem Mirrors.pure (a : α) : Mirrors id id' (Pure.pure a) (Pure.pure a) :=
  .done a

/-- Scripts that go on alike mirror each other. -/
theorem Mirrors.bind {s t : Script α} (h : Mirrors id id' s t) {f f' : α → Script β}
    (hf : ∀ a, Mirrors id id' (f a) (f' a)) : Mirrors id id' (s >>= f) (t >>= f') := by
  induction h with
  | done a => exact hf a
  | ask hpin _ ih => exact .ask hpin ih

/-- Whatever mirrors a question asks for the same input value, and goes on alike. -/
theorem Mirrors.of_ask {q : Query} {next : String → Script α} {t : Script α}
    (h : Mirrors id id' (.ask q next) t) : ∃ pin next', pin ≠ "Exec" ∧ q = .resolve id pin ∧
      t = .ask (.resolve id' pin) next' ∧
      ∀ answer, Mirrors id id' (next answer) (next' answer) := by
  cases h with
  | @ask pin hpin _ next' hnext => exact ⟨pin, next', hpin, rfl, rfl, hnext⟩

end Script

/-- Two nodes agree in all that compilation looks at. Identity and position may differ. -/
structure Node.Alike (node node' : Node) : Prop where
  /-- They are of the same type. -/
  tag : node'.tag = node.tag
  /-- They have the same property values. -/
  properties : node'.properties = node.properties

namespace Node.Alike

variable {node node' : Node} (h : node.Alike node')

include h

theorem type? : node'.type? = node.type? :=
  congrArg Catalog.standard.find? h.tag

theorem propertyText (name : String) : node'.propertyText name = node.propertyText name := by
  simp only [Node.propertyText, Node.property?, h.properties]

theorem propertyFlag (name : String) : node'.propertyFlag name = node.propertyFlag name := by
  simp only [Node.propertyFlag, Node.property?, h.properties]

theorem propertyNumber? (name : String) :
    node'.propertyNumber? name = node.propertyNumber? name := by
  simp only [Node.propertyNumber?, Node.property?, h.properties]

end Node.Alike

/-- Two nodes look the same to a script, which may look at whether control enters. The graphs around
them may differ in size. -/
structure NodeView.Alike (looks : Prop) (view view' : NodeView) : Prop where
  /-- The nodes agree. -/
  node : view.node.Alike view'.node
  /-- Control enters both or neither, if the script looks at that. -/
  driven : looks → view'.driven = view.driven

namespace NodeView.Alike

variable {looks : Prop} {view view' : NodeView}

theorem refl (looks : Prop) (view : NodeView) : view.Alike looks view :=
  ⟨⟨rfl, rfl⟩, fun _ => rfl⟩

theorem property (h : view.Alike looks view') : view'.property = view.property :=
  funext h.node.propertyText

theorem propertyOr (h : view.Alike looks view') : view'.propertyOr = view.propertyOr := by
  funext name default
  rw [NodeView.propertyOr, NodeView.propertyOr, h.property]

theorem flag (h : view.Alike looks view') : view'.flag = view.flag :=
  funext h.node.propertyFlag

theorem number? (h : view.Alike looks view') : view'.number? = view.number? :=
  funext h.node.propertyNumber?

/-- Their input values are asked for alike. -/
theorem input (view view' : NodeView) {pin : String} (hpin : pin ≠ "Exec") :
    Script.Mirrors view.node.id view'.node.id (view.input pin) (view'.input pin) :=
  .ask hpin .done

/-- Their input values are asked for alike if there is a default. -/
theorem inputOr (view view' : NodeView) {pin : String} (hpin : pin ≠ "Exec") (default : String) :
    Script.Mirrors view.node.id view'.node.id (view.inputOr pin default)
      (view'.inputOr pin default) :=
  (input view view' hpin).bind fun _ => .pure _

end NodeView.Alike

/-- A script of a type does the same for nodes that look the same. -/
def Synthesizer.Local (looks : Prop) (script : Synthesizer) : Prop :=
  ∀ view view' : NodeView, view.Alike looks view' →
    Script.Mirrors view.node.id view'.node.id (script view) (script view')

/-- A script for the values of a type does the same for nodes that look the same. -/
def Producer.Local (looks : Prop) (script : Producer) : Prop :=
  ∀ (view view' : NodeView) (pin : String), view.Alike looks view' →
    Script.Mirrors view.node.id view'.node.id (script view pin) (script view' pin)

/-- Execution may start at nodes of a type. -/
def Catalog.IsEntry (tag : String) : Prop :=
  (standard.find? tag).any (·.entry)

instance : DecidablePred Catalog.IsEntry :=
  fun _ => inferInstanceAs (Decidable (_ = true))

/-- All scripts of a compiler are local. Those of types at which execution starts may look at
whether control enters. -/
structure Compiler.Local (compiler : Compiler) : Prop where
  /-- How commands are written. -/
  synthesizer : ∀ {tag script}, compiler.synthesizer? tag = some script →
    script.Local (Catalog.IsEntry tag)
  /-- How values are made. -/
  producer : ∀ {tag script}, compiler.producer? tag = some script →
    script.Local (Catalog.IsEntry tag)

open NodeView.Alike Script.Mirrors

/-- A command block looks at whether control enters, and what it writes is local otherwise. -/
theorem Commands.local_commandBlock {looks : Prop} (hlooks : looks) :
    Synthesizer.Local looks commandBlock := by
  intro view view' h
  simp only [commandBlock, blockSettings, blockLetter, h.property, h.flag, h.driven hlooks]
  exact (input view view' (by decide)).bind fun _ => .pure _

/-- What the standard types write is local. -/
theorem Compiler.local_standardSynthesizers :
    ∀ entry ∈ standardSynthesizers, Synthesizer.Local (Catalog.IsEntry entry.1) entry.2 := by
  simp only [standardSynthesizers, List.forall_mem_cons, List.not_mem_nil, false_imp_iff,
    implies_true, and_true]
  refine ⟨Commands.local_commandBlock (by decide), ?_, ?_, ?_, ?_, ?_, ?_, ?_, ?_, ?_, ?_, ?_, ?_,
    ?_, ?_, ?_, ?_, ?_, ?_, ?_⟩
  all_goals
    intro view view' h
    simp only [Commands.chatCommand, Commands.give, Commands.summon, Commands.execute, Commands.say,
      Commands.tellraw, Commands.effect, Commands.teleport, Commands.setblock, Commands.fill,
      Commands.kill, Commands.custom, Commands.gamemode, Commands.time, Commands.weather,
      Commands.tick, Commands.ride, Commands.damage, Commands.attributeAction?,
      Commands.attributeChange, h.property, h.propertyOr, h.number?]
    -- What is left are the questions, in the same order on both sides, and choices between them.
    repeat' first
      | exact .pure _
      | refine (input view view' (by decide)).bind fun _ => ?_
      | refine (inputOr view view' (by decide) _).bind fun _ => ?_
      | split

/-- The values that the standard types make are local. -/
theorem Compiler.local_standardProducers :
    ∀ entry ∈ standardProducers, Producer.Local (Catalog.IsEntry entry.1) entry.2 := by
  simp only [standardProducers, List.forall_mem_cons, List.not_mem_nil, false_imp_iff,
    implies_true, and_true]
  refine ⟨?_, ?_, ?_, ?_, ?_, ?_, ?_, ?_⟩
  all_goals
    intro view view' pin h
    simp only [Values.selector, Values.selectorArguments, Values.position, Values.nbt,
      Values.itemStack, Values.plain, Values.variableGet, Values.commandBlock, h.property,
      h.number?]
    repeat' first
      | exact .pure _
      | refine (input view view' (by decide)).bind fun _ => ?_
      | refine (inputOr view view' (by decide) _).bind fun _ => ?_
      | split

/-- The standard compiler is local. -/
theorem Compiler.local_standard : Compiler.standard.Local where
  synthesizer h := local_standardSynthesizers _ (Entries.mem_of_lookup h)
  producer h := local_standardProducers _ (Entries.mem_of_lookup h)

end CommandGraph
