import CommandGraph.Proofs.Compile.DataFlow
import CommandGraph.Proofs.Text.Line

/-!
# The wording of commands

Where no property has a line feed in it, every value that is resolved stands on one line
(`Resolver.Answers.oneLine`), and so does every command but those of anchors. An anchor, which is a
command block or a command for the chat, writes a comment and below it the command
(`Compiler.synthesize_of_anchor`). No node writes what looks like a comment, unless the text of the
command is given by hand (`Compiler.opens_commandText`).

All this is said of scripts first: what they make of answers of which something is known
(`Script.Yields`).
-/

namespace CommandGraph

/-! ## Texts on one line -/

namespace Text

/-- A text has no line feed in it. -/
def OneLine (s : String) : Prop :=
  '\n' ∉ s.toList

instance (s : String) : Decidable (OneLine s) :=
  inferInstanceAs (Decidable ('\n' ∉ s.toList))

@[simp]
theorem oneLine_append {s t : String} : OneLine (s ++ t) ↔ OneLine s ∧ OneLine t := by
  simp [OneLine, String.toList_append]

/-- Joining texts on one line gives one line. -/
theorem oneLine_intercalate {sep : String} {texts : List String} (hsep : OneLine sep)
    (h : ∀ text ∈ texts, OneLine text) : OneLine (sep.intercalate texts) := by
  unfold OneLine
  rw [String.toList_intercalate]
  induction texts with
  | nil => simp
  | cons text rest ih =>
    obtain ⟨htext, hrest⟩ := List.forall_mem_cons.1 h
    cases rest with
    | nil => simpa [OneLine] using htext
    | cons next rest =>
      rw [List.map_cons, List.map_cons, List.intercalate_cons_cons]
      simp only [List.mem_append, not_or]
      exact ⟨⟨htext, hsep⟩, ih hrest⟩

/-- Trimming brings in no line feed. -/
theorem OneLine.trim {s : String} (h : OneLine s) : OneLine (trim s) := by
  unfold OneLine
  rw [Text.trim, String.toList_ofList]
  exact fun hmem => h ((trimChars_sublist _).subset hmem)

/-- No letter becomes a line feed by being written large. -/
theorem eq_feed_of_toUpper {c : Char} (h : c.toUpper = '\n') : c = '\n' := by
  unfold Char.toUpper at h
  split at h
  next hrange =>
    -- The distance to the capital letters is added with a carry.
    have hval : (c.val + ('A'.val - 'a'.val)).toNat = 10 := congrArg (fun d => d.val.toNat) h
    rw [UInt32.toNat_add] at hval
    obtain ⟨hlow, hhigh⟩ := hrange
    rw [UInt32.le_iff_toNat_le] at hlow hhigh
    simp only [Char.reduceVal, UInt32.reduceToNat, Char.toNat_val, UInt32.reduceSub,
      Nat.reducePow] at hlow hhigh hval
    omega
  next => exact h

end Text

open Text (OneLine)

/-- A value on one line stays so with a default in its place. -/
theorem oneLine_orDefault {value default : String} (hvalue : OneLine value)
    (hdefault : OneLine default) : OneLine (orDefault value default) := by
  unfold orDefault
  split
  · exact hdefault
  · exact hvalue

/-! ## What scripts make of answers -/

namespace Script

variable {α β : Type} {P : String → Prop} {Q : α → Prop} {R : β → Prop}

/-- Whatever answers with one property a script gets, its result has another. -/
def Yields (P : String → Prop) (Q : α → Prop) : Script α → Prop
  | done a => Q a
  | ask _ next => ∀ answer, P answer → (next answer).Yields P Q

theorem Yields.pure {a : α} (h : Q a) : (Pure.pure a : Script α).Yields P Q :=
  h

/-- Scripts are run one after the other: what the first one yields is all that the second one can
rely on. -/
theorem Yields.bind {script : Script α} {next : α → Script β} (h : script.Yields P Q)
    (hnext : ∀ a, Q a → (next a).Yields P R) : (script >>= next).Yields P R := by
  induction script with
  | done a => exact hnext a h
  | ask q rest ih => exact fun answer hanswer => ih answer (h answer hanswer)

/-! ### Running with answers that are there -/

variable {value : Query → String}

@[simp]
theorem run_pure (a : α) : (Pure.pure a : Script α).run (m := Id) value = a :=
  rfl

/-- The second of two scripts gets the result of the first one. -/
@[simp]
theorem run_bind (script : Script α) (next : α → Script β) :
    (script >>= next).run (m := Id) value =
      (next (script.run (m := Id) value)).run (m := Id) value := by
  induction script with
  | done a => rfl
  | ask q rest ih => exact ih _

end Script

namespace NodeView

variable (view : NodeView) (pin : String)

/-- A script gets the answer to its question for an input value. -/
@[simp]
theorem run_input {value : Query → String} :
    (view.input pin).run (m := Id) value = value (.resolve view.node.id pin) :=
  rfl

/-- The default is put in behind the answer. -/
@[simp]
theorem run_inputOr {value : Query → String} (default : String) :
    (view.inputOr pin default).run (m := Id) value =
      orDefault (value (.resolve view.node.id pin)) default := by
  simp [inputOr]

theorem yields_input {P : String → Prop} : (view.input pin).Yields P P :=
  fun _ hanswer => hanswer

/-- An input value with a default is on one line if the default is. -/
theorem yields_inputOr {default : String} (hdefault : OneLine default) :
    (view.inputOr pin default).Yields OneLine OneLine :=
  (view.yields_input pin).bind fun _ hvalue => oneLine_orDefault hvalue hdefault

end NodeView

/-! ## Commands on one line -/

namespace Commands

/-- A text begins with a character that is neither blank nor the sign of comments. -/
def Opens (text : String) : Prop :=
  ∃ c cs, text.toList = c :: cs ∧ Text.isBlank c = false ∧ c ≠ '#'

/-- A command begins with its first word. -/
theorem prefix_joinParts {word : String} (h : Text.isBlankText word = false)
    (others : List String) : (Text.trim word).toList <+: (joinParts (word :: others)).toList := by
  rw [joinParts, List.filter_cons_of_pos (by simp [h]), List.map_cons, String.toList_intercalate]
  exact Text.prefix_intercalate_cons _ _ _

/-- A command opens as its first word does. -/
theorem opens_joinParts {parts : List String} (h : ∃ word ∈ parts.head?, Opens word) :
    Opens (joinParts parts) := by
  obtain ⟨word, hhead, c, cs, hword, hblank, hsign⟩ := h
  obtain ⟨others, rfl⟩ := List.head?_eq_some_iff.1 hhead
  have hkept : Text.isBlankText word = false := by
    simp [Text.isBlankText, hword, hblank]
  -- Trimming takes nothing away in front, and whatever follows the word stands behind it.
  obtain ⟨ds, htrim⟩ : ∃ ds, (Text.trim word).toList = c :: ds := by
    rw [Text.trim, String.toList_ofList, hword]
    exact List.head?_eq_some_iff.1 (Text.head?_trimChars_cons hblank cs)
  obtain ⟨rest, hrest⟩ := prefix_joinParts hkept others
  rw [htrim] at hrest
  exact ⟨c, ds ++ rest, hrest.symm, hblank, hsign⟩

/-- Parts on one line make a command on one line. -/
theorem oneLine_joinParts {parts : List String} (h : ∀ part ∈ parts, OneLine part) :
    OneLine (joinParts parts) := by
  refine Text.oneLine_intercalate (by decide) fun text htext => ?_
  obtain ⟨part, hpart, rfl⟩ := List.mem_map.1 htext
  exact (h part (List.mem_of_mem_filter hpart)).trim

/-- The settings of a block have one letter of a property in them, which is no line feed. -/
theorem oneLine_blockSettings {view : NodeView} (h : ∀ name, OneLine (view.property name)) :
    OneLine (blockSettings view) := by
  have hletter : blockLetter view ≠ '\n' := by
    unfold blockLetter
    split
    · decide
    · split
      next c hc =>
        -- A line feed would have to be in the property already.
        intro hupper
        obtain rfl := Text.eq_feed_of_toUpper hupper
        exact h "blockType" (List.mem_of_head? hc)
      next => decide
  unfold OneLine blockSettings
  rw [String.toList_ofList]
  simp only [List.mem_cons, List.not_mem_nil, or_false, not_or]
  refine ⟨by decide, hletter.symm, ?_, ?_, by decide⟩ <;> split <;> decide

/-- The settings of a block begin with a bracket. -/
theorem opens_blockSettings (view : NodeView) : Opens (blockSettings view) :=
  ⟨_, _, String.toList_ofList, by decide, by decide⟩

/-- The comment that a node of an anchor type puts above its command. -/
def anchorComment? : String → Option String
  | "command_block" => some "# Command block"
  | "chat_command" => some "# In chat"
  | _ => none

/-- There are two types of anchors. -/
theorem eq_of_anchorComment? {tag comment : String} (h : anchorComment? tag = some comment) :
    tag = "command_block" ∧ comment = "# Command block" ∨
      tag = "chat_command" ∧ comment = "# In chat" := by
  unfold anchorComment? at h
  split at h
  · exact .inl ⟨rfl, (Option.some.inj h).symm⟩
  · exact .inr ⟨rfl, (Option.some.inj h).symm⟩
  · cases h

/-- What a node of a type that is no anchor writes. Only a command given by hand may look like a
comment. -/
structure Written (tag text : String) : Prop where
  /-- There is no line feed. -/
  oneLine : OneLine text
  /-- There is nothing or the command has a keyword. -/
  opens : tag ≠ "custom" → text = "" ∨ Opens text

theorem written_empty (tag : String) : Written tag "" :=
  ⟨by decide, fun _ => .inl rfl⟩

/-- A command with a keyword, all parts of which are on one line, is as it should be. -/
theorem written_joinParts {tag : String} {parts : List String}
    (hword : ∃ word ∈ parts.head?, Opens word) (h : ∀ part ∈ parts, OneLine part) :
    Written tag (joinParts parts) :=
  ⟨oneLine_joinParts h, fun _ => .inr (opens_joinParts hword)⟩

/-- A clause is on one line, where it is written. -/
theorem oneLine_clause {keyword value : String} (hkeyword : OneLine keyword)
    (hvalue : OneLine value) : ∀ part ∈ clause keyword value, OneLine part := by
  unfold clause
  split <;> simp [hkeyword, hvalue]

section

variable {view : NodeView} (h : ∀ name, OneLine (view.property name))

include h

theorem oneLine_propertyOr (name : String) {default : String} (hdefault : OneLine default) :
    OneLine (view.propertyOr name default) :=
  oneLine_orDefault (h name) hdefault

/-- What an `attribute` command does is on one line. -/
theorem oneLine_attributeAction {action : List String}
    (haction : attributeAction? view = some action) : ∀ part ∈ action, OneLine part := by
  have huuid := oneLine_propertyOr h "uuid" (show OneLine modifierUuid by decide)
  have hname := oneLine_propertyOr h "name" (show OneLine modifierName by decide)
  unfold attributeAction? at haction
  split at haction <;> cases haction <;> simp +decide [h, huuid, hname]

/-- An `attribute` command has a keyword, or there is none. -/
theorem yields_attributeChange :
    (attributeChange view).Yields OneLine (Written "attribute") := by
  refine (view.yields_inputOr _ (by decide)).bind fun target htarget => ?_
  split
  next => exact .pure (written_empty _)
  next action haction =>
    refine .pure (written_joinParts ⟨_, rfl, _, _, rfl, by decide, by decide⟩ ?_)
    refine List.forall_mem_append.2 ⟨?_, oneLine_attributeAction h haction⟩
    simp +decide [h, htarget]

/-- An `execute` command has a keyword, or there is none. -/
theorem yields_execute : (execute view).Yields OneLine (Written "execute") := by
  refine (view.yields_input _).bind fun run hrun => ?_
  -- Where nothing is to be run, the other values are not asked for.
  split
  next => exact .pure (written_empty _)
  next =>
    refine (view.yields_input _).bind fun subject hsubject => ?_
    refine (view.yields_input _).bind fun place hplace => ?_
    refine .pure (written_joinParts ⟨_, rfl, _, _, rfl, by decide, by decide⟩ ?_)
    simp only [List.forall_mem_cons, List.append_assoc, List.forall_mem_append]
    exact ⟨by decide, oneLine_clause (by decide) hsubject, oneLine_clause (by decide) hplace,
      oneLine_clause (by decide) (h _), oneLine_clause (by decide) (h _), by decide, hrun, by simp⟩

end

/-- The standard types apart from anchors write one line. -/
theorem yields_standardSynthesizers : ∀ entry ∈ Compiler.standardSynthesizers,
    anchorComment? entry.1 = none → ∀ view : NodeView, (∀ name, OneLine (view.property name)) →
      (entry.2 view).Yields OneLine (Written entry.1) := by
  simp only [Compiler.standardSynthesizers, List.forall_mem_cons, List.not_mem_nil, false_imp_iff,
    implies_true, and_true]
  refine ⟨fun htag => absurd htag (by decide), fun htag => absurd htag (by decide), ?_, ?_,
    fun _ _ h => yields_execute h, ?_, ?_, ?_, ?_, ?_, ?_, ?_,
    fun _ _ h => .pure ⟨h _, absurd rfl⟩, ?_, ?_, ?_, ?_, ?_, ?_,
    fun _ _ h => yields_attributeChange h⟩
  all_goals
    intro _ view h
    simp only [give, summon, say, tellraw, effect, teleport, setblock, fill, kill, gamemode, time,
      weather, tick, ride, damage]
    -- Questions and choices end with a keyword and parts of which none breaks the line.
    repeat' first
      | refine (view.yields_inputOr _ (by decide)).bind fun _ _ => ?_
      | refine (view.yields_inputOr _ (oneLine_joinParts (by simp [h]))).bind fun _ _ => ?_
      | refine (view.yields_input _).bind fun _ _ => ?_
      | split
      | refine Script.Yields.pure (written_joinParts ⟨_, rfl, _, _, rfl, by decide, by decide⟩ ?_)
    all_goals simp +decide [oneLine_propertyOr h, *]

end Commands

/-! ## Values on one line -/

namespace Values

theorem oneLine_argument {key value : String} (hkey : OneLine key) (hvalue : OneLine value) :
    ∀ part ∈ argument key value, OneLine part := by
  unfold argument
  split
  · simp
  · simp +decide [hkey, hvalue]

/-- The arguments of a selector are on one line. -/
theorem oneLine_selectorArguments {view : NodeView} (h : ∀ name, OneLine (view.property name)) :
    ∀ part ∈ selectorArguments view, OneLine part := by
  unfold selectorArguments
  simp only [List.forall_mem_append, List.mem_flatMap, forall_exists_index, and_imp]
  refine ⟨⟨fun part key hkey => oneLine_argument ?_ (h _) part, ?_⟩,
    oneLine_argument (by decide) (h _)⟩
  · -- The keys are fixed, so this can be tried for each of them.
    revert key
    decide
  · split <;> simp +decide [h]

theorem oneLine_coordinateMark (mode : String) : OneLine (coordinateMark mode) := by
  unfold coordinateMark
  split
  · decide
  · split <;> decide

/-- The standard types make values on one line. -/
theorem yields_standardProducers : ∀ entry ∈ Compiler.standardProducers,
    ∀ (view : NodeView) (pin : String), (∀ name, OneLine (view.property name)) →
      (entry.2 view pin).Yields OneLine OneLine := by
  simp only [Compiler.standardProducers, List.forall_mem_cons, List.not_mem_nil, false_imp_iff,
    implies_true, and_true]
  refine ⟨?selector, ?position, fun _ _ h => .pure (h _), ?itemStack, fun _ _ h => .pure (h _),
    fun _ _ h => .pure (h _), ?variableGet, ?commandBlock⟩
  all_goals intro view pin h
  case selector =>
    unfold selector
    split
    · exact .pure (h _)
    · have harguments := Text.oneLine_intercalate (show OneLine "," by decide)
        (oneLine_selectorArguments h)
      exact .pure (by simp +decide [h, harguments])
  case position =>
    refine .pure (Text.oneLine_intercalate (by decide) fun text htext => ?_)
    obtain ⟨axis, -, rfl⟩ := List.mem_map.1 htext
    exact Text.oneLine_append.2 ⟨oneLine_coordinateMark _, h axis⟩
  case itemStack =>
    exact (view.yields_inputOr _ (h _)).bind fun _ hvalue =>
      .pure (Text.oneLine_append.2 ⟨h _, hvalue⟩)
  case variableGet => exact .pure (by simp +decide [h])
  case commandBlock =>
    unfold commandBlock
    split
    · exact (view.yields_input _).bind fun _ hvalue => .pure hvalue.trim
    · exact .pure (h _)

end Values

/-! ## Answers on one line -/

/-- No property of a node has a line feed in its text. -/
def Graph.Unbroken (g : Graph) : Prop :=
  ∀ node ∈ g.nodes, ∀ entry ∈ node.properties.entries, OneLine entry.2.asText

instance (g : Graph) : Decidable g.Unbroken :=
  inferInstanceAs (Decidable (∀ node ∈ g.nodes, _))

/-- A property that is not there has no line feed either. -/
theorem Graph.Unbroken.propertyText {g : Graph} (h : g.Unbroken) {node : Node}
    (hnode : node ∈ g.nodes) (name : String) : OneLine (node.propertyText name) := by
  unfold Node.propertyText Node.property?
  cases hvalue : node.properties.find? name with
  | none => decide
  | some value => exact h node hnode (name, value) (Entries.mem_of_lookup hvalue)

/-- A question is not for the command of an anchor. -/
def Graph.OffAnchor (g : Graph) : Query → Prop
  | .synthesize id => ∀ node, g.node? id = some node → Commands.anchorComment? node.tag = none
  | _ => True

/-- Anchors do not hand out their commands. -/
theorem Node.anchorComment?_of_valueOutput {node : Node} {pin : String}
    (h : (node.type?.bind (·.valueOutput)) = some pin) :
    Commands.anchorComment? node.tag = none := by
  unfold Commands.anchorComment?
  split
  next htag => rw [Node.type?, htag] at h; cases h
  next htag => rw [Node.type?, htag] at h; cases h
  next => rfl

namespace Resolver

variable {g : Graph}

mutual

/-- All answers are on one line, apart from the commands of anchors. -/
theorem Answers.oneLine (h : g.Unbroken) {busy : List NodeId} {q : Query} {text : String} :
    (Compiler.standard.resolver g).Answers busy q text → g.OffAnchor q → OneLine text
  | .resolve_absent _, _ => by decide
  | .resolve_connected _ _ hsource, _ => hsource.oneLine h trivial
  | .resolve_property hnode _, _ => h.propertyText (Graph.node?_eq_some hnode).1 _
  | .output_absent _, _ => by decide
  | .output_command hnode hpin hcommand, _ => by
    -- A command that is handed out as a value is not that of an anchor.
    refine hcommand.oneLine h fun node hnode' => ?_
    obtain rfl := Option.some.inj (hnode.symm.trans hnode')
    exact Node.anchorComment?_of_valueOutput hpin
  | .output_busy _ _ _, _ => by decide
  | .output_property hnode _ _ _, _ => h.propertyText (Graph.node?_eq_some hnode).1 _
  | .output_script hnode _ _ hscript hrun, _ =>
    hrun.of_yields h
      (Values.yields_standardProducers _ (Entries.mem_of_lookup hscript) _ _
        (h.propertyText (Graph.node?_eq_some hnode).1))
      (Compiler.asksInputs_standard.producer hscript _ _)
  | .synthesize_absent _, _ => by decide
  | .synthesize_busy _ _, _ => by decide
  | .synthesize_silent _ _ _, _ => by decide
  | .synthesize_script hnode _ hscript hrun, hanchor =>
    (hrun.of_yields h
      (Commands.yields_standardSynthesizers _ (Entries.mem_of_lookup hscript) (hanchor _ hnode) _
        (h.propertyText (Graph.node?_eq_some hnode).1))
      (Compiler.asksInputs_standard.synthesizer hscript _)).oneLine

/-- A script that asks for input values has a result as it yields from answers on one line. -/
theorem Runs.of_yields (h : g.Unbroken) {busy : List NodeId} {script : Script String}
    {text : String} {id : NodeId} {Q : String → Prop} :
    (Compiler.standard.resolver g).Runs busy script text → script.Yields OneLine Q →
      script.AsksInputs id → Q text
  | .done, hyields, _ => hyields
  | .ask hreply hnext, hyields, hasks => by
    have hinput := hasks _ .here
    -- The question is for an input value, so its answer is on one line.
    refine hnext.of_yields h (hyields _ (hreply.oneLine h ?_)) fun q hq => hasks q (.later _ hq)
    obtain ⟨pin, -, rfl⟩ := hinput
    trivial

end

/-- What a node is found to write, whatever nodes are under way, is as it should be. -/
theorem Answers.written (h : g.Unbroken) {busy : List NodeId} {id : NodeId} {node : Node}
    {text : String} (hanswers : (Compiler.standard.resolver g).Answers busy (.synthesize id) text)
    (hnode : g.node? id = some node) (hcomment : Commands.anchorComment? node.tag = none) :
    Commands.Written node.tag text := by
  cases hanswers with
  | synthesize_absent | synthesize_busy | synthesize_silent => exact Commands.written_empty _
  | synthesize_script hnode' _ hscript hrun =>
    obtain rfl := Option.some.inj (hnode.symm.trans hnode')
    exact hrun.of_yields h
      (Commands.yields_standardSynthesizers _ (Entries.mem_of_lookup hscript) hcomment _
        (h.propertyText (Graph.node?_eq_some hnode).1))
      (Compiler.asksInputs_standard.synthesizer hscript _)

/-! ## Commands apart from comments -/

/-- The value of an input pin as the scripts of its own node get it: they ask for it while the node
is under way. -/
def ownInput (r : Resolver) (id : NodeId) (pin : String) : String :=
  ((r.ask (.resolve id pin)).run [id]).1

/-- The command that a node writes, without the comment that an anchor puts above it. -/
def commandText (r : Resolver) (node : Node) : String :=
  match node.tag with
  | "command_block" =>
    Commands.joinParts [Commands.blockSettings (r.view node), r.ownInput node.id "Command"]
  | "chat_command" => Text.trim (r.ownInput node.id "Command")
  | _ => r.synthesize node.id

variable {r : Resolver} {id : NodeId} {node : Node}

/-- The command of a block stands behind its settings. -/
theorem commandText_commandBlock (htag : node.tag = "command_block") :
    r.commandText node =
      Commands.joinParts [Commands.blockSettings (r.view node), r.ownInput node.id "Command"] := by
  rw [commandText, htag]
  rfl

/-- The command for the chat is what comes in, trimmed. -/
theorem commandText_chatCommand (htag : node.tag = "chat_command") :
    r.commandText node = Text.trim (r.ownInput node.id "Command") := by
  rw [commandText, htag]
  rfl

/-- The value that a script gets is the answer while its node is under way. -/
theorem answers_ownInput (r : Resolver) (id : NodeId) (pin : String) :
    r.Answers [id] (.resolve id pin) (r.ownInput id pin) := by
  obtain ⟨text, hgives, hanswers⟩ := r.exists_gives_ask [id] (.resolve id pin)
  have hown : r.ownInput id pin = text := congrArg Prod.fst hgives
  rwa [hown]

/-- A command is what the synthesizer makes of the answers that it gets. -/
theorem synthesize_eq_run (hnode : r.graph.node? id = some node) {script : Synthesizer}
    (hscript : r.compiler.synthesizer? node.tag = some script) :
    r.synthesize id = (script (r.view node)).run (m := Id) fun q => ((r.ask q).run [id]).1 := by
  have hanswers := (r.answers_iff (.synthesize id) (r.synthesize id)).2 rfl
  generalize r.synthesize id = text at hanswers ⊢
  cases hanswers with
  | synthesize_absent habsent => cases hnode.symm.trans habsent
  | synthesize_busy _ hbusy => cases hbusy
  | synthesize_silent hnode' _ hsilent =>
    obtain rfl := Option.some.inj (hnode.symm.trans hnode')
    cases hscript.symm.trans hsilent
  | synthesize_script hnode' _ hscript' hrun =>
    obtain rfl := Option.some.inj (hnode.symm.trans hnode')
    obtain rfl := Option.some.inj (hscript.symm.trans hscript')
    -- Answers are unique, so the run that gave the command got the same ones.
    refine (hrun.run_eq fun q reply _ hreply => ?_).symm
    obtain ⟨text, hgives, hanswers⟩ := r.exists_gives_ask [id] q
    exact (congrArg Prod.fst hgives).trans (hanswers.unique hreply)

/-- Where data flows in no circle, a script gets the values that anyone gets. -/
theorem ownInput_eq_resolve (hg : g.ControlApart) (hacyclic : g.Acyclic) (id : NodeId)
    {pin : String} (hpin : pin ≠ "Exec") :
    (Compiler.standard.resolver g).ownInput id pin =
      (Compiler.standard.resolver g).resolve id pin := by
  have hunguarded := unguarded_upstream Compiler.asksInputs_standard hg hacyclic
  -- The node itself is all that is under way.
  have hup : g.Upstream ⟨[id], .resolve id pin⟩ :=
    ⟨fun h => absurd h hpin, List.forall_mem_singleton.2 .refl⟩
  exact (hunguarded.reply_eq hup (Graph.upstream_nil _) (answers_ownInput _ id pin)).symm

end Resolver

namespace Compiler

open Commands

variable {g : Graph} {id : NodeId} {node : Node}

/-- A command is what the script for a tag makes of the answers that it gets. -/
theorem synthesize_of_tag {tag : String} {script : Synthesizer} (hnode : g.node? id = some node)
    (htag : node.tag = tag) (hscript : standard.synthesizer? tag = some script) :
    (standard.resolver g).synthesize id =
      (script ((standard.resolver g).view node)).run (m := Id)
        fun q => (((standard.resolver g).ask q).run [id]).1 :=
  Resolver.synthesize_eq_run hnode (htag ▸ hscript)

/-- An anchor writes a comment and, below it, its command. -/
theorem synthesize_of_anchor (hnode : g.node? id = some node) {comment : String}
    (hcomment : anchorComment? node.tag = some comment) :
    (standard.resolver g).synthesize id =
      anchored comment ((standard.resolver g).commandText node) := by
  obtain rfl : node.id = id := (Graph.node?_eq_some hnode).2
  rcases eq_of_anchorComment? hcomment with ⟨htag, rfl⟩ | ⟨htag, rfl⟩
  · rw [synthesize_of_tag hnode htag rfl, commandBlock, Script.run_bind, Script.run_pure,
      Resolver.commandText_commandBlock htag]
    rfl
  · rw [synthesize_of_tag hnode htag rfl, chatCommand, Script.run_bind, Script.run_pure,
      Resolver.commandText_chatCommand htag]
    rfl

/-- Any other node writes its command alone. -/
theorem synthesize_of_plain (hnode : g.node? id = some node)
    (hcomment : anchorComment? node.tag = none) :
    (standard.resolver g).synthesize id = (standard.resolver g).commandText node := by
  obtain rfl : node.id = id := (Graph.node?_eq_some hnode).2
  unfold anchorComment? at hcomment
  unfold Resolver.commandText
  split at hcomment
  · cases hcomment
  · cases hcomment
  · rfl

/-- What a node writes is as it should be, anchors apart. -/
theorem written_synthesize (h : g.Unbroken) (hnode : g.node? id = some node)
    (hcomment : anchorComment? node.tag = none) :
    Written node.tag ((standard.resolver g).synthesize id) :=
  (((standard.resolver g).answers_iff (.synthesize id) _).2 rfl).written h hnode hcomment

/-- Every command is on one line. -/
theorem oneLine_commandText (h : g.Unbroken) (hnode : g.node? id = some node) :
    OneLine ((standard.resolver g).commandText node) := by
  have hinput : OneLine ((standard.resolver g).ownInput node.id "Command") :=
    ((standard.resolver g).answers_ownInput _ _).oneLine h trivial
  have hproperty := h.propertyText (Graph.node?_eq_some hnode).1
  cases hcomment : anchorComment? node.tag with
  | none =>
    rw [← synthesize_of_plain hnode hcomment]
    exact (written_synthesize h hnode hcomment).oneLine
  | some comment =>
    rcases eq_of_anchorComment? hcomment with ⟨htag, -⟩ | ⟨htag, -⟩
    · rw [Resolver.commandText_commandBlock htag]
      exact oneLine_joinParts (List.forall_mem_cons.2
        ⟨oneLine_blockSettings hproperty, List.forall_mem_singleton.2 hinput⟩)
    · rw [Resolver.commandText_chatCommand htag]
      exact hinput.trim

/-- Only commands that are given by hand may look like comments. -/
theorem opens_commandText (h : g.Unbroken) (hnode : g.node? id = some node)
    (hchat : node.tag ≠ "chat_command") (hcustom : node.tag ≠ "custom") :
    (standard.resolver g).commandText node = "" ∨
      Opens ((standard.resolver g).commandText node) := by
  cases hcomment : anchorComment? node.tag with
  | none =>
    rw [← synthesize_of_plain hnode hcomment]
    exact (written_synthesize h hnode hcomment).opens hcustom
  | some comment =>
    rcases eq_of_anchorComment? hcomment with ⟨htag, -⟩ | ⟨htag, -⟩
    · rw [Resolver.commandText_commandBlock htag]
      exact .inr (opens_joinParts ⟨_, rfl, opens_blockSettings _⟩)
    · exact absurd htag hchat

end Compiler

end CommandGraph
