import CommandGraph.Proofs.Compile.Parts

/-!
# Defaults of fields

Some fields of commands have a default (`Node.parts`). A value that is not blank is written without
the blanks around it, and the default is written for an empty value. A value of blanks alone is
neither: no default stands in for it, and the field is missing from the command
(`Commands.Part.Lost`).

## Main results

* `Compiler.synthesize_eq_joinParts`: a command is put together from the parts of its node;
* `Commands.joinParts_given`: what each part comes to, place by place;
* `Compiler.defaults_written`: the command is as the defaults promise exactly if no field is lost.
-/

namespace CommandGraph

/-! ## Joined texts -/

namespace Text

theorem trim_ne_empty {s : String} (h : isBlankText s = false) : trim s ≠ "" := by
  rw [ne_eq, trim_eq_empty_iff, h]
  exact Bool.false_ne_true

theorem space_cons_intercalate {texts : List String} (h : texts ≠ []) :
    ' ' :: (" ".intercalate texts).toList = texts.flatMap (' ' :: ·.toList) := by
  induction texts with
  | nil => exact absurd rfl h
  | cons text rest ih =>
    cases rest with
    | nil => simp
    | cons next rest =>
      rw [List.flatMap_cons, ← ih (List.cons_ne_nil _ _), String.intercalate_cons_cons,
        String.toList_append, String.toList_append]
      simp

/-- Texts cannot be left out of a joined text without a change. -/
theorem eq_of_sublist_of_intercalate_eq {texts others : List String} (h : texts.Sublist others)
    (hne : texts ≠ []) (heq : " ".intercalate texts = " ".intercalate others) :
    texts = others := by
  obtain ⟨left, hperm⟩ := h.exists_perm_append
  have hother : others ≠ [] := fun hnil => hne (List.sublist_nil.1 (hnil ▸ h))
  have hlength := (hperm.flatMap_right (' ' :: ·.toList)).length_eq
  rw [List.flatMap_append, List.length_append, ← space_cons_intercalate hne,
    ← space_cons_intercalate hother, heq] at hlength
  -- Every text that is left out would take at least a space.
  have hleft : left = [] := by
    cases left with
    | nil => rfl
    | cons text rest =>
      simp only [List.flatMap_cons, List.length_append, List.length_cons] at hlength
      omega
  rw [hleft, List.append_nil] at hperm
  exact h.eq_of_length hperm.length_eq.symm

end Text

namespace Commands

/-! ## Parts of commands -/

/-- A text that can stand in for a value: it is not empty, and there are no blanks around it. -/
structure Token where
  /-- The text. -/
  text : String
  /-- There is something to write. -/
  ne_empty : text ≠ "" := by decide
  /-- It is written as it is. -/
  trimmed : Text.trim text = text := by decide

namespace Token

/-- The texts of some values, none of them blank, with spaces between them. -/
def joined (values : List String) (hne : values ≠ [])
    (h : ∀ value ∈ values, Text.isBlankText value = false) : Token where
  text := " ".intercalate (values.map Text.trim)
  ne_empty := by
    -- The text begins with the first of the values.
    obtain ⟨value, rest, rfl⟩ := List.exists_cons_of_ne_nil hne
    intro hempty
    have hfront := Text.prefix_intercalate_cons " ".toList (Text.trim value).toList
      ((rest.map Text.trim).map String.toList)
    rw [← List.map_cons, ← List.map_cons, ← String.toList_intercalate, hempty] at hfront
    exact Text.trim_ne_empty (h value List.mem_cons_self) (by simpa using hfront)
  trimmed :=
    Text.trim_intercalate (List.forall_mem_map.2 fun value hvalue =>
      ⟨Text.trim_ne_empty (h value hvalue), Text.trim_trim value⟩)

theorem not_blank (token : Token) : Text.isBlankText token.text = false := by
  rw [← Bool.not_eq_true, ← Text.trim_eq_empty_iff, token.trimmed]
  exact token.ne_empty

end Token

/-- A part of a command. -/
inductive Part where
  /-- A text, which is left out if it is blank. -/
  | text (value : String)
  /-- A field with a default. -/
  | field (value : String) (default : Token)

namespace Part

/-- The text that is handed over when a command is put together. -/
def given : Part → String
  | text value => value
  | field value default => orDefault value default.text

/-- What stands in the command. -/
def written? : Part → Option String
  | text value => if Text.isBlankText value then none else some (Text.trim value)
  | field value default =>
    if value = "" then some default.text
    else if Text.isBlankText value then none
    else some (Text.trim value)

/-- What should stand in the command: the default of a field is there for every blank value. -/
def promised? : Part → Option String
  | text value => if Text.isBlankText value then none else some (Text.trim value)
  | field value default =>
    some (if Text.isBlankText value then default.text else Text.trim value)

/-- A field has a value of blanks. -/
def Lost : Part → Prop
  | text _ => False
  | field value _ => value ≠ "" ∧ Text.isBlankText value = true

instance : (part : Part) → Decidable part.Lost
  | text _ => inferInstanceAs (Decidable False)
  | field _ _ => inferInstanceAs (Decidable (_ ∧ _))

theorem written?_eq (part : Part) :
    part.written? =
      if Text.isBlankText part.given then none else some (Text.trim part.given) := by
  cases part with
  | text value => rfl
  | field value default =>
    simp only [written?, given, orDefault, String.isEmpty_iff]
    split
    next => simp [default.not_blank, default.trimmed]
    next => rfl

theorem written?_of_lost {part : Part} (h : part.Lost) :
    part.written? = none ∧ ∃ text, part.promised? = some text := by
  cases part with
  | text value => exact h.elim
  | field value default =>
    refine ⟨?_, _, rfl⟩
    rw [written?, if_neg h.1, if_pos h.2]

theorem written?_of_not_lost {part : Part} (h : ¬ part.Lost) : part.written? = part.promised? := by
  cases part with
  | text value => rfl
  | field value default =>
    by_cases hempty : value = ""
    · subst hempty
      rfl
    · have hblank : ¬ Text.isBlankText value = true := fun hblank => h ⟨hempty, hblank⟩
      simp [written?, promised?, hempty, hblank]

end Part

/-- Each part comes to a text of its own, or to nothing. -/
theorem joinParts_given (parts : List Part) :
    joinParts (parts.map Part.given) = " ".intercalate (parts.filterMap Part.written?) := by
  rw [joinParts]
  congr 1
  induction parts with
  | nil => rfl
  | cons part rest ih =>
    rw [List.map_cons, List.filterMap_cons, Part.written?_eq, List.filter_cons, ← ih]
    cases Text.isBlankText part.given <;> rfl

theorem filterMap_written?_sublist (parts : List Part) :
    (parts.filterMap Part.written?).Sublist (parts.filterMap Part.promised?) := by
  induction parts with
  | nil => exact .slnil
  | cons part rest ih =>
    rw [List.filterMap_cons, List.filterMap_cons]
    by_cases hlost : part.Lost
    · obtain ⟨hwritten, text, hpromised⟩ := Part.written?_of_lost hlost
      rw [hwritten, hpromised]
      exact ih.cons text
    · rw [Part.written?_of_not_lost hlost]
      cases part.promised? with
      | none => exact ih
      | some text => exact ih.cons_cons text

theorem filterMap_written?_eq_iff (parts : List Part) :
    parts.filterMap Part.written? = parts.filterMap Part.promised? ↔
      ∀ part ∈ parts, ¬ part.Lost := by
  refine ⟨fun heq => ?_, fun h => List.filterMap_congr fun part hpart =>
    Part.written?_of_not_lost (h part hpart)⟩
  induction parts with
  | nil => simp
  | cons part rest ih =>
    rw [List.filterMap_cons, List.filterMap_cons] at heq
    have hpart : ¬ part.Lost := by
      -- The parts behind a lost one cannot make up for it.
      intro hlost
      obtain ⟨hwritten, text, hpromised⟩ := Part.written?_of_lost hlost
      replace heq : rest.filterMap Part.written? = text :: rest.filterMap Part.promised? := by
        rwa [hwritten, hpromised] at heq
      have hlength := (filterMap_written?_sublist rest).length_le
      rw [heq, List.length_cons] at hlength
      omega
    rw [Part.written?_of_not_lost hpart] at heq
    refine List.forall_mem_cons.2 ⟨hpart, ih ?_⟩
    cases hpromised : part.promised? with
    | none => simpa [hpromised] using heq
    | some text => simpa [hpromised] using heq

/-- A command is as the defaults promise exactly if no field is lost. -/
theorem joinParts_given_eq_iff {word : String} (h : Text.isBlankText word = false)
    (parts : List Part) :
    joinParts ((.text word :: parts).map Part.given) =
        " ".intercalate ((Part.text word :: parts).filterMap Part.promised?) ↔
      ∀ part ∈ Part.text word :: parts, ¬ part.Lost := by
  rw [joinParts_given, ← filterMap_written?_eq_iff]
  -- The word in front is there in any case, so a part that is lost makes the command shorter.
  have hne : (Part.text word :: parts).filterMap Part.written? ≠ [] := by
    simp [Part.written?, h]
  exact ⟨Text.eq_of_sublist_of_intercalate_eq (filterMap_written?_sublist _) hne, congrArg _⟩

end Commands

namespace Node

open Commands

/-- What an `attribute` command does, by the node's action; nothing if the action is not known. -/
def attributeParts? (node : Node) : Option (List Part) :=
  let property := node.propertyText
  let uuid := .field (property "uuid") { text := modifierUuid }
  match property "action" with
  | "get" => some [.text "get"]
  | "base_get" => some [.text "base", .text "get"]
  | "base_set" => some [.text "base", .text "set", .text (property "value")]
  | "modifier_add" => some
    [.text "modifier", .text "add", uuid, .field (property "name") { text := modifierName },
      .text (property "value"), .text (property "operation")]
  | "modifier_remove" => some [.text "modifier", .text "remove", uuid]
  | "modifier_value_get" => some [.text "modifier", .text "value", .text "get", uuid]
  | _ => none

/-- Where a node teleports to, by the value of the pin for that. The node's own coordinates are a
default if none of them is blank. -/
def destinationPart (node : Node) (value : String) : Part :=
  let coordinates := ["x", "y", "z"].map node.propertyText
  if h : ∀ coordinate ∈ coordinates, Text.isBlankText coordinate = false then
    .field value (.joined coordinates (by simp [coordinates]) h)
  else .text (orDefault value (joinParts coordinates))

/-- The parts of a node's command, by the values of its input pins, for the types that have defaults
for some fields. -/
def parts (node : Node) (input : String → String) : List Part :=
  let property := node.propertyText
  let target default := .field (input "Target") default
  let position := .field (input "Position") { text := "~ ~ ~" }
  match node.tag with
  | "give" => [.text "give", target { text := "@p" }, .text (input "Item"), .text (input "Count")]
  | "summon" => [.text "summon", .text (property "entity"), position, .text (input "NBT")]
  | "tellraw" => [.text "tellraw", target { text := "@a" }, .text (input "Text")]
  | "effect" =>
    let subject := [target { text := "@s" }, .text (property "effect")]
    if property "action" = "clear" then [.text "effect", .text "clear"] ++ subject
    else
      [.text "effect", .text "give"] ++ subject ++
        [.text (property "duration"), .text (property "amplifier")]
  | "teleport" =>
    [.text "tp", target { text := "@s" }, node.destinationPart (input "Destination")]
  | "setblock" =>
    [.text "setblock", position, .text (property "block"), .text (property "mode")]
  | "kill" => [.text "kill", target { text := "@e" }]
  | "gamemode" => [.text "gamemode", .text (property "mode"), target { text := "@s" }]
  | "time" =>
    let value :=
      if property "action" = "query" then .text (property "value")
      else .field (property "value") { text := "1000" }
    [.text "time", .text (property "action"), value]
  | "ride" =>
    let rider := [.text "ride", target { text := "@s" }, .text (property "action")]
    if property "action" = "dismount" then rider
    else rider ++ [.field (input "Vehicle") { text := nearestVehicle }]
  | "damage" =>
    let attacker := property "attacker"
    let link := if Text.isBlankText attacker then "" else "by"
    [.text "damage", target { text := "@s" }, .text (property "amount"),
      .text (property "damageType"), .text link, .text attacker]
  | "attribute" =>
    match node.attributeParts? with
    | none => []
    | some action =>
      [.text "attribute", target { text := "@s" }, .text (property "attribute")] ++ action
  | _ => []

/-- No value comes in where control does. -/
theorem parts_congr (node : Node) {input input' : String → String}
    (h : ∀ pin, pin ≠ "Exec" → input pin = input' pin) : node.parts input = node.parts input' := by
  unfold parts
  simp [h]

/-- A command has no parts or begins with a keyword. -/
theorem parts_eq_nil_or (node : Node) (input : String → String) :
    node.parts input = [] ∨ ∃ word rest, Text.isBlankText word = false ∧
      node.parts input = .text word :: rest := by
  unfold parts
  dsimp only
  -- Only an `attribute` command whose action is not known has no keyword.
  repeat' split
  all_goals first
    | exact .inl rfl
    | exact .inr ⟨_, _, by decide, rfl⟩

end Node

namespace Commands

/-- The types that have defaults for some fields. -/
def defaultedTags : List String :=
  ["give", "summon", "tellraw", "effect", "teleport", "setblock", "kill", "gamemode", "time",
    "ride", "damage", "attribute"]

theorem given_destinationPart (node : Node) (value : String) :
    (node.destinationPart value).given =
      orDefault value (joinParts (["x", "y", "z"].map node.propertyText)) := by
  unfold Node.destinationPart
  dsimp only
  split
  next h =>
    rw [Part.given, Token.joined, joinParts, List.filter_eq_self.2]
    simpa using h
  next => rfl

theorem attributeAction?_eq (view : NodeView) :
    attributeAction? view = view.node.attributeParts?.map (·.map Part.given) := by
  unfold attributeAction? Node.attributeParts? NodeView.propertyOr NodeView.property
  dsimp only
  generalize view.node.propertyText "action" = action
  split
  case h_7 => simp [*]
  all_goals rfl

end Commands

/-- The parts of a node give the texts that its command is joined from. -/
theorem NodeView.texts?_eq_map_given (view : NodeView) (input : String → String)
    (htag : view.node.tag ∈ Commands.defaultedTags) :
    view.texts? input = some ((view.node.parts input).map Commands.Part.given) := by
  unfold Node.parts
  dsimp only
  split
  -- The forms of `effect`, `time` and `ride` depend on the action.
  case h_4 htag | h_9 htag | h_10 htag =>
    simp only [texts?, htag]
    split
    next haction => rw [if_pos (show view.node.propertyText "action" = _ from haction)]; rfl
    next haction => rw [if_neg (show view.node.propertyText "action" ≠ _ from haction)]; rfl
  case h_5 htag =>
    simp only [texts?, htag, List.map_cons, List.map_nil, Commands.given_destinationPart]
    rfl
  case h_12 htag =>
    simp only [texts?, htag, Commands.attributeAction?_eq]
    cases view.node.attributeParts? with
    | none => rfl
    | some action => rw [List.map_append]; rfl
  case h_13 => simp_all [Commands.defaultedTags]
  all_goals
    rename_i htag
    simp only [texts?, htag]
    rfl

namespace Compiler

open Commands

variable {g : Graph} {id : NodeId} {node : Node}

/-- A command is put together from the parts of its node. -/
theorem synthesize_eq_joinParts (hnode : g.node? id = some node) (htag : node.tag ∈ defaultedTags) :
    (standard.resolver g).synthesize id =
      joinParts ((node.parts ((standard.resolver g).ownInput id)).map Part.given) :=
  synthesize_of_texts? hnode (NodeView.texts?_eq_map_given _ _ htag)

/-- Every field of a command with a default is at its place with a value that is not blank, without
the blanks around it, or with the default for a value that is empty. The command is as if defaults
stood in for all blank values exactly if no value is made of blanks alone, since such a field is
missing. If data flows in no circle, the values are what the pins resolve to. -/
theorem defaults_written (g : Graph) {id : NodeId} {node : Node} (hnode : g.node? id = some node)
    (htag : node.tag ∈ defaultedTags) :
    let r := standard.resolver g
    let parts := node.parts (r.ownInput id)
    r.synthesize id = " ".intercalate (parts.filterMap Part.written?) ∧
      (r.synthesize id = " ".intercalate (parts.filterMap Part.promised?) ↔
        ∀ part ∈ parts, ¬ part.Lost) ∧
      (g.ControlApart → g.Acyclic → node.parts (r.resolve id) = parts) := by
  intro r parts
  have hcommand : r.synthesize id = joinParts (parts.map Part.given) :=
    synthesize_eq_joinParts hnode htag
  refine ⟨hcommand.trans (joinParts_given parts), ?_, fun hg hacyclic => ?_⟩
  · rw [hcommand]
    -- A node writes nothing at all only if the action is not known, and then nothing is lost.
    rcases node.parts_eq_nil_or (r.ownInput id) with hnil | ⟨word, rest, hword, hparts⟩
    · rw [show parts = [] from hnil]
      simp [joinParts]
    · rw [show parts = .text word :: rest from hparts]
      exact joinParts_given_eq_iff hword rest
  · exact node.parts_congr fun pin hpin =>
      (Resolver.ownInput_eq_resolve hg hacyclic id hpin).symm

end Compiler

/-- A modifier that gets a name, for what a selector selects. -/
def Session.namedModifier (name : String) : List Edit :=
  [.add "selector" {}, .add "attribute" {}, .set ⟨1⟩ "action" ⟨.string "modifier_add", trivial⟩,
    .set ⟨1⟩ "name" ⟨.string name, trivial⟩, .connect ⟨0⟩ "Selector" ⟨1⟩ "Target"]

/-- The name is written without the blanks around it, and the default stands in for the identifier
that is not given. -/
theorem Compiler.defaults_written_namedModifier :
    let g := (Session.run (Session.namedModifier " strong ")).graph
    let r := standard.resolver g
    ∃ node, g.node? ⟨1⟩ = some node ∧ node.tag ∈ Commands.defaultedTags ∧
      (∀ part ∈ node.parts (r.resolve ⟨1⟩), ¬ part.Lost) ∧
      r.synthesize ⟨1⟩ =
        " ".intercalate ((node.parts (r.resolve ⟨1⟩)).filterMap Commands.Part.promised?) ∧
      r.synthesize ⟨1⟩ =
        "attribute @a generic.max_health modifier add 0-0-0-0-0 strong 0 add" := by
  intro g r
  have hacyclic : g.Acyclic := Graph.acyclic_of_ascending (by decide)
  let node := (g.node? ⟨1⟩).get (by decide +kernel)
  have hnode : g.node? ⟨1⟩ = some node := (Option.some_get _).symm
  have htag : node.tag ∈ Commands.defaultedTags := by decide +kernel
  obtain ⟨hwritten, hpromised, hresolved⟩ := defaults_written g hnode htag
  replace hresolved := hresolved (Session.controlApart_run _) hacyclic
  rw [← hresolved] at hwritten hpromised
  have hkept : ∀ part ∈ node.parts (r.resolve ⟨1⟩), ¬ part.Lost := by decide +kernel
  refine ⟨node, hnode, htag, hkept, hpromised.2 hkept, hwritten.trans ?_⟩
  decide +kernel

/-- A name of blanks is missing, so that the amount takes its place. -/
theorem Compiler.blank_name_left_out :
    let g := (Session.run (Session.namedModifier " ")).graph
    let r := standard.resolver g
    ∃ node, g.node? ⟨1⟩ = some node ∧ node.tag = "attribute" ∧ node.propertyText "name" = " " ∧
      r.synthesize ⟨1⟩ = "attribute @a generic.max_health modifier add 0-0-0-0-0 0 add" ∧
      " ".intercalate ((node.parts (r.resolve ⟨1⟩)).filterMap Commands.Part.promised?) =
        "attribute @a generic.max_health modifier add 0-0-0-0-0 modification 0 add" := by
  intro g r
  let node := (g.node? ⟨1⟩).get (by decide +kernel)
  have hnode : g.node? ⟨1⟩ = some node := (Option.some_get _).symm
  refine ⟨node, hnode, ?_⟩
  decide +kernel

end CommandGraph
