import CommandGraph.Proofs.Compile.Parts
import CommandGraph.Proofs.Dump.Rule
import CommandGraph.Proofs.Dump.Word

/-!
# Finding the fields of a command again

What a node writes can be given as an outline (`Dump.Outline`): the keyword, the texts that belong
to the shape, and the fields with the number of words that each takes. The outline of a node says
nothing of how commands are read, and the rules for reading nothing of how commands are written. If
all texts of an outline are made of words, the rule of its keyword takes the line apart into the
same texts again (`Dump.Outline.readAs_of_follows`, and `Dump.Outline.readAs_execute` for the one
keyword that has another rule).
-/

namespace CommandGraph

/-- A line that begins with neither a bracket nor a slash is all command. -/
theorem Command.tokensOf_eq_tokenize {line : String}
    (h : ∀ c ∈ line.toList.head?, c ≠ '[' ∧ c ≠ '/') :
    (Dump.splitSettings line.toList).1 = none ∧ Command.tokensOf line = Dump.tokenize line := by
  have hsettings : Dump.splitSettings line.toList = (none, line.toList) := by
    cases hline : line.toList with
    | nil => rw [Dump.splitSettings, Dump.splitGroups]; simp
    | cons c cs =>
      have hc : c ≠ '[' := (h c (by rw [hline]; rfl)).1
      rw [Dump.splitSettings, Dump.splitGroups]
      simp [hc]
  -- There are no settings, so a slash would have to come first.
  have hslash : Dump.dropSlash line.toList = line.toList := by
    unfold Dump.dropSlash
    split
    next rest hline => exact absurd rfl (h '/' (by rw [hline]; rfl)).2
    next => rfl
  rw [Command.tokensOf, hsettings, hslash, Dump.tokenize]
  exact ⟨rfl, rfl⟩

namespace Dump

/-! ## What fields take -/

namespace Layout

/-- The arguments that fields take, and the values that the fields have then. -/
inductive Takes : Layout → List String → List (String × String) → Prop
  /-- Without fields, arguments are left over. -/
  | nil (rest : List String) : Takes [] rest []
  /-- Without arguments, all fields are empty. -/
  | missing (layout : Layout) : Takes layout [] (layout.names.map (·, ""))
  /-- A field takes a number of words. -/
  | cons {layout : Layout} {args : List String} {values : List (String × String)} (name : String)
      (words : List String) (h : Takes layout args values) :
      Takes ((name, some words.length) :: layout) (words ++ args)
        ((name, " ".intercalate words) :: values)
  /-- The last field takes all words. -/
  | all (name : String) (words : List String) :
      Takes [(name, none)] words [(name, " ".intercalate words)]

/-- Behind the last argument, all fields are empty. -/
theorem fields_of_length_le {layout : Layout} {args : List String} {start : Nat}
    (h : args.length ≤ start) : layout.fields args start = layout.names.map (·, "") := by
  fun_induction fields args start layout with
  | case1 start => rfl
  | case2 start name width rest ih =>
    have hspan : Reading.span args start (start + width) = "" := by
      rw [Reading.span, List.drop_eq_nil_of_le (by simp; omega)]
      rfl
    rw [hspan, ih (by omega)]
    rfl
  | case3 start name rest =>
    rw [Reading.tail, List.drop_eq_nil_of_le h]
    rfl

/-- Fields are read behind the arguments that were taken before. -/
theorem Takes.fields_eq {layout : Layout} {args : List String} {values : List (String × String)}
    (h : Takes layout args values) (front : List String) :
    layout.fields (front ++ args) front.length = values := by
  -- In front stands what the earlier fields have taken.
  induction h generalizing front with
  | nil rest => rfl
  | missing layout => exact fields_of_length_le (by simp)
  | @cons layout args values name words h ih =>
    have hspan : Reading.span (front ++ (words ++ args)) front.length
        (front.length + words.length) = " ".intercalate words := by
      rw [Reading.span, ← List.append_assoc, ← List.length_append, List.take_left, List.drop_left]
    have hrest := ih (front ++ words)
    rw [List.length_append, List.append_assoc] at hrest
    rw [fields, hspan, hrest]
  | all name words =>
    rw [fields, Reading.tail, List.drop_left]

end Layout

/-! ## Outlines of commands -/

/-- How a command ends behind the fields that take a fixed number of words. -/
inductive Ending where
  /-- With a field that takes all words that are left. -/
  | words (name text : String)
  /-- Early, so that some fields are missing. -/
  | missing (names : List String)
  /-- With a text that no field takes. -/
  | rest (text : String)
deriving DecidableEq

namespace Ending

/-- The last text of the command. -/
def text : Ending → String
  | words _ text => text
  | missing _ => ""
  | rest text => text

/-- The values of the last fields. -/
def values : Ending → List (String × String)
  | words name text => [(name, text)]
  | missing names => names.map (·, "")
  | rest _ => []

/-- What a field takes is made of words. -/
def Clean : Ending → Prop
  | words _ text => Words none text
  | _ => True

instance : (ending : Ending) → Decidable ending.Clean
  | words _ _ => inferInstanceAs (Decidable (Words _ _))
  | missing _ => inferInstanceAs (Decidable True)
  | rest _ => inferInstanceAs (Decidable True)

/-- The fields that are left of a layout are those of the ending. -/
def Fits : Ending → Layout → Prop
  | words name _, layout => layout = [(name, none)]
  | missing names, layout => layout.names = names
  | rest _, layout => layout = []

/-- The last fields take what the command ends with. -/
theorem takes {ending : Ending} {layout : Layout} (h : ending.Clean) (hfits : ending.Fits layout) :
    layout.Takes (tokenize (Text.trim ending.text)) ending.values := by
  cases ending with
  | words name text =>
    obtain rfl := hfits
    -- The last field takes all words, and these are joined to the text again.
    have hall := Layout.Takes.all name (tokenize text)
    rw [Words.intercalate_tokenize h] at hall
    rw [Ending.text, Words.trim_eq h]
    exact hall
  | missing names =>
    obtain rfl := hfits
    rw [Ending.text, Text.trim_eq_empty_iff.2 rfl, tokenize_empty]
    exact .missing layout
  | rest text =>
    obtain rfl := hfits
    exact .nil _

end Ending

/-- A field that takes a fixed number of words. -/
structure Field where
  /-- The name. -/
  name : String
  /-- How many words it takes. -/
  count : Nat
  /-- The words, joined by spaces. -/
  text : String
deriving DecidableEq

/-- The texts of a command. -/
structure Outline where
  /-- The word in front. -/
  keyword : String
  /-- The texts that belong to the shape, with the numbers of their words. -/
  shape : List (Option Nat × String) := []
  /-- The fields that take a fixed number of words. -/
  fields : List Field := []
  /-- What follows them. -/
  ending : Ending := .missing []
deriving DecidableEq

namespace Outline

/-- The command. -/
def line (o : Outline) : String :=
  Commands.joinParts
    (o.keyword :: (o.shape.map (·.2) ++ o.fields.map (·.text)) ++ [o.ending.text])

/-- The words of the shape. -/
def shapeWords (o : Outline) : List String :=
  o.shape.flatMap fun (_, text) => tokenize text

/-- The values of all fields. -/
def values (o : Outline) : List (String × String) :=
  o.fields.map (fun field => (field.name, field.text)) ++ o.ending.values

/-- All texts are made of words, as many as there should be, and the word that ends the shape of
`execute` does not stand in it earlier. -/
structure Clean (o : Outline) : Prop where
  /-- The shape. -/
  shape : ∀ part ∈ o.shape, Words part.1 part.2
  /-- The fields. -/
  fields : ∀ field ∈ o.fields, Words (some field.count) field.text
  /-- The last field. -/
  ending : o.ending.Clean
  /-- There is no other `run`. -/
  run : o.keyword = "execute" → "run" ∉ o.shapeWords.dropLast

instance (o : Outline) : Decidable o.Clean :=
  decidable_of_iff ((∀ part ∈ o.shape, Words part.1 part.2) ∧
      (∀ field ∈ o.fields, Words (some field.count) field.text) ∧ o.ending.Clean ∧
      (o.keyword = "execute" → "run" ∉ o.shapeWords.dropLast))
    ⟨fun h => ⟨h.1, h.2.1, h.2.2.1, h.2.2.2⟩, fun h => ⟨h.1, h.2, h.3, h.4⟩⟩

/-- A command is read as an outline says. -/
structure ReadAs (o : Outline) (command : Command) : Prop where
  /-- The keyword is the word in front. -/
  keyword : command.keyword = o.keyword
  /-- There are no settings. -/
  settings : command.settings = none
  /-- The fingerprint is made of the keyword and the shape. -/
  fingerprint : command.fingerprint = "|".intercalate (o.keyword :: o.shapeWords)
  /-- The values are the texts of the fields. -/
  values : command.values = .ofList o.values

/-- The keywords of outlines. -/
def keywords : List String :=
  ["give", "summon", "say", "tellraw", "tp", "effect", "gamemode", "setblock", "fill", "kill",
    "time", "weather", "execute"]

/-- Keywords are words, and are not taken for settings or a slash. -/
theorem of_mem_keywords : ∀ keyword ∈ keywords, Dump.Clean keyword ∧
    Rule.canonical keyword = keyword ∧ some '[' ≠ keyword.toList.head? ∧
      some '/' ≠ keyword.toList.head? := by
  decide +kernel

/-- The words behind the keyword. -/
def args (o : Outline) : List String :=
  o.shapeWords ++ (o.fields.flatMap (fun field => tokenize field.text) ++
    tokenize (Text.trim o.ending.text))

variable {o : Outline}

/-- A command is cut into its keyword, the words of the shape and those of the fields. -/
theorem tokenize_line (hkeyword : o.keyword ∈ keywords) (h : o.Clean) :
    tokenize o.line = o.keyword :: o.args := by
  have hclean := (of_mem_keywords _ hkeyword).1
  have hall : ∀ text ∈ o.keyword :: (o.shape.map (·.2) ++ o.fields.map (·.text)),
      Words none text := by
    refine List.forall_mem_cons.2 ⟨hclean.words.any, List.forall_mem_append.2 ⟨?_, ?_⟩⟩
    · exact List.forall_mem_map.2 fun part hpart => (h.shape part hpart).any
    · exact List.forall_mem_map.2 fun field hfield => (h.fields field hfield).any
  rw [line, tokenize_joinParts hall, List.flatMap_cons, hclean.tokenize_eq]
  simp [args, shapeWords, List.flatMap_append, List.flatMap_map]

/-- A command begins as its keyword does. -/
theorem head?_line (hkeyword : o.keyword ∈ keywords) :
    ∀ c ∈ o.line.toList.head?, c ≠ '[' ∧ c ≠ '/' := by
  obtain ⟨hclean, -, hbracket, hslash⟩ := of_mem_keywords _ hkeyword
  have hfront : o.keyword.toList <+: o.line.toList := by
    have hword := Commands.prefix_joinParts hclean.words.not_blank
      (o.shape.map (·.2) ++ o.fields.map (·.text) ++ [o.ending.text])
    rwa [hclean.trimmed] at hword
  obtain ⟨others, heq⟩ := hfront
  rw [← heq, List.head?_append_of_ne_nil _ hclean.toList_ne_nil]
  rintro c hc
  rw [Option.mem_def] at hc
  rw [hc] at hbracket hslash
  exact ⟨fun h => hbracket (congrArg some h.symm), fun h => hslash (congrArg some h.symm)⟩

/-- A command is read as its outline says if its words are sorted out like that. -/
theorem readAs_of_ofTokens (hkeyword : o.keyword ∈ keywords) (h : o.Clean)
    (hreading : Reading.ofTokens (o.keyword :: o.args) =
      { keyword := o.keyword, shape := o.shapeWords, fields := o.values }) :
    o.ReadAs (Command.parse o.line) := by
  obtain ⟨hsettings, htokens⟩ := Command.tokensOf_eq_tokenize (head?_line hkeyword)
  rw [tokenize_line hkeyword h] at htokens
  constructor
  · simp only [Command.parse, htokens, List.headD_cons]
  · simp only [Command.parse, hsettings, Option.map_none]
  · simp only [Command.parse, hsettings, htokens, hreading, Option.map_none, Option.toList_none,
      List.nil_append]
  · simp only [Command.parse, htokens, hreading]

/-! ## Outlines by rule -/

/-- The part of a layout that takes some fields. -/
def layoutOf (fields : List Field) : Layout :=
  fields.map fun field => (field.name, some field.count)

/-- Fields that are made of as many words as they take are taken as they are. -/
theorem takes_fields {fields : List Field}
    (h : ∀ field ∈ fields, Words (some field.count) field.text) {layout : Layout}
    {args : List String} {values : List (String × String)} (hlayout : layout.Takes args values) :
    Layout.Takes (layoutOf fields ++ layout)
      (fields.flatMap (fun field => tokenize field.text) ++ args)
      (fields.map (fun field => (field.name, field.text)) ++ values) := by
  induction fields with
  | nil => exact hlayout
  | cons field fields ih =>
    obtain ⟨hfield, hfields⟩ := List.forall_mem_cons.1 h
    -- The words of a field are as many as it takes, and no more.
    have hcons := Layout.Takes.cons field.name (tokenize field.text) (ih hfields)
    rw [hfield.intercalate_tokenize, hfield.length_tokenize] at hcons
    simpa [layoutOf] using hcons

/-- The rule of the keyword has the fields of the outline. -/
structure Follows (o : Outline) (rule : Rule) : Prop where
  /-- One word belongs to the shape if the rule says so, and none otherwise. -/
  shape : o.shape.map (·.1) = if rule.shaped then [some 1] else []
  /-- The fields come in the order of the layout. -/
  layout : ∃ later, rule.layout = layoutOf o.fields ++ later ∧ o.ending.Fits later

/-- The shape is what the rule takes for the shape. -/
theorem shapeWords_of_follows {rule : Rule} (h : o.Clean) (hrule : o.Follows rule) :
    o.shapeWords.length = rule.start ∧
      (if rule.shaped then [Reading.part o.args 0] else []) = o.shapeWords := by
  have hshape := hrule.shape
  rw [Rule.start]
  split at hshape
  next hshaped =>
    -- The shape has a single text, and this has a single word.
    obtain ⟨⟨count, text⟩, hpart, hcount⟩ := List.map_eq_singleton_iff.1 hshape
    obtain rfl : count = some 1 := hcount
    have htext : Words (some 1) text := by
      refine h.shape (some 1, text) ?_
      rw [hpart]
      exact List.mem_singleton_self _
    obtain ⟨word, hword⟩ := List.length_eq_one_iff.1 htext.length_tokenize
    have hwords : o.shapeWords = [word] := by simp [shapeWords, hpart, hword]
    simp [hshaped, hwords, Reading.part, args]
  next hshaped =>
    have hnil : o.shape = [] := List.map_eq_nil_iff.1 hshape
    simp [hshaped, shapeWords, hnil]

/-- A rule sorts out the words of an outline that follows it. -/
theorem read_args {rule : Rule} (h : o.Clean) (hrule : o.Follows rule) (keyword : String) :
    rule.read keyword o.args =
      { keyword := Rule.canonical keyword, shape := o.shapeWords, fields := o.values } := by
  obtain ⟨later, hlayout, hending⟩ := hrule.layout
  have htakes := takes_fields h.fields (Ending.takes h.ending hending)
  rw [← hlayout] at htakes
  obtain ⟨hlength, hshape⟩ := shapeWords_of_follows h hrule
  -- The fields start right behind the words of the shape.
  have hfields := htakes.fields_eq o.shapeWords
  rw [hlength] at hfields
  rw [Rule.read, hshape]
  exact congrArg _ hfields

/-- A command is read as an outline says that follows the rule of its keyword. -/
theorem readAs_of_follows (hkeyword : o.keyword ∈ keywords) (hexecute : o.keyword ≠ "execute")
    (h : o.Clean) (hrule : o.Follows (Rule.ofKeyword o.keyword)) :
    o.ReadAs (Command.parse o.line) := by
  refine readAs_of_ofTokens hkeyword h ?_
  rw [Reading.ofTokens_cons hexecute, read_args h hrule, (of_mem_keywords _ hkeyword).2.1]

/-- The outline of `execute`. -/
def execute (clauses : List (Option Nat × String)) (run : String) : Outline where
  keyword := "execute"
  shape := clauses ++ [(some 1, "run")]
  ending := .words "command" run

/-- A word is first found where it first stands. -/
theorem idxOf?_append_cons {word : String} {front : List String} (h : word ∉ front)
    (back : List String) : (front ++ word :: back).idxOf? word = some front.length := by
  refine List.idxOf?_eq_some_iff.2 ⟨by simp, by simp, fun j hj heq => h ?_⟩
  have hword : front[j] = word := by simpa [List.getElem_append, hj] using heq
  exact hword ▸ List.getElem_mem hj

/-- All words of `execute` up to `run` are shape, and the others are what it runs. -/
theorem readAs_execute {clauses : List (Option Nat × String)} {run : String}
    (h : (execute clauses run).Clean) :
    (execute clauses run).ReadAs (Command.parse (execute clauses run).line) := by
  refine readAs_of_ofTokens (by simp [execute, keywords]) h ?_
  have hrun : Words none run := h.ending
  obtain ⟨front, hshape⟩ : ∃ front, (execute clauses run).shapeWords = front ++ ["run"] := by
    have hword : tokenize "run" = ["run"] := by decide
    refine ⟨clauses.flatMap fun part => tokenize part.2, ?_⟩
    simp [shapeWords, execute, hword]
  have hargs : (execute clauses run).args = front ++ "run" :: tokenize run := by
    change (execute clauses run).shapeWords ++ ([] ++ tokenize (Text.trim run)) = _
    rw [hshape, hrun.trim_eq, List.nil_append, List.append_assoc, List.singleton_append]
  -- No earlier word is taken for the end of the shape.
  have hfirst : "run" ∉ front := by
    have hclean := h.run rfl
    rwa [hshape, List.dropLast_concat] at hclean
  change Reading.ofTokens ("execute" :: _) = _
  rw [hargs, hshape, Reading.ofTokens_execute, idxOf?_append_cons hfirst]
  have htake : (front ++ "run" :: tokenize run).take (front.length + 1) = front ++ ["run"] := by
    rw [List.take_append, List.take_of_length_le (Nat.le_succ _)]
    simp
  have hdrop : (front ++ "run" :: tokenize run).drop (front.length + 1) = tokenize run := by
    simp [List.drop_append]
  simp only [htake, Reading.tail, hdrop, hrun.intercalate_tokenize]
  rfl

end Outline

end Dump

/-! ## Outlines of nodes -/

namespace Dump

/-- A field at the end that may be missing. -/
def Ending.optional (name text : String) : Ending :=
  if Text.isBlankText text then .missing [name] else .words name text

/-- One more field of one word, which may be missing. -/
def Outline.withOptional (o : Outline) (name text : String) : Outline :=
  if Text.isBlankText text then { o with ending := .missing [name] }
  else { o with fields := o.fields ++ [⟨name, 1, text⟩] }

/-- A clause of `execute`, which may be missing. -/
def Outline.clause (keyword text : String) : List (Option Nat × String) :=
  if Text.isBlankText text then [] else [(some 1, keyword), (none, text)]

end Dump

namespace Node

/-- The outline of a node's command, by the values of its input pins. Where a value is empty, its
default stands in for it. -/
def outline? (node : Node) (input : String → String) : Option Dump.Outline :=
  let inputOr pin default := orDefault (input pin) default
  let property := node.propertyText
  match node.tag with
  | "give" => some
    { keyword := "give"
      fields := [⟨"target", 1, inputOr "Target" "@p"⟩, ⟨"item", 1, input "Item"⟩,
        ⟨"count", 1, input "Count"⟩] }
  | "summon" => some
    { keyword := "summon"
      fields := [⟨"entity", 1, property "entity"⟩, ⟨"position", 3, inputOr "Position" "~ ~ ~"⟩]
      ending := .optional "nbt" (input "NBT") }
  | "say" => some { keyword := "say", ending := .words "message" (input "Message") }
  | "tellraw" => some
    { keyword := "tellraw"
      fields := [⟨"target", 1, inputOr "Target" "@a"⟩]
      ending := .words "json" (input "Text") }
  | "teleport" =>
    let coordinates := Commands.joinParts [property "x", property "y", property "z"]
    some
      { keyword := "tp"
        fields := [⟨"target", 1, inputOr "Target" "@s"⟩]
        ending := .words "destination" (inputOr "Destination" coordinates) }
  | "effect" =>
    let fields := [⟨"target", 1, inputOr "Target" "@s"⟩, ⟨"effect", 1, property "effect"⟩]
    if property "action" = "clear" then some
      { keyword := "effect"
        shape := [(some 1, "clear")]
        fields
        ending := .missing ["duration", "amplifier"] }
    else some
      { keyword := "effect"
        shape := [(some 1, "give")]
        fields := fields ++ [⟨"duration", 1, property "duration"⟩,
          ⟨"amplifier", 1, property "amplifier"⟩] }
  | "gamemode" => some
    { keyword := "gamemode"
      shape := [(some 1, property "mode")]
      fields := [⟨"target", 1, inputOr "Target" "@s"⟩] }
  | "setblock" => some
    { keyword := "setblock"
      fields := [⟨"position", 3, inputOr "Position" "~ ~ ~"⟩, ⟨"block", 1, property "block"⟩,
        ⟨"mode", 1, property "mode"⟩] }
  | "fill" =>
    let filter := if property "mode" = "replace" then property "replaceBlock" else ""
    some
      { keyword := "fill"
        fields := [⟨"from", 3, input "From"⟩, ⟨"to", 3, input "To"⟩, ⟨"block", 1, property "block"⟩,
          ⟨"mode", 1, property "mode"⟩]
        ending := .rest filter }
  | "kill" => some { keyword := "kill", fields := [⟨"target", 1, inputOr "Target" "@e"⟩] }
  | "time" =>
    let value :=
      if property "action" = "query" then property "value" else orDefault (property "value") "1000"
    some (.withOptional { keyword := "time", shape := [(some 1, property "action")] } "value" value)
  | "weather" =>
    let lasts := (node.propertyNumber? "duration").any Double.isPositive
    some (.withOptional { keyword := "weather", shape := [(some 1, property "type")] } "duration"
      (if lasts then property "duration" else ""))
  | "execute" =>
    let clauses := [("as", input "As"), ("at", input "At"),
      ("positioned", property "positioned"), ("rotated", property "rotated")]
    let shape := clauses.flatMap fun (word, text) => Dump.Outline.clause word text
    some (.execute shape (input "Run"))
  | _ => none

/-- No value comes in where control does. -/
theorem outline?_congr (node : Node) {input input' : String → String}
    (h : ∀ pin, pin ≠ "Exec" → input pin = input' pin) :
    node.outline? input = node.outline? input' := by
  unfold outline?
  simp [h]

end Node

namespace Commands

/-- A blank part at the end makes no difference. -/
theorem joinParts_concat_blank (parts : List String) {part : String}
    (h : Text.isBlankText part = true) : joinParts (parts ++ [part]) = joinParts parts := by
  simp [joinParts, h]

end Commands

namespace Dump

open Commands

/-- A last field that may be missing fits in any case. -/
theorem Ending.fits_optional (name text : String) : (optional name text).Fits [(name, none)] := by
  unfold optional
  split <;> rfl

namespace Outline

variable {o : Outline}

/-- Where nothing follows the fields, they end the command. -/
theorem line_of_missing (h : o.ending.text = "") :
    o.line = joinParts (o.keyword :: (o.shape.map (·.2) ++ o.fields.map (·.text))) := by
  rw [line, h]
  exact joinParts_concat_blank _ rfl

/-- A last field that may be missing is a last part that may be blank. -/
theorem line_of_optional {name text : String} (h : o.ending = .optional name text) :
    o.line = joinParts (o.keyword :: (o.shape.map (·.2) ++ o.fields.map (·.text)) ++ [text]) := by
  unfold Ending.optional at h
  split at h
  next hblank => rw [line_of_missing (by rw [h]; rfl), joinParts_concat_blank _ hblank]
  next => rw [line, h]; rfl

/-- The same holds for a last field of one word. -/
theorem line_withOptional (h : o.ending.text = "") (name text : String) :
    (o.withOptional name text).line =
      joinParts (o.keyword :: (o.shape.map (·.2) ++ o.fields.map (·.text)) ++ [text]) := by
  unfold withOptional
  split
  next hblank => rw [line_of_missing rfl, joinParts_concat_blank _ hblank]
  next =>
    rw [line, h]
    refine (joinParts_concat_blank _ rfl).trans ?_
    simp

@[simp]
theorem keyword_withOptional (name text : String) :
    (o.withOptional name text).keyword = o.keyword := by
  unfold withOptional
  split <;> rfl

/-- A rule with one more field is followed, whether or not the field is there. -/
theorem follows_withOptional {rule : Rule} {name : String}
    (hshape : o.shape.map (·.1) = if rule.shaped then [some 1] else [])
    (hlayout : rule.layout = layoutOf o.fields ++ [(name, some 1)])
    (hending : o.ending = .missing []) (text : String) :
    (o.withOptional name text).Follows rule := by
  unfold withOptional
  split
  · exact ⟨hshape, _, hlayout, rfl⟩
  · refine ⟨hshape, [], ?_, ?_⟩
    · simpa [layoutOf] using hlayout
    · rw [hending]
      rfl

/-- A clause of the outline is a clause of the command. -/
theorem map_clause (word text : String) :
    (clause word text).map (·.2) = Commands.clause word text := by
  unfold clause Commands.clause
  split <;> rfl

end Outline

end Dump

/-- The line of an outline is joined from the texts of the node. -/
theorem NodeView.map_joinParts_texts? (view : NodeView) {input : String → String}
    {o : Dump.Outline} (ho : view.node.outline? input = some o) (hclean : o.Clean) :
    (view.texts? input).map Commands.joinParts = some o.line := by
  unfold Node.outline? at ho
  split at ho
  -- `effect`, which has two forms
  case h_6 htag =>
    simp only [texts?, htag]
    dsimp only at ho
    split at ho
    next hclear =>
      cases ho
      rw [Dump.Outline.line_of_missing rfl,
        if_pos (show view.property "action" = "clear" from hclear)]
      rfl
    next hgive =>
      cases ho
      rw [Dump.Outline.line_of_missing rfl,
        if_neg (show view.property "action" ≠ "clear" from hgive)]
      rfl
  -- `execute`, which is written since there is something to run
  case h_13 htag =>
    cases ho
    have hrun : ¬ Text.isBlankText (input "Run") = true := by
      rw [Dump.Words.not_blank hclean.ending]
      exact Bool.false_ne_true
    simp only [texts?, htag]
    rw [if_neg hrun, Dump.Outline.line]
    simp only [Dump.Outline.execute, List.map_append, Dump.Outline.map_clause, Dump.Ending.text,
      List.flatMap_cons, List.flatMap_nil, List.map_cons, List.map_nil, List.append_assoc,
      List.cons_append, List.nil_append]
    rfl
  case h_14 => cases ho
  all_goals
    rename_i htag
    cases ho
    simp only [texts?, htag]
  -- `summon`, `time` and `weather`, of which the last field may be missing
  case h_2 =>
    rw [Dump.Outline.line_of_optional rfl]
    rfl
  case h_11 | h_12 =>
    rw [Dump.Outline.line_withOptional rfl]
    rfl
  -- `say`, `tellraw`, `teleport` and `fill`, which end with a text
  case h_3 | h_4 | h_5 | h_9 => rfl
  -- All fields of the others are there.
  all_goals
    rw [Dump.Outline.line_of_missing rfl]
    rfl

namespace Compiler

open Commands Dump

variable {g : Graph} {id : NodeId} {node : Node} {o : Outline}

/-- A node writes the command of its outline. -/
theorem synthesize_eq_line (hnode : g.node? id = some node)
    (ho : node.outline? ((standard.resolver g).ownInput id) = some o) (hclean : o.Clean) :
    (standard.resolver g).synthesize id = o.line := by
  obtain ⟨texts, htexts, hline⟩ := Option.map_eq_some_iff.1
    (((standard.resolver g).view node).map_joinParts_texts? ho hclean)
  rw [synthesize_of_texts? hnode htexts, hline]

/-- The outline of a node follows the rule of its keyword. -/
theorem readAs_of_outline? {input : String → String} (ho : node.outline? input = some o)
    (hclean : o.Clean) : o.ReadAs (Command.parse o.line) := by
  unfold Node.outline? at ho
  dsimp only at ho
  split at ho
  -- `summon`, `effect`, `time`, `weather` and `execute` differ from the others.
  case h_2 =>
    cases ho
    exact Outline.readAs_of_follows (by simp [Outline.keywords]) (by simp) hclean
      ⟨rfl, _, rfl, Ending.fits_optional _ _⟩
  case h_6 =>
    split at ho
    all_goals
      cases ho
      exact Outline.readAs_of_follows (by simp [Outline.keywords]) (by simp) hclean
        ⟨rfl, _, rfl, rfl⟩
  case h_11 | h_12 =>
    cases ho
    refine Outline.readAs_of_follows (by simp [Outline.keywords]) (by simp) hclean ?_
    rw [Outline.keyword_withOptional]
    exact Outline.follows_withOptional rfl rfl rfl _
  case h_13 => cases ho; exact Outline.readAs_execute hclean
  case h_14 => cases ho
  all_goals
    cases ho
    exact Outline.readAs_of_follows (by simp [Outline.keywords]) (by simp) hclean
      ⟨rfl, _, rfl, rfl⟩

/-- Reading the command of a node finds its fields again, with the values that the node's script got
and the defaults that it put in. Fields that are not written are empty. If data flows in no circle,
the script got what the pins resolve to. -/
theorem parse_synthesize (g : Graph) {id : NodeId} {node : Node} (hnode : g.node? id = some node)
    {o : Outline} (ho : node.outline? ((standard.resolver g).ownInput id) = some o)
    (hclean : o.Clean) :
    o.ReadAs (Command.parse ((standard.resolver g).synthesize id)) ∧
      (g.ControlApart → g.Acyclic →
        node.outline? ((standard.resolver g).resolve id) = some o) := by
  refine ⟨?_, fun hg hacyclic => ?_⟩
  · rw [synthesize_eq_line hnode ho hclean]
    exact readAs_of_outline? ho hclean
  · rw [← ho]
    exact node.outline?_congr fun pin hpin =>
      (Resolver.ownInput_eq_resolve hg hacyclic id hpin).symm

end Compiler

/-- A command that runs another one, with quotes and brackets around spaces in both. -/
def Session.namedPig : List Edit :=
  [.add "selector" {}, .add "nbt" {}, .add "summon" {}, .add "execute" {},
    .set ⟨0⟩ "name" ⟨.string "\"Big Bob\"", trivial⟩,
    .set ⟨1⟩ "data" ⟨.string "\x7bCustomName:\"Old Pig\"\x7d", trivial⟩,
    .set ⟨3⟩ "positioned" ⟨.string "~ ~1 ~", trivial⟩, .connect ⟨1⟩ "NBT" ⟨2⟩ "NBT",
    .connect ⟨0⟩ "Selector" ⟨3⟩ "As", .connect ⟨2⟩ "Command" ⟨3⟩ "Run"]

/-- The fields of both commands are found again. -/
theorem Compiler.parse_synthesize_namedPig :
    let g := (Session.run Session.namedPig).graph
    let r := standard.resolver g
    let summon : Dump.Outline :=
      { keyword := "summon"
        fields := [⟨"entity", 1, "minecraft:pig"⟩, ⟨"position", 3, "~ ~ ~"⟩]
        ending := .words "nbt" "\x7bCustomName:\"Old Pig\"\x7d" }
    let execute : Dump.Outline := .execute
      [(some 1, "as"), (none, "@a[name=\"Big Bob\"]"), (some 1, "positioned"), (none, "~ ~1 ~")]
      "summon minecraft:pig ~ ~ ~ \x7bCustomName:\"Old Pig\"\x7d"
    (summon.Clean ∧ summon.ReadAs (Command.parse (r.synthesize ⟨2⟩))) ∧
      execute.Clean ∧ execute.ReadAs (Command.parse (r.synthesize ⟨3⟩)) ∧
        (g.node? ⟨3⟩).bind (·.outline? (r.resolve ⟨3⟩)) = some execute := by
  intro g r summon execute
  have hacyclic : g.Acyclic := Graph.acyclic_of_ascending (by decide)
  have hread : ∀ id o, (g.node? id).bind (·.outline? (r.ownInput id)) = some o → o.Clean →
      o.ReadAs (Command.parse (r.synthesize id)) ∧
        (g.node? id).bind (·.outline? (r.resolve id)) = some o := by
    intro id o ho hclean
    obtain ⟨node, hnode, ho⟩ := Option.bind_eq_some_iff.1 ho
    obtain ⟨hread, hresolved⟩ := parse_synthesize g hnode ho hclean
    exact ⟨hread, Option.bind_eq_some_iff.2
      ⟨node, hnode, hresolved (Session.controlApart_run _) hacyclic⟩⟩
  have hsummon : summon.Clean := by decide +kernel
  have hexecute : execute.Clean := by decide +kernel
  exact ⟨⟨hsummon, (hread ⟨2⟩ summon (by decide +kernel) hsummon).1⟩, hexecute,
    hread ⟨3⟩ execute (by decide +kernel) hexecute⟩

end CommandGraph
