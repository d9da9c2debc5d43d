import CommandGraph.Proofs.Dump.Comparison

/-!
# What the kind of a change tells

Two command lines have the same shape if they agree in settings, keyword, the other tokens of the
shape, and the names of their fields (`Command.SameShape`). As long as no bar stands in the tokens
of the shape, the fingerprint says exactly this (`Command.fingerprint_eq_iff_sameShape`), so a
change of values alone leaves the shape of every command as it was. With bars in the tokens, lines
of different shapes may have one fingerprint, and then a change of shape is taken for one of values.
-/

namespace CommandGraph

namespace Command

/-- Two commands differ in values only; both words for teleporting count as one. -/
structure SameShape (c c' : Command) : Prop where
  /-- They have the same settings. -/
  settings : c.settings = c'.settings
  /-- They have the same keyword. -/
  keyword : Dump.Rule.canonical c.keyword = Dump.Rule.canonical c'.keyword
  /-- They have the same further tokens of the shape. -/
  shape : (reading c.raw).shape = (reading c'.raw).shape
  /-- They have the same fields. -/
  names : ∀ name, (c.values.find? name).isSome = (c'.values.find? name).isSome

variable {line line' : String}

theorem keyword_reading (line : String) :
    (reading line).keyword = Dump.Rule.canonical (parse line).keyword := by
  change (Dump.Reading.ofTokens (tokensOf line)).keyword =
    Dump.Rule.canonical ((tokensOf line).headD "")
  cases tokensOf line with
  | nil => rfl
  | cons keyword args => exact Dump.Reading.keyword_ofTokens_cons keyword args

/-- Equal settings, keywords and shapes are joined to equal fingerprints. -/
theorem SameShape.fingerprint_eq (h : SameShape (parse line) (parse line')) :
    (parse line).fingerprint = (parse line').fingerprint := by
  have hkeyword : (reading line).keyword = (reading line').keyword := by
    rw [keyword_reading, keyword_reading, h.keyword]
  change "|".intercalate ((parse line).settings.toList ++
      (reading line).keyword :: (reading line).shape) =
    "|".intercalate ((parse line').settings.toList ++
      (reading line').keyword :: (reading line').shape)
  rw [h.settings, hkeyword, show (reading line).shape = (reading line').shape from h.shape]

/-- Lines without a bar in the tokens of their shapes have one fingerprint exactly if they have one
shape. -/
theorem fingerprint_eq_iff_sameShape (hbar : Unbarred line) (hbar' : Unbarred line') :
    (parse line).fingerprint = (parse line').fingerprint ↔
      SameShape (parse line) (parse line') := by
  refine ⟨fun h => ?_, SameShape.fingerprint_eq⟩
  obtain ⟨hsettings, hchars⟩ := parts_eq_of_fingerprint_eq hbar hbar' h
  obtain ⟨hkeyword, hshape⟩ := shapeChars_inj hbar hbar' hchars
  -- The names of the fields follow from keyword and shape, by the rule of the keyword.
  have hnames : (reading line).fields.map Prod.fst = (reading line').fields.map Prod.fst :=
    Dump.Reading.names_eq (Dump.areTokens_tokenChars _) (Dump.areTokens_tokenChars _) hkeyword
      hshape
  refine ⟨?_, ?_, hshape, fun name => ?_⟩
  · show (Dump.splitSettings line.toList).1.map String.ofList =
      (Dump.splitSettings line'.toList).1.map String.ofList
    rw [hsettings]
  · rwa [keyword_reading, keyword_reading] at hkeyword
  · rw [Bool.eq_iff_iff]
    show (((Dictionary.ofList (reading line).fields).find? name).isSome = true) ↔
      ((Dictionary.ofList (reading line').fields).find? name).isSome = true
    rw [Dictionary.isSome_find?_ofList_iff, Dictionary.isSome_find?_ofList_iff, hnames]

end Command

/-- As long as no bar stands in the tokens of their shapes, two lines have one fingerprint exactly
if they have one shape. So where a comparison finds that only values have changed, all commands have
kept their shapes, those with bars apart. -/
theorem Analysis.shapes_kept_of_valueOnly (old new : String) :
    (∀ line line', Command.Unbarred line → Command.Unbarred line' →
      ((Command.parse line).fingerprint = (Command.parse line').fingerprint ↔
        Command.SameShape (Command.parse line) (Command.parse line'))) ∧
    ((between old new).kind = .valueOnly →
      (Dump.parse old).length = (Dump.parse new).length ∧
      ∀ (i : Nat) (c c' : Command), (Dump.parse old)[i]? = some c →
        (Dump.parse new)[i]? = some c' → Command.Unbarred c.raw → Command.Unbarred c'.raw →
          Command.SameShape c c') := by
  refine ⟨fun line line' => Command.fingerprint_eq_iff_sameShape, fun hkind => ?_⟩
  obtain ⟨hlength, hfingerprints⟩ := fingerprint_eq_of_valueOnly hkind
  refine ⟨hlength, fun i c c' hc hc' hbar hbar' => ?_⟩
  have hfingerprint := hfingerprints i c c' hc hc'
  obtain ⟨place, hplace⟩ := Dump.eq_parse_of_mem_commandsFrom (List.mem_of_getElem? hc)
  obtain ⟨place', hplace'⟩ := Dump.eq_parse_of_mem_commandsFrom (List.mem_of_getElem? hc')
  -- The section a command stands in has no part in its shape.
  rw [hplace, hplace'] at hfingerprint ⊢
  obtain ⟨hsettings, hkeyword, hshape, hnames⟩ :=
    (Command.fingerprint_eq_iff_sameShape hbar hbar').1 hfingerprint
  exact ⟨hsettings, hkeyword, hshape, hnames⟩

/-- Both words for teleporting, with and without a slash, have one shape. -/
theorem Analysis.shapes_kept_of_valueOnly_teleport :
    let old := "# Command block\n[CUA][x]/teleport @p 1 2 3\neffect give @s speed"
    let new := "[CUA][x] tp @a ~ ~ ~\neffect give @p haste 10 2"
    (between old new).kind = .valueOnly ∧
      Command.SameShape (Command.parse "[CUA][x]/teleport @p 1 2 3")
        (Command.parse "[CUA][x] tp @a ~ ~ ~") ∧
      ∃ c c', (Dump.parse old)[1]? = some c ∧ (Dump.parse new)[1]? = some c' ∧
        Command.SameShape c c' := by
  intro old new
  obtain ⟨hlines, hdumps⟩ := shapes_kept_of_valueOnly old new
  have hkind : (between old new).kind = .valueOnly := by decide +kernel
  have hraw : (Dump.parse old)[1]?.map Command.raw = some "effect give @s speed" := by
    decide +kernel
  have hraw' : (Dump.parse new)[1]?.map Command.raw = some "effect give @p haste 10 2" := by
    decide +kernel
  obtain ⟨c, hc, hcraw⟩ := Option.map_eq_some_iff.1 hraw
  obtain ⟨c', hc', hcraw'⟩ := Option.map_eq_some_iff.1 hraw'
  refine ⟨hkind, (hlines _ _ (by decide +kernel) (by decide +kernel)).1 (by decide +kernel),
    c, c', hc, hc', (hdumps hkind).2 1 c c' hc hc' ?_ ?_⟩
  · rw [hcraw]
    decide +kernel
  · rw [hcraw']
    decide +kernel

/-- With bars in a keyword, a command without settings and with a single field has the fingerprint
of one with settings, another keyword and four fields, and the change is taken for one of values. -/
theorem Analysis.barred_keyword_taken_for_shape :
    let old := "[RUA] effect give @s"
    let new := "/[RUA]|effect|give @s"
    let c := Command.parse old
    let c' := Command.parse new
    (between old new).kind = .valueOnly ∧ c.fingerprint = c'.fingerprint ∧
      c.settings ≠ c'.settings ∧
      Dump.Rule.canonical c.keyword ≠ Dump.Rule.canonical c'.keyword ∧
      (Command.reading old).shape ≠ (Command.reading new).shape ∧
      c.values.entries.map Prod.fst ≠ c'.values.entries.map Prod.fst := by
  refine ⟨?_, ?_, ?_, ?_, ?_, ?_⟩ <;> decide +kernel

end CommandGraph
