import CommandGraph.Proofs.Dump.Fingerprint
import CommandGraph.Proofs.Dump.Outcome

/-!
# What a reported change of values shows

A change of values is reported for two command lines that differ and have one fingerprint
(`Analysis.exists_of_values_mem`). It shows the values of both. These differ if the lines differ in
tokens and the rule of their keyword reads both lines as a whole (`Command.values_parse_ne`). A line
may have more tokens than its rule reads: a `fill` command has a filter behind the mode, and a
change of the filter is reported with twice the same values.
-/

namespace CommandGraph

deriving instance DecidableEq for Dictionary

deriving instance DecidableEq for Change

namespace Dump

variable {place : Option Section} {lines : List String} {c : Command}

/-- The commands of a dump are its command lines, parsed. -/
theorem eq_parse_of_mem_commandsFrom (h : c ∈ commandsFrom place lines) :
    ∃ place', c = { Command.parse c.raw with place := place' } := by
  fun_induction commandsFrom place lines with
  | case1 => cases h
  | case2 place line rest text hempty ih => exact ih h
  | case3 place line rest text hempty hcomment ih => exact ih h
  | case4 place line rest text hempty hcomment ih =>
    rcases List.mem_cons.1 h with rfl | hrest
    · exact ⟨place, rfl⟩
    · exact ih hrest

end Dump

/-! ## Lines that are read as a whole -/

namespace Command

/-- The tokens of a line, with one word for teleporting. -/
def canonicalTokens (line : String) : List String :=
  match tokensOf line with
  | [] => []
  | keyword :: args => Dump.Rule.canonical keyword :: args

/-- A line has no arguments behind those that the rule of its keyword reads. -/
def ReadWhole (line : String) : Prop :=
  ∀ count ∈ (Dump.Rule.ofKeyword (parse line).keyword).reach, (tokensOf line).length ≤ count + 1

instance (line : String) : Decidable (ReadWhole line) :=
  inferInstanceAs (Decidable (∀ count ∈ (Dump.Rule.ofKeyword (parse line).keyword).reach,
    (tokensOf line).length ≤ count + 1))

theorem ReadWhole.seenTokens_eq {line : String} (h : ReadWhole line) :
    seenTokens line = canonicalTokens line := by
  have hkeyword : (parse line).keyword = (tokensOf line).headD "" := rfl
  unfold ReadWhole at h
  unfold seenTokens canonicalTokens
  rw [hkeyword] at h
  cases htokens : tokensOf line with
  | nil => rfl
  | cons keyword args =>
    rw [htokens] at h
    rw [Dump.Reading.seen]
    cases hreach : (Dump.Rule.ofKeyword keyword).reach with
    | none => rfl
    | some count =>
      -- The rule reads up to `count` arguments, and there are no more.
      have hlength : args.length ≤ count := Nat.le_of_succ_le_succ (h count hreach)
      rw [Dump.Layout.within, List.take_of_length_le hlength]

/-- Lines with equal fingerprints that are read as a whole have other values if they have other
tokens. -/
theorem values_parse_ne {line line' : String}
    (h : (parse line).fingerprint = (parse line').fingerprint) (hbar : Unbarred line)
    (hbar' : Unbarred line') (hwhole : ReadWhole line) (hwhole' : ReadWhole line')
    (htokens : canonicalTokens line ≠ canonicalTokens line') :
    (parse line).values ≠ (parse line').values := by
  intro hvalues
  refine htokens ?_
  rw [← hwhole.seenTokens_eq, ← hwhole'.seenTokens_eq]
  exact (values_parse_eq_iff hbar hbar' h).1 hvalues

end Command

/-- A reported change of values is about two lines with one fingerprint. It shows what these differ
in as far as the rule of their keyword reads them: the values are equal exactly if the tokens are
that the rule reads. So they differ if the tokens do, provided that the rule reads both lines as a
whole. All this holds as long as no bar stands in the shapes. -/
theorem Analysis.values_change_shows (old new : String) (index : Nat)
    (values values' : Dictionary String)
    (h : .values index values values' ∈ (between old new).changes) :
    ∃ c c', (Dump.parse old)[index]? = some c ∧ (Dump.parse new)[index]? = some c' ∧
      c.fingerprint = c'.fingerprint ∧ c.values = values ∧ c'.values = values' ∧
      (Command.Unbarred c.raw → Command.Unbarred c'.raw →
        (values = values' ↔ Command.seenTokens c.raw = Command.seenTokens c'.raw) ∧
        (Command.ReadWhole c.raw → Command.ReadWhole c'.raw →
          Command.canonicalTokens c.raw ≠ Command.canonicalTokens c'.raw → values ≠ values')) := by
  obtain ⟨c, c', hc, hc', hfingerprint, rfl, rfl⟩ := exists_of_values_mem h
  refine ⟨c, c', hc, hc', hfingerprint, rfl, rfl, fun hbar hbar' => ?_⟩
  obtain ⟨place, hplace⟩ := Dump.eq_parse_of_mem_commandsFrom (List.mem_of_getElem? hc)
  obtain ⟨place', hplace'⟩ := Dump.eq_parse_of_mem_commandsFrom (List.mem_of_getElem? hc')
  -- The section a command stands in has no part in its fingerprint and its values.
  rw [hplace, hplace'] at hfingerprint ⊢
  exact ⟨Command.values_parse_eq_iff hbar hbar' hfingerprint,
    Command.values_parse_ne hfingerprint hbar hbar'⟩

/-- Behind settings and a slash, with either word for teleporting, the new destination is shown. -/
theorem Analysis.values_change_shows_destination :
    let old := "# Command block\n[CUA]/teleport @p 1 2 3"
    let new := "# Command block\n[CUA] tp @p 1 2 4"
    ∃ values values', .values 0 values values' ∈ (between old new).changes ∧ values ≠ values' := by
  intro old new
  have h : .values 0 (Command.parse "[CUA]/teleport @p 1 2 3").values
      (Command.parse "[CUA] tp @p 1 2 4").values ∈ (between old new).changes := by
    decide +kernel
  obtain ⟨c, c', hc, hc', -, -, -, hshows⟩ := values_change_shows old new 0 _ _ h
  have hraw : (Dump.parse old)[0]?.map Command.raw = some "[CUA]/teleport @p 1 2 3" := by
    decide +kernel
  have hraw' : (Dump.parse new)[0]?.map Command.raw = some "[CUA] tp @p 1 2 4" := by
    decide +kernel
  rw [hc, Option.map_some, Option.some.injEq] at hraw
  rw [hc', Option.map_some, Option.some.injEq] at hraw'
  rw [hraw, hraw'] at hshows
  exact ⟨_, _, h, (hshows (by decide +kernel) (by decide +kernel)).2 (by decide +kernel)
    (by decide +kernel) (by decide +kernel)⟩

/-- The rule for `fill` does not read the filter, so a change of the filter is reported with twice
the same values. -/
theorem Analysis.fill_filter_not_shown :
    let old := "fill 0 0 0 1 1 1 stone replace dirt"
    let new := "fill 0 0 0 1 1 1 stone replace sand"
    let values := (Command.parse old).values
    (Dump.parse old).map Command.raw = [old] ∧ (Dump.parse new).map Command.raw = [new] ∧
      (between old new).changes = [.values 0 values values] ∧
      Command.canonicalTokens old ≠ Command.canonicalTokens new := by
  refine ⟨?_, ?_, ?_, ?_⟩ <;> decide +kernel

end CommandGraph
