import CommandGraph.Proofs.Dump.Rule

/-!
# What a fingerprint tells

The fingerprint of a command joins its settings, its keyword and the other tokens of its shape by
bars. The settings can be told from the rest, since they end with a bracket and not with a bar. The
rest can be taken apart if no bar stands in it (`Command.Unbarred`); otherwise two shapes may have
one fingerprint, such as those of `execute a b` and `execute a|b`.
-/

namespace CommandGraph

namespace Dump

/-- A group goes up to its first closing bracket, and others may follow. -/
theorem splitGroups_group {content : List Char} (h : ∀ c ∈ content, c ≠ ']') (cs : List Char) :
    splitGroups ('[' :: (content ++ ']' :: cs)) =
      ('[' :: (content ++ ']' :: (splitGroups cs).1), (splitGroups cs).2) := by
  have hinside : ∀ c ∈ content, (c != ']') = true := fun c hc => bne_iff_ne.2 (h c hc)
  have htake : (content ++ ']' :: cs).takeWhile (· != ']') = content := by
    rw [List.takeWhile_append_of_pos hinside, List.takeWhile_cons_of_neg (by simp),
      List.append_nil]
  have hdrop : (content ++ ']' :: cs).dropWhile (· != ']') = ']' :: cs := by
    rw [List.dropWhile_append_of_pos hinside, List.dropWhile_cons_of_neg (by simp)]
  rw [splitGroups]
  split
  next hnil => rw [hdrop] at hnil; cases hnil
  next close rest hclose =>
    rw [hdrop] at hclose
    obtain ⟨rfl, rfl⟩ := List.cons.inj hclose
    rw [htake]
    rfl

/-- Settings are found again in front of a bar. -/
theorem splitGroups_append_bar (line cs : List Char) :
    splitGroups ((splitGroups line).1 ++ '|' :: cs) = ((splitGroups line).1, '|' :: cs) := by
  fun_induction splitGroups line with
  | case1 => rw [List.nil_append, splitGroups]; simp
  | case2 rest close rest' hclose hlt groups rest'' hgroups ih =>
    -- The first group ends at the bracket at which it was cut, and the others are found behind it.
    have hend := List.head?_dropWhile_not (· != ']') rest
    obtain rfl : close = ']' := by simpa [hclose] using hend
    have hinside : ∀ c ∈ rest.takeWhile (· != ']'), c ≠ ']' := fun c hc =>
      bne_iff_ne.1 (List.all_eq_true.1 List.all_takeWhile c hc)
    rw [hgroups] at ih
    simp only [List.cons_append, List.append_assoc, splitGroups_group hinside, ih]
  | case3 => rw [List.nil_append, splitGroups]; simp

theorem head?_splitGroups (line : List Char) :
    (splitGroups line).1 = [] ∨ (splitGroups line).1.head? = some '[' := by
  fun_cases splitGroups line with
  | case1 => exact .inl rfl
  | case2 => exact .inr rfl
  | case3 => exact .inl rfl

/-- Settings begin with a bracket, and are found again in front of a bar. -/
theorem of_settings_eq_some {line settings : List Char}
    (h : (splitSettings line).1 = some settings) :
    settings.head? = some '[' ∧
      ∀ cs, splitGroups (settings ++ '|' :: cs) = (settings, '|' :: cs) := by
  obtain ⟨hne, rfl⟩ : (splitGroups line).1 ≠ [] ∧ (splitGroups line).1 = settings := by
    unfold splitSettings at h
    split at h
    next => cases h
    next groups rest hne hgroups =>
      rw [hgroups]
      exact ⟨hne, Option.some.inj h⟩
  exact ⟨(head?_splitGroups line).resolve_left hne, splitGroups_append_bar line⟩

end Dump

namespace Command

/-- The tokens of a line, sorted out. -/
def reading (line : String) : Dump.Reading :=
  Dump.Reading.ofTokens (tokensOf line)

/-- No bar stands in the keyword or in another token of the shape. -/
def Unbarred (line : String) : Prop :=
  ∀ part ∈ (reading line).keyword :: (reading line).shape, '|' ∉ part.toList

instance (line : String) : Decidable (Unbarred line) :=
  inferInstanceAs (Decidable (∀ part ∈ (reading line).keyword :: (reading line).shape,
    '|' ∉ part.toList))

/-- The keyword and the other tokens of the shape, joined by bars. -/
def shapeChars (line : String) : List Char :=
  ['|'].intercalate (((reading line).keyword :: (reading line).shape).map String.toList)

theorem fingerprint_of_settings_none {line : String}
    (h : (Dump.splitSettings line.toList).1 = none) :
    (parse line).fingerprint.toList = shapeChars line := by
  rw [parse]
  simp only [h]
  exact String.toList_intercalate

theorem fingerprint_of_settings_some {line : String} {settings : List Char}
    (h : (Dump.splitSettings line.toList).1 = some settings) :
    (parse line).fingerprint.toList = settings ++ '|' :: shapeChars line := by
  rw [parse]
  simp only [h, String.toList_intercalate]
  simp [shapeChars, List.intercalate_cons_cons, reading]

/-- The keyword and shape can be taken apart again if no bar stands in them. -/
theorem shapeChars_inj {line line' : String} (hbar : Unbarred line) (hbar' : Unbarred line')
    (h : shapeChars line = shapeChars line') :
    (reading line).keyword = (reading line').keyword ∧
      (reading line).shape = (reading line').shape := by
  have hsplit {line : String} (hbar : Unbarred line) : (shapeChars line).splitOn '|' =
      ((reading line).keyword :: (reading line).shape).map String.toList :=
    List.splitOn_intercalate '|' (List.forall_mem_map.2 hbar) (by simp)
  have hparts := (hsplit hbar).symm.trans ((congrArg (List.splitOn '|') h).trans (hsplit hbar'))
  exact List.cons.inj ((List.map_inj_right fun _ _ => String.toList_inj.1).1 hparts)

/-- The fingerprint of a line without settings does not look as if there were settings, unless a bar
stands in its keyword. -/
theorem ne_shapeChars_of_bracket {line : String} (hbar : Unbarred line) {settings : List Char}
    (hsettings : settings.head? = some '[') (cs : List Char) :
    settings ++ '|' :: cs ≠ shapeChars line := by
  intro heq
  have hhead : (shapeChars line).head? = some '[' := by
    rw [← heq, List.head?_append, hsettings]
    rfl
  have hkeyword : (reading line).keyword.toList.head? = some '[' := by
    -- Behind an empty keyword there would be a bar or nothing.
    unfold shapeChars at hhead
    cases hchars : (reading line).keyword.toList with
    | cons c rest => cases hshape : (reading line).shape <;> simp_all [List.intercalate_cons_cons]
    | nil => cases hshape : (reading line).shape <;> simp_all [List.intercalate_cons_cons]
  have hshape : (reading line).shape = [] := Dump.Reading.shape_eq_nil_of_bracket hkeyword
  have hchars : shapeChars line = (reading line).keyword.toList := by
    rw [shapeChars, hshape, List.map_cons, List.map_nil, List.intercalate_singleton]
  refine hbar _ List.mem_cons_self ?_
  rw [← hchars, ← heq]
  simp

/-- Lines with equal fingerprints have equal settings, and equal texts of their shapes, if no bar
stands in their keywords. -/
theorem parts_eq_of_fingerprint_eq {line line' : String} (hbar : Unbarred line)
    (hbar' : Unbarred line') (h : (parse line).fingerprint = (parse line').fingerprint) :
    (Dump.splitSettings line.toList).1 = (Dump.splitSettings line'.toList).1 ∧
      shapeChars line = shapeChars line' := by
  have hchars := congrArg String.toList h
  cases hsettings : (Dump.splitSettings line.toList).1 with
  | none =>
    rw [fingerprint_of_settings_none hsettings] at hchars
    cases hsettings' : (Dump.splitSettings line'.toList).1 with
    | none =>
      rw [fingerprint_of_settings_none hsettings'] at hchars
      exact ⟨rfl, hchars⟩
    | some settings' =>
      rw [fingerprint_of_settings_some hsettings'] at hchars
      exact absurd hchars.symm
        (ne_shapeChars_of_bracket hbar (Dump.of_settings_eq_some hsettings').1 _)
  | some settings =>
    rw [fingerprint_of_settings_some hsettings] at hchars
    obtain ⟨hhead, hgroups⟩ := Dump.of_settings_eq_some hsettings
    cases hsettings' : (Dump.splitSettings line'.toList).1 with
    | none =>
      rw [fingerprint_of_settings_none hsettings'] at hchars
      exact absurd hchars (ne_shapeChars_of_bracket hbar' hhead _)
    | some settings' =>
      rw [fingerprint_of_settings_some hsettings'] at hchars
      -- What is split off in front of the bar are the settings of either line.
      have hsplit := congrArg Dump.splitGroups hchars
      rw [hgroups, (Dump.of_settings_eq_some hsettings').2] at hsplit
      obtain ⟨rfl, hrest⟩ := Prod.mk.inj hsplit
      exact ⟨rfl, (List.cons.inj hrest).2⟩

/-- Lines with equal fingerprints have equal keywords and shapes if no bar stands in these. -/
theorem shape_eq_of_fingerprint_eq {line line' : String} (hbar : Unbarred line)
    (hbar' : Unbarred line') (h : (parse line).fingerprint = (parse line').fingerprint) :
    (reading line).keyword = (reading line').keyword ∧
      (reading line).shape = (reading line').shape :=
  shapeChars_inj hbar hbar' (parts_eq_of_fingerprint_eq hbar hbar' h).2

/-- With a bar in it, the shape is not told by the fingerprint. -/
example : (parse "execute a b").fingerprint = (parse "execute a|b").fingerprint ∧
    (reading "execute a b").shape ≠ (reading "execute a|b").shape := by
  decide +kernel

/-! ## What the values tell -/

/-- The tokens of a line that the rule of its keyword reads, with one word for teleporting. -/
def seenTokens (line : String) : List String :=
  Dump.Reading.seen (tokensOf line)

/-- Two lines with equal fingerprints have equal values exactly if they have equal tokens, as far as
the rule of their keyword reads them. -/
theorem values_parse_eq_iff {line line' : String} (hbar : Unbarred line) (hbar' : Unbarred line')
    (h : (parse line).fingerprint = (parse line').fingerprint) :
    (parse line).values = (parse line').values ↔ seenTokens line = seenTokens line' := by
  obtain ⟨hkeyword, hshape⟩ := shape_eq_of_fingerprint_eq hbar hbar' h
  have htokens (line : String) : Dump.AreTokens (tokensOf line) := Dump.areTokens_tokenChars _
  have hnames := Dump.Reading.names_eq (htokens line) (htokens line') hkeyword hshape
  exact (Dictionary.ofList_inj hnames (Dump.Reading.nodup_names _)).trans
    (Dump.Reading.fields_eq_iff (htokens line) (htokens line') hkeyword hshape)

end Command

end CommandGraph
