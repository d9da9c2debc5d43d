import CommandGraph.Dump.Change

/-!
# How a comparison of two dumps comes out

Two dumps with one text have not changed. Otherwise their commands are counted, and compared index
by index if they are equally many. `Analysis.Outcome` lists these cases with all that decides
between them, and `Analysis.outcome_between` says that every comparison is in one of them. All that
is known of a comparison is read off from there: what a reported change shows, what its kind tells,
and what is reported at all.

What has to be reported for two commands is `Change.Reported`. The changes found in two lists of
commands are those that have to be reported at some index (`Analysis.mem_compareFrom_iff`).
-/

namespace CommandGraph

/-- What has to be reported for the commands at an index. -/
inductive Change.Reported (index : Nat) (c c' : Command) : Change → Prop
  /-- The fingerprints differ. -/
  | shape (h : c.fingerprint ≠ c'.fingerprint) :
      Reported index c c' (.shape index c.fingerprint c'.fingerprint)
  /-- The fingerprints are the same, but the lines differ. -/
  | values (h : c.fingerprint = c'.fingerprint) (hraw : c.raw ≠ c'.raw) :
      Reported index c c' (.values index c.values c'.values)

namespace Analysis

variable {start : Nat} {olds news : List Command} {old new : String} {change : Change}

/-! ## The changes of two lists of commands -/

/-- Comparing two commands finds exactly what has to be reported for them. -/
theorem compareAt_eq_some_iff {index : Nat} {c c' : Command} :
    compareAt index c c' = some change ↔ Change.Reported index c c' change := by
  unfold compareAt
  constructor
  · intro h
    split at h
    next hfingerprint =>
      cases h
      exact .shape hfingerprint
    next hfingerprint =>
      split at h
      next hraw =>
        cases h
        exact .values (Decidable.not_not.1 hfingerprint) hraw
      next => cases h
  · rintro (h | ⟨h, hraw⟩)
    · rw [if_pos h]
    · rw [if_neg (not_not_intro h), if_pos hraw]

/-- The changes found in the comparison are those of the commands at one index. -/
theorem mem_compareFrom_iff : change ∈ compareFrom start olds news ↔
    ∃ i c c', olds[i]? = some c ∧ news[i]? = some c' ∧
      Change.Reported (start + i) c c' change := by
  constructor
  · intro h
    fun_induction compareFrom start olds news with
    | case1 start c olds c' news ih =>
      rcases List.mem_append.1 h with hfirst | hrest
      · exact ⟨0, c, c', rfl, rfl, compareAt_eq_some_iff.1 (Option.mem_toList.1 hfirst)⟩
      · -- An index of the rest is one less than in the whole list.
        obtain ⟨i, d, d', hd, hd', hreported⟩ := ih hrest
        refine ⟨i + 1, d, d', hd, hd', ?_⟩
        rwa [Nat.add_right_comm, Nat.add_assoc] at hreported
    | case2 => cases h
  · rintro ⟨i, c, c', hc, hc', hreported⟩
    fun_induction compareFrom start olds news generalizing i with
    | case1 start old olds new news ih =>
      cases i with
      | zero =>
        obtain rfl : old = c := Option.some.inj hc
        obtain rfl : new = c' := Option.some.inj hc'
        exact List.mem_append_left _ (Option.mem_toList.2 (compareAt_eq_some_iff.2 hreported))
      | succ i =>
        refine List.mem_append_right _ (ih i hc hc' ?_)
        rwa [Nat.add_right_comm, Nat.add_assoc]
    | case2 olds start news hends =>
      -- One of the lists has ended, so no index is in both.
      rcases olds with _ | ⟨old, olds⟩
      · simp at hc
      · rcases news with _ | ⟨new, news⟩
        · simp at hc'
        · exact (hends old olds new news rfl rfl).elim

/-- A change of shape is reported exactly if some fingerprint has changed. -/
theorem any_isShape_compareFrom : (compareFrom start olds news).any isShape = true ↔
    ∃ (i : Nat) (c c' : Command), olds[i]? = some c ∧ news[i]? = some c' ∧
      c.fingerprint ≠ c'.fingerprint := by
  rw [List.any_eq_true]
  constructor
  · rintro ⟨change, hmem, hshape⟩
    obtain ⟨i, c, c', hc, hc', hreported⟩ := mem_compareFrom_iff.1 hmem
    cases hreported with
    | shape hfingerprint => exact ⟨i, c, c', hc, hc', hfingerprint⟩
    | values => cases hshape
  · rintro ⟨i, c, c', hc, hc', hfingerprint⟩
    exact ⟨_, mem_compareFrom_iff.2 ⟨i, c, c', hc, hc', .shape hfingerprint⟩, rfl⟩

/-! ## The cases of a comparison -/

/-- How a comparison comes out, with all that decides it. -/
inductive Outcome (old new : String) : Analysis → Prop
  /-- The texts are equal. -/
  | same (h : old = new) : Outcome old new ⟨.none, []⟩
  /-- The numbers of commands differ. -/
  | count (h : old ≠ new) (hlength : (Dump.parse old).length ≠ (Dump.parse new).length) :
      Outcome old new ⟨.structural, [.count (Dump.parse old).length (Dump.parse new).length]⟩
  /-- Some fingerprint differs. -/
  | shape (h : old ≠ new) (hlength : (Dump.parse old).length = (Dump.parse new).length)
      (hshape : (compareFrom 0 (Dump.parse old) (Dump.parse new)).any isShape = true) :
      Outcome old new ⟨.structural, compareFrom 0 (Dump.parse old) (Dump.parse new)⟩
  /-- All fingerprints are the same. -/
  | values (h : old ≠ new) (hlength : (Dump.parse old).length = (Dump.parse new).length)
      (hshape : (compareFrom 0 (Dump.parse old) (Dump.parse new)).any isShape = false) :
      Outcome old new ⟨.valueOnly, compareFrom 0 (Dump.parse old) (Dump.parse new)⟩

/-- Every comparison is in one of the cases. -/
theorem outcome_between (old new : String) : Outcome old new (between old new) := by
  unfold between
  split
  next h => exact .same h
  next h =>
    dsimp only
    split
    next hlength => exact .count h hlength
    next hlength =>
      have hlength := Decidable.not_not.1 hlength
      cases hshape : (compareFrom 0 (Dump.parse old) (Dump.parse new)).any isShape with
      | true => exact .shape h hlength hshape
      | false => exact .values h hlength hshape

/-- The cases exclude each other, so a comparison comes out in one way only. -/
theorem Outcome.eq_between {analysis : Analysis} (h : Outcome old new analysis) :
    between old new = analysis := by
  have houtcome := outcome_between old new
  generalize between old new = other at houtcome ⊢
  -- Two different cases contradict each other in what decides between them.
  cases h <;> cases houtcome <;> simp_all

/-- A reported change of values is about two lines with one fingerprint. -/
theorem exists_of_values_mem {index : Nat} {values values' : Dictionary String}
    (h : .values index values values' ∈ (between old new).changes) :
    ∃ c c', (Dump.parse old)[index]? = some c ∧ (Dump.parse new)[index]? = some c' ∧
      c.fingerprint = c'.fingerprint ∧ c.values = values ∧ c'.values = values' := by
  have houtcome := outcome_between old new
  generalize between old new = analysis at houtcome h
  cases houtcome with
  | same => cases h
  | count => simp at h
  | shape | values =>
    obtain ⟨i, c, c', hc, hc', hreported⟩ := mem_compareFrom_iff.1 h
    rw [Nat.zero_add] at hreported
    cases hreported with
    | values hfingerprint => exact ⟨c, c', hc, hc', hfingerprint, rfl, rfl⟩

/-- Where only values have changed, the commands are equally many and keep their fingerprints. -/
theorem fingerprint_eq_of_valueOnly (h : (between old new).kind = .valueOnly) :
    (Dump.parse old).length = (Dump.parse new).length ∧
      ∀ (i : Nat) (c c' : Command), (Dump.parse old)[i]? = some c →
        (Dump.parse new)[i]? = some c' → c.fingerprint = c'.fingerprint := by
  have houtcome := outcome_between old new
  generalize between old new = analysis at houtcome h
  cases houtcome with
  | same | count | shape => cases h
  | values _ hlength hshape =>
    rw [Bool.eq_false_iff, ne_eq, any_isShape_compareFrom] at hshape
    exact ⟨hlength, fun i c c' hc hc' =>
      Decidable.byContradiction fun hne => hshape ⟨i, c, c', hc, hc', hne⟩⟩

end Analysis

end CommandGraph
