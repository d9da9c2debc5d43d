import CommandGraph.Proofs.Dump.Classification

/-!
# What a comparison reports

A comparison of two dumps reports exactly what is different in their commands (`Analysis.Exact`).
The texts as such only matter for the question whether anything has changed at all: dumps that
differ in comments, blank lines, line ends or indentation have changed, but nothing is reported for
them, and the change counts as one of values.

Neither of the dumps is preferred. Comparing them the other way round finds the same changes, seen
from the other side (`Analysis.between_swap`).
-/

namespace CommandGraph

namespace Change

/-- The change seen from the other side. -/
def swap : Change → Change
  | count old new => count new old
  | shape index old new => shape index new old
  | values index old new => values index new old

/-- The index of the commands that a change is about. The number of commands is about none. -/
def index? : Change → Option Nat
  | count .. => none
  | shape index .. => some index
  | values index .. => some index

variable {index : Nat} {c c' : Command} {change : Change}

/-- What is reported for an index is about that index. -/
theorem Reported.index?_eq (h : Reported index c c' change) : change.index? = some index := by
  cases h <;> rfl

/-- Something has to be reported exactly if fingerprints or lines differ. -/
theorem exists_reported_iff :
    (∃ change, Reported index c c' change) ↔ c.fingerprint ≠ c'.fingerprint ∨ c.raw ≠ c'.raw := by
  constructor
  · rintro ⟨change, h | ⟨-, hraw⟩⟩
    · exact .inl h
    · exact .inr hraw
  · intro h
    by_cases hfingerprint : c.fingerprint = c'.fingerprint
    · exact ⟨_, .values hfingerprint (h.resolve_left (not_not_intro hfingerprint))⟩
    · exact ⟨_, .shape hfingerprint⟩

end Change

namespace Analysis

variable {start : Nat} {olds news : List Command} {old new : String}

/-! ## One index -/

/-- Nothing is found exactly if fingerprints and lines are the same. -/
theorem compareAt_eq_none_iff {index : Nat} {c c' : Command} :
    compareAt index c c' = none ↔ c.fingerprint = c'.fingerprint ∧ c.raw = c'.raw := by
  rw [Option.eq_none_iff_forall_ne_some, ← not_exists]
  simp only [compareAt_eq_some_iff, Change.exists_reported_iff, not_or, ne_eq, Classical.not_not]

/-- The same is found from the other side. -/
theorem compareAt_swap (index : Nat) (c c' : Command) :
    compareAt index c' c = (compareAt index c c').map Change.swap := by
  unfold compareAt
  by_cases hfingerprint : c.fingerprint = c'.fingerprint
  · by_cases hraw : c.raw = c'.raw
    · simp [hfingerprint, hraw]
    · simp [hfingerprint, hraw, Ne.symm hraw, Change.swap]
  · simp [hfingerprint, Ne.symm hfingerprint, Change.swap]

/-! ## All indices -/

/-- All indices are compared alike from the other side. -/
theorem compareFrom_swap (start : Nat) (olds news : List Command) :
    compareFrom start news olds = (compareFrom start olds news).map Change.swap := by
  induction olds generalizing start news with
  | nil => cases news <;> rfl
  | cons old olds ih =>
    cases news with
    | nil => rfl
    | cons new news =>
      rw [compareFrom, compareFrom, compareAt_swap, ih, List.map_append, Option.toList_map]

/-- The changes are reported in the order of the commands, at most one for each. -/
theorem pairwise_index?_compareFrom :
    ((compareFrom start olds news).filterMap Change.index?).Pairwise (· < ·) := by
  fun_induction compareFrom start olds news with
  | case1 start old olds new news ih =>
    rw [List.filterMap_append, List.pairwise_append]
    refine ⟨?_, ih, fun i hi j hj => ?_⟩
    · cases compareAt start old new with
      | none => exact .nil
      | some change => cases h : change.index? <;> simp [h]
    · -- What comes first is about the index that the comparison starts at, all else about later
      -- ones.
      obtain ⟨first, hfirst, hindex⟩ := List.mem_filterMap.1 hi
      obtain ⟨later, hlater, hindex'⟩ := List.mem_filterMap.1 hj
      have hreported := compareAt_eq_some_iff.1 (Option.mem_toList.1 hfirst)
      obtain ⟨k, d, d', -, -, hreported'⟩ := mem_compareFrom_iff.1 hlater
      rw [hreported.index?_eq, Option.some.injEq] at hindex
      rw [hreported'.index?_eq, Option.some.injEq] at hindex'
      omega
  | case2 => exact .nil

/-- Nothing is reported exactly if all fingerprints and all lines are the same. -/
theorem compareFrom_eq_nil_iff (hlength : olds.length = news.length) :
    compareFrom start olds news = [] ↔
      olds.map (·.fingerprint) = news.map (·.fingerprint) ∧
        olds.map (·.raw) = news.map (·.raw) := by
  fun_induction compareFrom start olds news with
  | case1 start old olds new news ih =>
    have hrest := ih (Nat.succ.inj hlength)
    rw [List.append_eq_nil_iff, Option.toList_eq_nil_iff, compareAt_eq_none_iff, hrest]
    simp only [List.map_cons, List.cons.injEq]
    exact and_and_and_comm
  | case2 olds start news hends =>
    -- Lists of one length end together.
    rcases olds with _ | ⟨old, olds⟩
    · rw [List.eq_nil_of_length_eq_zero hlength.symm]
      simp
    · rcases news with _ | ⟨new, news⟩
      · cases hlength
      · exact (hends old olds new news rfl rfl).elim

theorem compareFrom_self (start : Nat) (commands : List Command) :
    compareFrom start commands commands = [] :=
  (compareFrom_eq_nil_iff rfl).2 ⟨rfl, rfl⟩

/-! ## Two dumps -/

/-- Where the commands are equally many, they are compared index by index. Equal texts are no
exception, since nothing is found in them. -/
theorem changes_between (hlength : (Dump.parse old).length = (Dump.parse new).length) :
    (between old new).changes = compareFrom 0 (Dump.parse old) (Dump.parse new) := by
  have houtcome := outcome_between old new
  generalize between old new = analysis at houtcome ⊢
  cases houtcome with
  | same h =>
    subst h
    exact (compareFrom_self 0 _).symm
  | count _ hne => exact absurd hlength hne
  | shape | values => rfl

/-- A comparison the other way round. -/
def swap (analysis : Analysis) : Analysis where
  kind := analysis.kind
  changes := analysis.changes.map Change.swap

/-- A change of shape is one from either side. -/
theorem any_isShape_map_swap (changes : List Change) :
    (changes.map Change.swap).any isShape = changes.any isShape := by
  rw [List.any_map]
  congr 1
  ext change
  cases change <;> rfl

/-- Each case of a comparison is the same case from the other side. -/
theorem Outcome.swap {analysis : Analysis} (h : Outcome old new analysis) :
    Outcome new old analysis.swap := by
  have hany := any_isShape_map_swap (compareFrom 0 (Dump.parse old) (Dump.parse new))
  unfold Analysis.swap
  cases h with
  | same h => exact .same h.symm
  | count h hlength => exact .count h.symm hlength.symm
  | shape h hlength hshape =>
    rw [← compareFrom_swap] at hany ⊢
    exact .shape h.symm hlength.symm (hany.trans hshape)
  | values h hlength hshape =>
    rw [← compareFrom_swap] at hany ⊢
    exact .values h.symm hlength.symm (hany.trans hshape)

/-- Comparing two dumps the other way round finds the same changes from the other side. -/
theorem between_swap (old new : String) : between new old = (between old new).swap :=
  (outcome_between old new).swap.eq_between

/-- An analysis tells exactly what is different in two dumps. -/
structure Exact (old new : String) (analysis : Analysis) : Prop where
  /-- There is no change exactly if the texts are equal. -/
  none_iff : analysis.kind = .none ↔ old = new
  /-- The change is one of structure exactly if the commands are not equally many or some index has
  different fingerprints. -/
  structural_iff : analysis.kind = .structural ↔
    (Dump.parse old).length ≠ (Dump.parse new).length ∨
      ∃ (i : Nat) (c c' : Command), (Dump.parse old)[i]? = some c ∧
        (Dump.parse new)[i]? = some c' ∧ c.fingerprint ≠ c'.fingerprint
  /-- In all other cases it is one of values. -/
  valueOnly_iff : analysis.kind = .valueOnly ↔
    old ≠ new ∧ (Dump.parse old).length = (Dump.parse new).length ∧
      ∀ (i : Nat) (c c' : Command), (Dump.parse old)[i]? = some c →
        (Dump.parse new)[i]? = some c' → c.fingerprint = c'.fingerprint
  /-- If the commands are not equally many, this is all that is reported. -/
  count : (Dump.parse old).length ≠ (Dump.parse new).length →
    analysis.changes = [.count (Dump.parse old).length (Dump.parse new).length]
  /-- Otherwise the changes are those of the single commands. -/
  mem_iff : (Dump.parse old).length = (Dump.parse new).length →
    ∀ change, change ∈ analysis.changes ↔ ∃ (i : Nat) (c c' : Command),
      (Dump.parse old)[i]? = some c ∧ (Dump.parse new)[i]? = some c' ∧
        Change.Reported i c c' change
  /-- Then the commands with a change are those whose fingerprints or lines differ. -/
  index_iff : (Dump.parse old).length = (Dump.parse new).length →
    ∀ i, i ∈ analysis.changes.filterMap Change.index? ↔ ∃ c c' : Command,
      (Dump.parse old)[i]? = some c ∧ (Dump.parse new)[i]? = some c' ∧
        (c.fingerprint ≠ c'.fingerprint ∨ c.raw ≠ c'.raw)
  /-- Their indices ascend. -/
  ascending : (analysis.changes.filterMap Change.index?).Pairwise (· < ·)
  /-- In a change of values, nothing is reported exactly if all command lines are the same. -/
  eq_nil_iff : analysis.kind = .valueOnly →
    (analysis.changes = [] ↔ (Dump.parse old).map (·.raw) = (Dump.parse new).map (·.raw))

/-- What decides the kind of a comparison. -/
theorem kind_between (old new : String) :
    ((between old new).kind = .none ↔ old = new) ∧
    ((between old new).kind = .structural ↔
      (Dump.parse old).length ≠ (Dump.parse new).length ∨
        (compareFrom 0 (Dump.parse old) (Dump.parse new)).any isShape = true) := by
  have houtcome := outcome_between old new
  generalize between old new = analysis at houtcome ⊢
  cases houtcome with
  | same h =>
    subst h
    simp [compareFrom_self]
  | count h hlength => simp [h, hlength]
  | shape h hlength hshape => simp [h, hshape]
  | values h hlength hshape => simp [h, hlength, hshape]

/-- What is reported for equally many commands is what has to be reported for some index. -/
theorem mem_changes_iff (hlength : (Dump.parse old).length = (Dump.parse new).length)
    (change : Change) : change ∈ (between old new).changes ↔ ∃ (i : Nat) (c c' : Command),
      (Dump.parse old)[i]? = some c ∧ (Dump.parse new)[i]? = some c' ∧
        Change.Reported i c c' change := by
  simp only [changes_between hlength, mem_compareFrom_iff, Nat.zero_add]

/-- The indices that are reported are those at which something has to be reported. -/
theorem mem_indices_iff (hlength : (Dump.parse old).length = (Dump.parse new).length) (i : Nat) :
    i ∈ (between old new).changes.filterMap Change.index? ↔ ∃ c c' : Command,
      (Dump.parse old)[i]? = some c ∧ (Dump.parse new)[i]? = some c' ∧
        (c.fingerprint ≠ c'.fingerprint ∨ c.raw ≠ c'.raw) := by
  rw [List.mem_filterMap]
  constructor
  · rintro ⟨change, hmem, hindex⟩
    obtain ⟨j, c, c', hc, hc', hreported⟩ := (mem_changes_iff hlength change).1 hmem
    obtain rfl : j = i := Option.some.inj (hreported.index?_eq.symm.trans hindex)
    exact ⟨c, c', hc, hc', Change.exists_reported_iff.1 ⟨change, hreported⟩⟩
  · rintro ⟨c, c', hc, hc', hdiffer⟩
    obtain ⟨change, hreported⟩ := Change.exists_reported_iff.2 hdiffer
    exact ⟨change, (mem_changes_iff hlength change).2 ⟨i, c, c', hc, hc', hreported⟩,
      hreported.index?_eq⟩

/-- Different numbers of commands are all that is reported. -/
theorem changes_between_of_length_ne
    (hlength : (Dump.parse old).length ≠ (Dump.parse new).length) :
    (between old new).changes = [.count (Dump.parse old).length (Dump.parse new).length] := by
  have houtcome := outcome_between old new
  generalize between old new = analysis at houtcome ⊢
  cases houtcome with
  | same h => exact absurd (congrArg (fun text => (Dump.parse text).length) h) hlength
  | count => rfl
  | shape _ heq | values _ heq => exact absurd heq hlength

/-- What is reported is in the order of the commands. -/
theorem ascending_changes (old new : String) :
    ((between old new).changes.filterMap Change.index?).Pairwise (· < ·) := by
  by_cases hlength : (Dump.parse old).length = (Dump.parse new).length
  · rw [changes_between hlength]
    exact pairwise_index?_compareFrom
  · rw [changes_between_of_length_ne hlength]
    exact .nil

/-- Equally many commands with the same fingerprints have the same list of fingerprints. -/
theorem map_fingerprint_eq (hlength : olds.length = news.length)
    (h : ∀ (i : Nat) (c c' : Command), olds[i]? = some c → news[i]? = some c' →
      c.fingerprint = c'.fingerprint) :
    olds.map (·.fingerprint) = news.map (·.fingerprint) := by
  refine List.ext_getElem (by simpa using hlength) fun i hi hi' => ?_
  rw [List.length_map] at hi hi'
  simpa using h i _ _ (List.getElem?_eq_getElem hi) (List.getElem?_eq_getElem hi')

/-- A comparison tells exactly what is different. -/
theorem exact_between (old new : String) : Exact old new (between old new) := by
  obtain ⟨hnone, hstructural⟩ := kind_between old new
  rw [any_isShape_compareFrom] at hstructural
  have hvalueOnly : (between old new).kind = .valueOnly ↔
      ¬ (between old new).kind = .none ∧ ¬ (between old new).kind = .structural := by
    cases (between old new).kind <;> simp
  simp only [hnone, hstructural, not_or, not_exists, not_and, ne_eq,
    Classical.not_not] at hvalueOnly
  refine ⟨hnone, hstructural, hvalueOnly, changes_between_of_length_ne, mem_changes_iff,
    mem_indices_iff, ascending_changes old new, fun hkind => ?_⟩
  -- The fingerprints are the same in a change of values, so only the lines can differ.
  obtain ⟨-, hlength, hfingerprints⟩ := hvalueOnly.1 hkind
  rw [changes_between hlength, compareFrom_eq_nil_iff hlength]
  exact and_iff_right (map_fingerprint_eq hlength hfingerprints)

end Analysis

/-- Comparing two dumps tells exactly what is different in their commands, and comparing them the
other way round tells the same from the other side. -/
theorem Analysis.between_exact_symmetric (old new : String) :
    (between old new).Exact old new ∧ between new old = (between old new).swap :=
  ⟨exact_between old new, between_swap old new⟩

/-- Other comments, line ends and indentation are a change, but only the other values are
reported. -/
example :
    let analysis := Analysis.between "# Setup\nsay one\n\tkill @e\nsay two"
      "# setup\r\n\r\nsay one\r\nkill\r\n  say 2"
    analysis.kind = .valueOnly ∧ analysis.changes.map Change.index? = [some 1, some 2] := by
  decide +kernel

end CommandGraph
