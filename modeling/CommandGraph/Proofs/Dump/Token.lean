import CommandGraph.Dump.Token

/-!
# Cutting and joining

The tokens of a line can be joined by spaces and cut again: no token has a cut inside, and nothing
is open behind a token that another one follows (`Separated`). This holds of any tokens left in
their order, so the texts of single fields can be cut as well, and fields with equal texts have
equal tokens (`tokenize_intercalate`).
-/

namespace CommandGraph.Dump

namespace Nesting

/-- No space in the characters cuts, where `state` is known before them. -/
def Uncut (state : Nesting) : List Char → Prop
  | [] => True
  | c :: cs => state.cutsAt c = false ∧ (state.advance c).Uncut cs

/-- Nothing is open, so a space would cut here. -/
def Closed (state : Nesting) : Prop :=
  state.quote = none ∧ state.depth = 0

variable {state : Nesting} {c : Char}

theorem cutsAt_eq_true_iff : state.cutsAt c = true ↔ c = ' ' ∧ state.Closed := by
  simp [cutsAt, Closed]

/-- Where nothing is open, it does not matter what has been read. -/
theorem Closed.advance_eq (h : state.Closed) (c : Char) : state.advance c = advance {} c := by
  simp [advance, h.1, h.2]

theorem Closed.advance_space (h : state.Closed) : (state.advance ' ').Closed := by
  rw [h.advance_eq]
  exact ⟨rfl, rfl⟩

end Nesting

/-! ## Pieces -/

section Pieces

variable {state : Nesting}

theorem segments_of_closed (h : state.Closed) (cs : List Char) :
    segments state cs = segments {} cs := by
  cases cs with
  | nil => rfl
  | cons c cs =>
    have hcuts : state.cutsAt c = Nesting.cutsAt {} c := by
      simp [Nesting.cutsAt, h.1, h.2]
    rw [segments, segments, hcuts, h.advance_eq]

/-- A piece goes up to the first cut. -/
theorem segments_append (piece cs : List Char) (h : state.Uncut piece) :
    segments state (piece ++ cs) =
      piece.foldr extendFirst (segments (piece.foldl Nesting.advance state) cs) := by
  induction piece generalizing state with
  | nil => rfl
  | cons c piece ih =>
    rw [List.cons_append, segments, h.1, ih h.2]
    rfl

theorem foldr_extendFirst (piece first : List Char) (rest : List (List Char)) :
    piece.foldr extendFirst (first :: rest) = (piece ++ first) :: rest := by
  induction piece with
  | nil => rfl
  | cons c piece ih => rw [List.foldr_cons, ih, extendFirst, List.cons_append]

/-- Joined by spaces, pieces that leave nothing open stay apart from each other and from what
follows them. -/
theorem segments_intercalate_concat {words : List (List Char)}
    (h : ∀ word ∈ words, Nesting.Uncut {} word ∧ (Nesting.after word).Closed) (rest : List Char) :
    segments {} ([' '].intercalate (words ++ [rest])) = words ++ segments {} rest := by
  induction words with
  | nil => rw [List.nil_append, List.intercalate_singleton, List.nil_append]
  | cons word words ih =>
    obtain ⟨⟨huncut, hclosed⟩, hwords⟩ := List.forall_mem_cons.1 h
    rw [List.cons_append, List.intercalate_cons_of_ne_nil (by simp), List.append_assoc,
      List.singleton_append, segments_append _ _ huncut]
    -- Behind the word the space cuts, and the rest is read as from the beginning.
    change word.foldr extendFirst (segments (Nesting.after word) _) = _
    rw [segments, if_pos (Nesting.cutsAt_eq_true_iff.2 ⟨rfl, hclosed⟩),
      segments_of_closed hclosed.advance_space, ih hwords, foldr_extendFirst, List.append_nil,
      List.cons_append]

/-- The first piece is uncut, and so are the others, which begin where nothing is open. Nothing is
open behind a piece that another one follows. -/
theorem exists_segments_eq (state : Nesting) (cs : List Char) :
    ∃ first rest, segments state cs = first :: rest ∧ state.Uncut first ∧
      (rest ≠ [] → (first.foldl Nesting.advance state).Closed) ∧
      (∀ piece ∈ rest, Nesting.Uncut {} piece) ∧
      rest.Pairwise fun piece _ => (Nesting.after piece).Closed := by
  induction cs generalizing state with
  | nil => exact ⟨[], [], rfl, trivial, by simp, by simp, .nil⟩
  | cons c cs ih =>
    rw [segments]
    by_cases hcuts : state.cutsAt c = true
    · -- The first piece ends here, and the others are those of a line that begins behind the space.
      obtain ⟨rfl, hclosed⟩ := Nesting.cutsAt_eq_true_iff.1 hcuts
      obtain ⟨first, rest, heq, huncut, hfirst, hrest, hpairs⟩ := ih {}
      rw [if_pos hcuts, segments_of_closed hclosed.advance_space, heq]
      refine ⟨[], first :: rest, rfl, trivial, fun _ => hclosed, ?_, ?_⟩
      · exact List.forall_mem_cons.2 ⟨huncut, hrest⟩
      · exact List.pairwise_cons.2 ⟨fun _ h => hfirst (List.ne_nil_of_mem h), hpairs⟩
    · obtain ⟨first, rest, heq, huncut, hfirst, hrest, hpairs⟩ := ih (state.advance c)
      rw [if_neg hcuts, heq]
      exact ⟨c :: first, rest, rfl, ⟨by simpa using hcuts, huncut⟩, hfirst, hrest, hpairs⟩

end Pieces

/-! ## Tokens -/

/-- Tokens that stay apart when they are joined by spaces. -/
structure Separated (tokens : List (List Char)) : Prop where
  /-- No token is empty. -/
  ne_nil : ∀ token ∈ tokens, token ≠ []
  /-- No token has a cut inside. -/
  uncut : ∀ token ∈ tokens, Nesting.Uncut {} token
  /-- Nothing is open behind a token that another one follows. -/
  closed : tokens.Pairwise fun token _ => (Nesting.after token).Closed

namespace Separated

variable {tokens : List (List Char)}

theorem of_sublist {part : List (List Char)} (h : Separated tokens) (hpart : part.Sublist tokens) :
    Separated part where
  ne_nil token htoken := h.ne_nil token (hpart.subset htoken)
  uncut token htoken := h.uncut token (hpart.subset htoken)
  closed := h.closed.sublist hpart

/-- Joining by spaces is undone by cutting. -/
theorem tokenChars_intercalate (h : Separated tokens) :
    tokenChars ([' '].intercalate tokens) = tokens := by
  have hsegments : tokens ≠ [] → segments {} ([' '].intercalate tokens) = tokens := by
    intro hne
    -- Only behind the last token may something be open.
    obtain ⟨front, last, rfl⟩ : ∃ front last, tokens = front ++ [last] :=
      ⟨_, _, (List.dropLast_concat_getLast hne).symm⟩
    have hclosed := (List.pairwise_append.1 h.closed).2.2
    rw [segments_intercalate_concat fun token htoken =>
      ⟨h.uncut token (List.mem_append_left _ htoken),
        hclosed token htoken last (List.mem_singleton_self _)⟩]
    have hlast := segments_append last [] (h.uncut last (by simp))
    rw [List.append_nil, segments, foldr_extendFirst, List.append_nil] at hlast
    rw [hlast]
  cases tokens with
  | nil => rfl
  | cons token rest =>
    rw [tokenChars, hsegments (List.cons_ne_nil _ _), List.filter_eq_self]
    exact fun token htoken => by simpa using h.ne_nil token htoken

end Separated

theorem separated_tokenChars (cs : List Char) : Separated (tokenChars cs) := by
  obtain ⟨first, rest, heq, huncut, hfirst, hrest, hpairs⟩ := exists_segments_eq {} cs
  have hsub : (tokenChars cs).Sublist (first :: rest) := by
    rw [tokenChars, heq]
    exact List.filter_sublist
  refine ⟨fun token htoken => by simpa using (List.mem_filter.1 htoken).2, ?_, ?_⟩
  · exact fun token htoken => List.forall_mem_cons.2 ⟨huncut, hrest⟩ token (hsub.subset htoken)
  · -- Leaving out empty pieces brings others together, but only what stands in front matters.
    refine List.Pairwise.sublist hsub (List.pairwise_cons.2 ⟨fun _ h => ?_, hpairs⟩)
    exact hfirst (List.ne_nil_of_mem h)

/-- Tokens as texts. -/
def AreTokens (tokens : List String) : Prop :=
  Separated (tokens.map String.toList)

variable {tokens : List String}

theorem areTokens_tokenChars (cs : List Char) : AreTokens ((tokenChars cs).map String.ofList) := by
  rw [AreTokens, List.map_map]
  simpa [Function.comp_def] using separated_tokenChars cs

theorem AreTokens.of_sublist {part : List String} (h : AreTokens tokens)
    (hpart : part.Sublist tokens) : AreTokens part :=
  Separated.of_sublist h (hpart.map _)

theorem AreTokens.ne_empty (h : AreTokens tokens) : "" ∉ tokens := by
  intro hmem
  exact h.ne_nil _ (List.mem_map_of_mem hmem) rfl

/-- Tokens that are joined by spaces are the tokens of the joined text. -/
theorem AreTokens.tokenize_intercalate (h : AreTokens tokens) :
    tokenize (" ".intercalate tokens) = tokens := by
  have hchars : (" ".intercalate tokens).toList = [' '].intercalate (tokens.map String.toList) :=
    String.toList_intercalate
  rw [tokenize, hchars, Separated.tokenChars_intercalate h, List.map_map]
  simp [Function.comp_def]

end CommandGraph.Dump
