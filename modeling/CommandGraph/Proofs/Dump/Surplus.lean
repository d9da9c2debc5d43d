import CommandGraph.Proofs.Dump.Cut
import Mathlib.Data.List.Basic

/-!
# Surplus closing brackets

A line may close more brackets than it has opened. From there on it stays whole, but only until as
many have been opened again: the next space is a cut like any other (`reopened_line_cut`). What
follows is the end of the last token exactly if there is no such space in it
(`last_token_of_surplus`). A surplus of `Int32.size` brackets is none for the scanner, which counts
with 32 bits.
-/

namespace CommandGraph.Dump

variable {cs p q w : List Char} {c : Char} {i : Nat}

/-! ## Spaces at the end of tokens -/

theorem eq_of_openQuote? {quote : Char} (h : openQuote? cs = some quote) :
    quote = '"' ∨ quote = '\'' := by
  induction cs using List.reverseRecOn with
  | nil => cases h
  | append_singleton cs c ih =>
    rw [openQuote?_concat] at h
    cases hquote : openQuote? cs with
    | none =>
      simp only [hquote] at h
      split at h
      · next hc => exact Option.some.inj h ▸ hc
      · cases h
    | some q =>
      simp only [hquote] at h
      split at h
      · cases h
      · exact ih (hquote.trans h)

/-- A space closes nothing. -/
theorem closed_of_closed_after_space (h : (Nesting.after (cs ++ [' '])).Closed) :
    (Nesting.after cs).Closed := by
  have hdepth : bracketDepth (cs ++ [' ']) = bracketDepth cs := by simp [bracketDepth_concat]
  rw [Nesting.closed_after_iff, hdepth, openQuote?_concat] at h
  rw [Nesting.closed_after_iff]
  cases hquote : openQuote? cs with
  | none => exact ⟨rfl, h.2⟩
  | some quote =>
    have hne : ' ' ≠ quote := by rcases eq_of_openQuote? hquote with rfl | rfl <;> decide
    simp [hquote, hne] at h

/-- Where nothing is open behind a line, nothing is open behind any of its tokens. -/
theorem closed_of_mem_tokenChars (h : (Nesting.after p).Closed) {token : List Char}
    (htoken : token ∈ tokenChars p) : (Nesting.after token).Closed := by
  -- A token more at the end shows it: nothing is open behind a token that another one follows.
  have hpairs := (separated_tokenChars (p ++ ' ' :: ['x'])).closed
  rw [tokenChars_append_cut h] at hpairs
  exact (List.pairwise_append.1 hpairs).2.2 token htoken ['x'] (by decide)

theorem eq_space_of_tokenChars_eq_nil (h : tokenChars cs = []) (hc : c ∈ cs) : c = ' ' := by
  have hnone := flatten_tokenChars_eq_withoutCuts cs
  rw [h, List.flatten_nil, withoutCuts, eq_comm, List.map_eq_nil_iff,
    List.filter_eq_nil_iff] at hnone
  obtain ⟨i, hi⟩ := List.mem_iff_getElem?.1 hc
  have hcut : IsCut cs i := by simpa using hnone (c, i) (List.mem_zipIdx_iff_getElem?.2 hi)
  exact Option.some.inj (hi.symm.trans hcut.1)

/-- A token in front of a cut does not end with a space. -/
theorem getLast?_ne_space (h : (Nesting.after p).Closed) {token : List Char}
    (htoken : token ∈ tokenChars p) : token.getLast? ≠ some ' ' := by
  intro hlast
  obtain ⟨front, rfl⟩ := List.getLast?_eq_some_iff.1 hlast
  have hclosed := closed_of_closed_after_space (closed_of_mem_tokenChars h htoken)
  -- So the space would be a cut of the token, which has none.
  have huncut : (Nesting.after []).Uncut (front ++ [' ']) :=
    (separated_tokenChars p).uncut _ htoken
  exact uncut_after_iff.1 huncut front.length (Nat.zero_le _)
    (isCut_append_length.2 ⟨rfl, hclosed⟩)

/-! ## The last token -/

/-- A line to which a stretch without cuts is added has it at the end of its last token. -/
theorem exists_last_of_uncut (h : (Nesting.after p).Uncut w) (hne : w ≠ []) :
    ∃ front last, tokenChars (p ++ w) = front ++ [last ++ w] := by
  obtain ⟨front, last, -, happend⟩ := exists_segments_append_of_uncut h
  refine ⟨front.filter (!·.isEmpty), last, ?_⟩
  rw [tokenChars, happend, List.filter_append, List.filter_cons_of_pos (by simp [hne])]
  rfl

theorem length_flatten_tokenChars_le (cs : List Char) :
    (tokenChars cs).flatten.length ≤ cs.length := by
  rw [flatten_tokenChars_eq_withoutCuts, withoutCuts, List.length_map]
  exact Nat.le_trans (List.length_filter_le ..) (Nat.le_of_eq List.length_zipIdx)

/-- There is no cut in what ends the last token. -/
theorem not_isCut_of_last {front : List (List Char)} {rest : List Char}
    (h : tokenChars (p ++ q) = front ++ [rest ++ q]) (hle : p.length ≤ i) : ¬ IsCut (p ++ q) i := by
  intro hcut
  obtain ⟨hcs, hclosed⟩ := hcut.eq_append
  have hlt := hcut.lt_length
  generalize (p ++ q).take i = a at hcs hclosed
  generalize hb : (p ++ q).drop (i + 1) = b at hcs
  have hshort : b.length < q.length := by
    rw [← hb, List.length_drop, List.length_append]
    rw [List.length_append] at hlt
    omega
  rw [hcs, tokenChars_append_cut hclosed] at h
  rcases List.eq_nil_or_concat' (tokenChars b) with hnil | ⟨front', last, hconcat⟩
  · -- Behind the cut there is nothing but spaces, so the last token would end with one.
    rw [hnil, List.append_nil] at h
    have hmem : rest ++ q ∈ tokenChars a := h ▸ List.mem_append_right _ (List.mem_singleton_self _)
    refine getLast?_ne_space hclosed hmem ?_
    have hne : q ≠ [] := List.ne_nil_of_length_pos (by omega)
    rw [List.getLast?_append_of_ne_nil _ hne, ← List.getLast?_append_of_ne_nil p hne, hcs,
      List.getLast?_append_of_ne_nil _ (List.cons_ne_nil _ _), List.getLast?_cons]
    cases hlast : b.getLast? with
    | none => rfl
    | some c =>
      exact congrArg some (eq_space_of_tokenChars_eq_nil hnil (List.mem_of_getLast? hlast))
  · -- The last token lies behind the cut, where it has no room for `q`.
    have hlast : last = rest ++ q := by
      rw [hconcat, ← List.append_assoc] at h
      exact List.singleton_inj.1 (List.append_inj' h rfl).2
    have hlength := length_flatten_tokenChars_le b
    rw [hconcat, hlast] at hlength
    simp only [List.flatten_append, List.flatten_singleton, List.length_append] at hlength
    omega

/-- Behind a line that is not made of spaces alone, the last token ends with all that follows
exactly if there is no cut in it. -/
theorem exists_last_iff (hc : c ∈ p) (hne : c ≠ ' ') :
    (∃ front rest, tokenChars (p ++ q) = front ++ [rest ++ q]) ↔
      ∀ i, p.length ≤ i → ¬ IsCut (p ++ q) i := by
  constructor
  · rintro ⟨front, rest, htokens⟩ i hle
    exact not_isCut_of_last htokens hle
  · intro hnone
    by_cases hq : q = []
    · -- Nothing follows, and `p` has a last token since a character of it is left.
      subst hq
      rcases List.eq_nil_or_concat' (tokenChars p) with hnil | ⟨front, last, htokens⟩
      · exact absurd (eq_space_of_tokenChars_eq_nil hnil hc) hne
      · exact ⟨front, last, by rw [List.append_nil, List.append_nil, htokens]⟩
    · exact exists_last_of_uncut (uncut_after_iff.2 hnone) hq

/-- A line that closes more brackets than it opens has a closing bracket. -/
theorem exists_mem_of_surplus (h : openings p < closings p) : ∃ c ∈ p, c ≠ ' ' := by
  obtain ⟨i, -, hi⟩ := List.countP_pos_iff.1 (Nat.zero_lt_of_lt h)
  obtain ⟨c, hc, hclosing⟩ := (Option.any_eq_true ..).1 (Bool.and_eq_true_iff.1 hi).2
  refine ⟨c, List.mem_of_getElem? hc, ?_⟩
  rintro rfl
  exact absurd hclosing (by decide)

theorem exists_last_tokenize_iff (p q : String) :
    (∃ front rest, tokenize (p ++ q) = front ++ [rest ++ q]) ↔
      ∃ front rest, tokenChars (p.toList ++ q.toList) = front ++ [rest ++ q.toList] := by
  constructor
  · rintro ⟨front, rest, h⟩
    refine ⟨front.map String.toList, rest.toList, ?_⟩
    rw [← String.toList_append, ← map_toList_tokenize, h]
    simp
  · rintro ⟨front, rest, h⟩
    refine ⟨front.map String.ofList, String.ofList rest, ?_⟩
    rw [tokenize, String.toList_append, h]
    simp

/-- If more brackets are closed than opened in `p`, the last token of `p ++ q` ends with `q` exactly
if `q` has no cut, that is, no space outside quotes at depth zero. So it does if the surplus of
closing brackets lasts to the end and stays below `Int32.size`. -/
theorem last_token_of_surplus (p q : String) (h : openings p.toList < closings p.toList) :
    ((∃ front rest, tokenize (p ++ q) = front ++ [rest ++ q]) ↔
      ∀ i, p.length ≤ i → ¬ IsCut (p ++ q).toList i) ∧
    ((∀ part, part <+: q.toList → openings (p.toList ++ part) < closings (p.toList ++ part) ∧
        closings (p.toList ++ part) < openings (p.toList ++ part) + Int32.size) →
      ∃ front rest, tokenize (p ++ q) = front ++ [rest ++ q]) := by
  obtain ⟨c, hc, hne⟩ := exists_mem_of_surplus h
  have hiff : (∃ front rest, tokenize (p ++ q) = front ++ [rest ++ q]) ↔
      ∀ i, p.length ≤ i → ¬ IsCut (p ++ q).toList i := by
    rw [exists_last_tokenize_iff, exists_last_iff hc hne, String.toList_append,
      String.length_toList]
  refine ⟨hiff, fun hsurplus => hiff.2 fun i hle hcut => ?_⟩
  -- In front of a cut there would be no surplus.
  have hprefix := hsurplus _ (List.take_prefix (i - p.length) q.toList)
  rw [String.toList_append] at hcut
  have htake := bracketDepth_eq_zero_iff.1 hcut.2.2
  rw [List.take_append, List.take_of_length_le (by rwa [String.length_toList]),
    String.length_toList] at htake
  unfold Int32.size at htake hprefix
  omega

/-- The surplus lasts to the end of the line: one bracket is opened again, but those between quotes
do not count. -/
theorem last_token_of_surplus_quoted :
    let p := "a])"
    let q := " [x \"((\" y"
    openings p.toList < closings p.toList ∧
      (∀ part, part <+: q.toList → openings (p.toList ++ part) < closings (p.toList ++ part) ∧
        closings (p.toList ++ part) < openings (p.toList ++ part) + Int32.size) ∧
      ∃ front rest, tokenize (p ++ q) = front ++ [rest ++ q] := by
  intro p q
  have h : openings p.toList < closings p.toList := by decide +kernel
  have hall : ∀ n ≤ 10,
      openings (p.toList ++ q.toList.take n) < closings (p.toList ++ q.toList.take n) ∧
        closings (p.toList ++ q.toList.take n) <
          openings (p.toList ++ q.toList.take n) + Int32.size := by
    decide +kernel
  have hsurplus : ∀ part, part <+: q.toList →
      openings (p.toList ++ part) < closings (p.toList ++ part) ∧
        closings (p.toList ++ part) < openings (p.toList ++ part) + Int32.size := by
    intro part hpart
    rw [List.prefix_iff_eq_take.1 hpart]
    exact hall part.length (Nat.le_trans hpart.length_le (by decide +kernel))
  exact ⟨h, hsurplus, (last_token_of_surplus p q h).2 hsurplus⟩

/-- Behind surplus closing brackets a line is cut again as soon as the same number of brackets has
been opened. -/
theorem reopened_line_cut :
    openings "a]".toList < closings "a]".toList ∧ tokenize ("a]" ++ " [b c") = ["a] [b", "c"] ∧
      ¬ ∃ front rest, tokenize ("a]" ++ " [b c") = front ++ [rest ++ " [b c"] := by
  have htokens : tokenize ("a]" ++ " [b c") = ["a] [b"] ++ ["c"] := by decide +kernel
  refine ⟨by decide +kernel, htokens, ?_⟩
  rintro ⟨front, rest, h⟩
  have hlast := List.singleton_inj.1 (List.append_inj' (htokens.symm.trans h) rfl).2
  have hlength := congrArg String.length hlast
  rw [String.length_append] at hlength
  have hq : " [b c".length = 5 := by decide +kernel
  have hc : "c".length = 1 := by decide +kernel
  omega

end CommandGraph.Dump
