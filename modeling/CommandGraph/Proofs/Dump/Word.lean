import CommandGraph.Compile.Commands
import CommandGraph.Proofs.Dump.Token
import CommandGraph.Proofs.Text.Line
import Mathlib.Data.List.Pairwise

/-!
# Words

A word is a text that stays whole when a command is cut (`Clean`). It may have spaces in it, as long
as these are inside brackets or quotes. A command whose parts are made of words, except perhaps for
the last part, has these words as its tokens (`tokenize_joinParts`).
-/

namespace CommandGraph.Dump

/-! ## Joining -/

/-- Two lists of words are joined with one space between them. -/
theorem intercalate_append {words more : List String} (hne : words ≠ []) (hmore : more ≠ []) :
    " ".intercalate (words ++ more) = " ".intercalate words ++ " " ++ " ".intercalate more := by
  induction words with
  | nil => exact absurd rfl hne
  | cons word words ih =>
    rw [List.cons_append, String.intercalate_cons_of_ne_nil (by simp [hmore])]
    cases words with
    | nil => simp
    | cons next words =>
      rw [ih (List.cons_ne_nil _ _), String.intercalate_cons_of_ne_nil (List.cons_ne_nil _ _)]
      simp only [String.append_assoc]

/-! ## Single words -/

/-- A text that is one token wherever it stands in a command. -/
structure Clean (text : String) : Prop where
  /-- There is something. -/
  ne_empty : text ≠ ""
  /-- There are no blanks at the ends. -/
  trimmed : Text.trim text = text
  /-- It is cut off from what follows, and nowhere else. -/
  whole : tokenize (text ++ " x") = [text, "x"]

instance (text : String) : Decidable (Clean text) :=
  decidable_of_iff (text ≠ "" ∧ Text.trim text = text ∧ tokenize (text ++ " x") = [text, "x"])
    ⟨fun h => ⟨h.1, h.2.1, h.2.2⟩, fun h => ⟨h.1, h.2, h.3⟩⟩

namespace Clean

variable {text : String} (h : Clean text)

include h

/-- The word and what follows it are separate tokens. -/
theorem separated : Separated [text.toList, ['x']] := by
  have htokens := areTokens_tokenChars (text ++ " x").toList
  have hwhole := h.whole
  unfold tokenize at hwhole
  rw [hwhole] at htokens
  simpa [AreTokens] using htokens

/-- There is no cut inside the word. -/
theorem uncut : Nesting.Uncut {} text.toList :=
  h.separated.uncut _ List.mem_cons_self

/-- All brackets and quotes of the word are closed at its end. -/
theorem closed : (Nesting.after text.toList).Closed :=
  (List.pairwise_cons.1 h.separated.closed).1 _ List.mem_cons_self

theorem toList_ne_nil : text.toList ≠ [] :=
  h.separated.ne_nil _ List.mem_cons_self

end Clean

/-! ## Texts of words -/

/-- One or more clean words, joined by spaces; their number may be fixed. -/
def Words (count : Option Nat) (text : String) : Prop :=
  ∃ words : List String, words ≠ [] ∧ (∀ word ∈ words, Clean word) ∧
    (∀ n ∈ count, words.length = n) ∧ " ".intercalate words = text

/-- Clean words are tokens, in whatever order they stand. -/
theorem areTokens_of_clean {words : List String} (h : ∀ word ∈ words, Clean word) :
    AreTokens words where
  ne_nil := List.forall_mem_map.2 fun word hword => (h word hword).toList_ne_nil
  uncut := List.forall_mem_map.2 fun word hword => (h word hword).uncut
  closed := List.pairwise_map.2 <| List.pairwise_of_forall_mem_list fun word hword _ _ =>
    (h word hword).closed

@[simp]
theorem tokenize_empty : tokenize "" = [] := by
  simp [tokenize, tokenChars, segments]

/-- The words of a text are its tokens. -/
theorem words_iff {count : Option Nat} {text : String} : Words count text ↔
    tokenize text ≠ [] ∧ (∀ word ∈ tokenize text, Clean word) ∧
      (∀ n ∈ count, (tokenize text).length = n) ∧ " ".intercalate (tokenize text) = text := by
  refine ⟨?_, fun h => ⟨_, h⟩⟩
  rintro ⟨words, hne, hclean, hcount, rfl⟩
  rw [(areTokens_of_clean hclean).tokenize_intercalate]
  exact ⟨hne, hclean, hcount, rfl⟩

instance (count : Option Nat) (text : String) : Decidable (Words count text) :=
  decidable_of_iff _ words_iff.symm

/-- A clean word is a text of one word. -/
theorem Clean.words {word : String} (h : Clean word) : Words (some 1) word :=
  ⟨[word], List.cons_ne_nil _ _, by simpa using h, by simp, by simp⟩

/-- A clean word is its own only token. -/
theorem Clean.tokenize_eq {word : String} (h : Clean word) : tokenize word = [word] := by
  simpa using (areTokens_of_clean (List.forall_mem_singleton.2 h)).tokenize_intercalate

namespace Words

variable {count : Option Nat} {text : String}

/-- The number of the words may be forgotten. -/
theorem any (h : Words count text) : Words none text := by
  obtain ⟨words, hne, hclean, -, htext⟩ := h
  exact ⟨words, hne, hclean, by simp, htext⟩

theorem tokenize_ne_nil (h : Words count text) : tokenize text ≠ [] :=
  (words_iff.1 h).1

/-- A text has as many tokens as it has words. -/
theorem length_tokenize {n : Nat} (h : Words (some n) text) : (tokenize text).length = n :=
  (words_iff.1 h).2.2.1 n rfl

/-- A text is joined from its tokens again. -/
theorem intercalate_tokenize (h : Words count text) : " ".intercalate (tokenize text) = text :=
  (words_iff.1 h).2.2.2

/-- A text of words has no blanks around it. -/
theorem trim_eq (h : Words count text) : Text.trim text = text := by
  obtain ⟨words, -, hclean, -, rfl⟩ := h
  exact Text.trim_intercalate fun word hword =>
    ⟨(hclean word hword).ne_empty, (hclean word hword).trimmed⟩

/-- A text of words is not left out of a command. -/
theorem not_blank (h : Words count text) : Text.isBlankText text = false := by
  rw [← Bool.not_eq_true, ← Text.trim_eq_empty_iff, h.trim_eq]
  rintro rfl
  exact h.tokenize_ne_nil tokenize_empty

end Words

/-- In front of any text, clean words stay as they are, and do not change how the text is cut. -/
theorem tokenize_intercalate_concat {words : List String} (h : ∀ word ∈ words, Clean word)
    (rest : String) : tokenize (" ".intercalate (words ++ [rest])) = words ++ tokenize rest := by
  have hwords : ∀ word ∈ words.map String.toList,
      Nesting.Uncut {} word ∧ (Nesting.after word).Closed :=
    List.forall_mem_map.2 fun word hword => ⟨(h word hword).uncut, (h word hword).closed⟩
  -- Only empty pieces are dropped, and no word is one.
  have hkept : (words.map String.toList).filter (!·.isEmpty) = words.map String.toList :=
    List.filter_eq_self.2 (List.forall_mem_map.2 fun word hword => by
      simpa using (h word hword).ne_empty)
  rw [tokenize, String.toList_intercalate, List.map_append, tokenChars, List.map_singleton]
  rw [show " ".toList = [' '] from rfl, segments_intercalate_concat hwords, List.filter_append,
    hkept, List.map_append, List.map_map]
  simp [tokenize, tokenChars, Function.comp_def]

/-! ## Lines made of words -/

section Texts

variable {texts : List String} (h : ∀ text ∈ texts, Words none text)

include h

/-- Texts of words may be joined word by word. -/
theorem intercalate_flatMap_tokenize (rest : String) :
    " ".intercalate (texts.flatMap tokenize ++ [rest]) = " ".intercalate (texts ++ [rest]) := by
  induction texts with
  | nil => rfl
  | cons text texts ih =>
    obtain ⟨htext, htexts⟩ := List.forall_mem_cons.1 h
    rw [List.flatMap_cons, List.append_assoc, intercalate_append htext.tokenize_ne_nil (by simp),
      htext.intercalate_tokenize, ih htexts, List.cons_append,
      String.intercalate_cons_of_ne_nil (by simp)]

/-- The same holds for texts of words. -/
theorem tokenize_intercalate_texts (rest : String) :
    tokenize (" ".intercalate (texts ++ [rest])) = texts.flatMap tokenize ++ tokenize rest := by
  rw [← intercalate_flatMap_tokenize h, tokenize_intercalate_concat]
  intro word hword
  obtain ⟨text, htext, hword⟩ := List.mem_flatMap.1 hword
  exact (words_iff.1 (h text htext)).2.1 word hword

/-- A command is cut into the words of its parts, where the last part may be any text. -/
theorem tokenize_joinParts (rest : String) :
    tokenize (Commands.joinParts (texts ++ [rest])) =
      texts.flatMap tokenize ++ tokenize (Text.trim rest) := by
  have hkept : texts.filter (!Text.isBlankText ·) = texts :=
    List.filter_eq_self.2 fun text htext => by rw [(h text htext).not_blank]; rfl
  have htrim : texts.map Text.trim = texts :=
    (List.map_congr_left fun text htext => (h text htext).trim_eq).trans (List.map_id _)
  rw [Commands.joinParts, List.filter_append, hkept, List.map_append, htrim]
  by_cases hrest : Text.isBlankText rest = true
  · rw [Text.trim_eq_empty_iff.2 hrest]
    -- With nothing behind them, the texts end with one of themselves.
    cases texts using List.reverseRecOn with
    | nil => simp [hrest]
    | append_singleton front text =>
      have hfront := fun text htext => h text (List.mem_append_left _ htext)
      simpa [hrest] using tokenize_intercalate_texts hfront text
  · have hsingle : ([rest].filter (!Text.isBlankText ·)).map Text.trim = [Text.trim rest] := by
      simp [hrest]
    rw [hsingle, tokenize_intercalate_texts h]

end Texts

end CommandGraph.Dump
