import CommandGraph.Text.Blank
import CommandGraph.Text.Line
import Mathlib.Data.List.Basic
import Mathlib.Data.List.Induction

/-!
# Lines and blanks

The lines of a text are the pieces between its line feeds, except that a carriage return may be
missing at the end of a line and an empty last piece is no line. Neither can be seen once the lines
are trimmed and blank ones are left out (`significant_lineChars`), so whoever reads a text in this
way may as well cut it at its line feeds.
-/

namespace CommandGraph.Text

variable {cs : List Char} {c : Char}

/-! ## Trimming -/

theorem dropBlanks_of_head (h : ∀ c ∈ cs.head?, isBlank c = false) : dropBlanks cs = cs := by
  cases cs with
  | nil => rfl
  | cons c cs => exact List.dropWhile_cons_of_neg (by simp [h c rfl])

/-- Dropping the blanks in front does not reach a character behind that is none. -/
theorem dropBlanks_concat (h : isBlank c = false) (cs : List Char) :
    dropBlanks (cs ++ [c]) = dropBlanks cs ++ [c] := by
  rw [dropBlanks, List.dropWhile_append]
  split
  next hnil =>
    have hempty : dropBlanks cs = [] := List.isEmpty_iff.1 hnil
    rw [hempty]
    exact List.dropWhile_cons_of_neg (by simp [h])
  next => rfl

/-- Without blanks at the ends nothing is trimmed. -/
theorem trimChars_eq_self (hfirst : ∀ c ∈ cs.head?, isBlank c = false)
    (hlast : ∀ c ∈ cs.getLast?, isBlank c = false) : trimChars cs = cs := by
  have hreverse : ∀ c ∈ cs.reverse.head?, isBlank c = false := by
    rwa [List.head?_reverse]
  rw [trimChars, dropBlanks_of_head hfirst, dropBlanks_of_head hreverse, List.reverse_reverse]

/-- A first character that is not blank stays the first. -/
theorem head?_trimChars_cons (h : isBlank c = false) (cs : List Char) :
    (trimChars (c :: cs)).head? = some c := by
  have hfront : dropBlanks (c :: cs) = c :: cs := dropBlanks_of_head (by simpa using h)
  rw [trimChars, hfront, List.reverse_cons, dropBlanks_concat h, List.reverse_append]
  rfl

/-- A blank at the end makes no difference. -/
theorem trimChars_concat (h : isBlank c = true) (cs : List Char) :
    trimChars (cs ++ [c]) = trimChars cs := by
  have hdrop : dropBlanks (cs ++ [c]) = [] ∧ dropBlanks cs = [] ∨
      dropBlanks (cs ++ [c]) = dropBlanks cs ++ [c] := by
    unfold dropBlanks
    rw [List.dropWhile_append]
    split
    next hnil => exact .inl ⟨by simp [h], List.isEmpty_iff.1 hnil⟩
    next => exact .inr rfl
  unfold trimChars
  rcases hdrop with ⟨hlong, hshort⟩ | hlong
  · rw [hlong, hshort]
  · rw [hlong, List.reverse_append]
    -- From behind, the blank is the first to go.
    have hstep : dropBlanks (c :: (dropBlanks cs).reverse) = dropBlanks (dropBlanks cs).reverse :=
      List.dropWhile_cons_of_pos h
    exact congrArg List.reverse hstep

theorem trimChars_sublist (cs : List Char) : (trimChars cs).Sublist cs := by
  rw [← List.reverse_sublist, trimChars, List.reverse_reverse]
  exact (List.dropWhile_sublist _).trans (List.reverse_sublist.2 (List.dropWhile_sublist _))

theorem head?_trimChars : ∀ c ∈ (trimChars cs).head?, isBlank c = false := by
  intro c hc
  -- Trimming behind leaves a front part of what trimming in front has left.
  have hfront : (trimChars cs) <+: dropBlanks cs := by
    have hsuffix := List.dropWhile_suffix isBlank (l := (dropBlanks cs).reverse)
    simpa [trimChars, dropBlanks] using List.reverse_prefix.2 hsuffix
  obtain ⟨rest, hrest⟩ := hfront
  cases htrim : trimChars cs with
  | nil => simp [htrim] at hc
  | cons d ds =>
    obtain rfl : d = c := by simpa [htrim] using hc
    rw [htrim, List.cons_append] at hrest
    exact isBlank_of_dropBlanks_eq_cons hrest.symm

theorem getLast?_trimChars : ∀ c ∈ (trimChars cs).getLast?, isBlank c = false := by
  intro c hc
  rw [trimChars, List.getLast?_reverse] at hc
  cases hdrop : dropBlanks (dropBlanks cs).reverse with
  | nil => simp [hdrop] at hc
  | cons d ds =>
    obtain rfl : d = c := by simpa [hdrop] using hc
    exact isBlank_of_dropBlanks_eq_cons hdrop

theorem trim_trim (s : String) : trim (trim s) = trim s := by
  rw [trim, trim, String.toList_ofList, trimChars_eq_self head?_trimChars getLast?_trimChars]

/-! ## Lines as pieces between line feeds -/

/-- The pieces of a text between its line feeds. -/
def pieces (s : String) : List String :=
  (s.toList.splitOn '\n').map String.ofList

/-- The lines that are not blank, trimmed. -/
def significant (lines : List (List Char)) : List (List Char) :=
  (lines.map trimChars).filter (!·.isEmpty)

theorem significant_cons (line : List Char) (lines : List (List Char)) :
    significant (line :: lines) =
      if trimChars line = [] then significant lines else trimChars line :: significant lines := by
  simp only [significant, List.map_cons, List.filter_cons, Bool.not_eq_true',
    List.isEmpty_eq_false_iff]
  split <;> simp_all

/-- Scanned lines are the pieces of a text: the first piece is the first line, up to a carriage
return that belongs to the line's end, and the others are significant alike. -/
structure LineScan.Splits (scan : LineScan) (piece : List Char) (others : List (List Char)) :
    Prop where
  /-- The first piece is the unfinished line. -/
  first : piece = scan.lines.headD [] ∨ piece = scan.lines.headD [] ++ ['\r']
  /-- The other pieces are the other lines. -/
  others : significant scan.lines.tail = significant others
  /-- Right before a line feed the first piece is empty. -/
  empty : scan.atBreak = true → piece = []

namespace LineScan.Splits

variable {scan : LineScan} {piece : List Char} {others : List (List Char)}

theorem significant_eq (h : scan.Splits piece others) :
    significant scan.lines = significant (piece :: others) := by
  have htrim : trimChars piece = trimChars (scan.lines.headD []) := by
    rcases h.first with heq | heq
    · rw [heq]
    · rw [heq, trimChars_concat (by decide)]
  rw [significant_cons, htrim, ← h.others]
  cases hlines : scan.lines with
  | nil => rfl
  | cons line rest => exact significant_cons line rest

theorem push_feed (h : scan.Splits piece others) :
    (scan.push '\n').Splits [] (piece :: others) where
  first := .inl rfl
  others := h.significant_eq
  empty _ := rfl

/-- A character that does not end the line is put in front of the first piece. -/
theorem push (h : scan.Splits piece others) (hc : c ≠ '\n') :
    (scan.push c).Splits (c :: piece) others := by
  rw [LineScan.push, if_neg hc]
  split
  next hreturn =>
    -- A return right before a line feed is the one that the line may be short of.
    obtain ⟨rfl, hbreak⟩ := hreturn
    obtain rfl := h.empty hbreak
    have hline : scan.lines.headD [] = [] := by simpa using h.first
    exact ⟨.inr (by rw [hline]; rfl), h.others, by simp⟩
  next =>
    obtain ⟨hfirst, hothers, -⟩ := h
    cases hlines : scan.lines with
    | nil =>
      rw [hlines] at hfirst hothers
      exact ⟨by simpa using hfirst, hothers, by simp⟩
    | cons line rest =>
      rw [hlines] at hfirst hothers
      exact ⟨by simpa using hfirst, hothers, by simp⟩

end LineScan.Splits

theorem exists_splits (cs : List Char) : ∃ piece others, cs.splitOn '\n' = piece :: others ∧
    (cs.foldr LineScan.push {}).Splits piece others := by
  induction cs with
  | nil => exact ⟨[], [], List.splitOn_nil _, .inl rfl, rfl, by simp⟩
  | cons c cs ih =>
    obtain ⟨piece, others, heq, hsplits⟩ := ih
    rw [List.splitOn_cons_eq_if_modifyHead, heq, List.foldr_cons]
    by_cases hc : c = '\n'
    · subst hc
      exact ⟨[], piece :: others, rfl, hsplits.push_feed⟩
    · exact ⟨c :: piece, others, by simp [hc], hsplits.push hc⟩

/-- Cutting a text at its line feeds gives the significant lines. -/
theorem significant_lineChars (cs : List Char) :
    significant (lineChars cs) = significant (cs.splitOn '\n') := by
  obtain ⟨piece, others, heq, hsplits⟩ := exists_splits cs
  rw [heq, ← hsplits.significant_eq]
  rfl

theorem map_trim_lines (s : String) :
    ((lines s).map trim).filter (!·.isEmpty) = ((pieces s).map trim).filter (!·.isEmpty) := by
  have hmap : ∀ lines : List (List Char),
      ((lines.map String.ofList).map trim).filter (!·.isEmpty) =
        (significant lines).map String.ofList := by
    intro lines
    simp only [significant, List.map_map, List.filter_map, Function.comp_def, trim,
      String.toList_ofList]
    congr 2
    ext line
    rw [Bool.eq_iff_iff]
    simp
  rw [lines, pieces, hmap, hmap, significant_lineChars]

/-! ## Joined texts -/

theorem prefix_intercalate_cons {α : Type} (sep first : List α) (rest : List (List α)) :
    first <+: sep.intercalate (first :: rest) := by
  cases rest with
  | nil => simp
  | cons next rest =>
    rw [List.intercalate_cons_cons, List.append_assoc]
    exact List.prefix_append _ _

theorem suffix_intercalate_concat {α : Type} (sep last : List α) (front : List (List α)) :
    last <:+ sep.intercalate (front ++ [last]) := by
  induction front with
  | nil => simp
  | cons piece front ih =>
    rw [List.cons_append, List.intercalate_cons_of_ne_nil (by simp)]
    exact ih.trans (List.suffix_append _ _)

/-- Joining texts without blanks at their ends gives a text without blanks at its ends. -/
theorem trim_intercalate {sep : String} {texts : List String}
    (h : ∀ text ∈ texts, text ≠ "" ∧ trim text = text) :
    trim (sep.intercalate texts) = sep.intercalate texts := by
  have hends : ∀ text ∈ texts, text.toList ≠ [] ∧ (∀ c ∈ text.toList.head?, isBlank c = false) ∧
      ∀ c ∈ text.toList.getLast?, isBlank c = false := by
    intro text htext
    obtain ⟨hne, htrim⟩ := h text htext
    have hchars : trimChars text.toList = text.toList := by
      simpa [trim] using congrArg String.toList htrim
    refine ⟨by simpa using hne, ?_, ?_⟩
    · rw [← hchars]
      exact head?_trimChars
    · rw [← hchars]
      exact getLast?_trimChars
  have htrim : trimChars (sep.intercalate texts).toList = (sep.intercalate texts).toList := by
    rw [String.toList_intercalate]
    refine trimChars_eq_self ?_ ?_
    -- At either end stands one of the texts.
    · cases texts with
      | nil => simp
      | cons text rest =>
        obtain ⟨hne, hhead, -⟩ := hends text List.mem_cons_self
        obtain ⟨others, heq⟩ := prefix_intercalate_cons sep.toList text.toList
          (rest.map String.toList)
        rwa [List.map_cons, ← heq, List.head?_append_of_ne_nil _ hne]
    · cases texts using List.reverseRecOn with
      | nil => simp
      | append_singleton front text =>
        obtain ⟨hne, -, hlast⟩ := hends text (List.mem_append_right _ (List.mem_singleton_self _))
        obtain ⟨others, heq⟩ := suffix_intercalate_concat sep.toList text.toList
          (front.map String.toList)
        rwa [List.map_append, List.map_singleton, ← heq, List.getLast?_append_of_ne_nil _ hne]
  rw [trim, htrim, String.ofList_toList]

theorem splitOn_append_cons {α : Type} [BEq α] [LawfulBEq α] (x : α) (front back : List α) :
    (front ++ x :: back).splitOn x = front.splitOn x ++ back.splitOn x := by
  induction front with
  | nil => simp [List.splitOn_cons_eq_if_modifyHead]
  | cons y front ih =>
    rw [List.cons_append, List.splitOn_cons_eq_if_modifyHead,
      List.splitOn_cons_eq_if_modifyHead, ih]
    split
    · rfl
    · cases h : front.splitOn x with
      | nil => exact absurd h (List.splitOn_ne_nil x front)
      | cons piece others => rfl

/-- The pieces of texts that are joined by line feeds are those of the single texts. -/
theorem pieces_intercalate {texts : List String} (h : texts ≠ []) :
    pieces ("\n".intercalate texts) = texts.flatMap pieces := by
  induction texts with
  | nil => exact absurd rfl h
  | cons text rest ih =>
    cases rest with
    | nil => simp [pieces]
    | cons next rest =>
      rw [List.flatMap_cons, ← ih (List.cons_ne_nil _ _)]
      simp only [pieces, String.toList_intercalate, List.map_cons, List.intercalate_cons_cons]
      rw [List.append_assoc, show "\n".toList = ['\n'] from rfl, List.singleton_append,
        splitOn_append_cons, List.map_append]

/-- A text on one line is a single piece. -/
theorem pieces_of_notMem {s : String} (h : '\n' ∉ s.toList) : pieces s = [s] := by
  have hsplit : (['\n'].intercalate [s.toList]).splitOn '\n' = [s.toList] :=
    List.splitOn_intercalate '\n' (by simpa using h) (by simp)
  rw [List.intercalate_singleton] at hsplit
  rw [pieces, hsplit, List.map_singleton, String.ofList_toList]

end CommandGraph.Text
