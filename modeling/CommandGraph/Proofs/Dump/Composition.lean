import CommandGraph.Proofs.Dump.Line
import Mathlib.Logic.Relation

/-!
# Dumps put together

The only thing that one part of a dump can tell the next is the section that it has left open. So
the commands of two dumps with a line feed between them are the commands of the first and those of
the second, except that commands in front of the second dump's own sections stand in the section
that the first has opened last (`parse_append`).

How the lines are laid out has no influence at all. `LayoutStep` lists what may be changed: blank
lines, comments that open no section, blanks around lines, and the kind of line ends. Dumps that can
be turned into each other by such steps have the same commands (`parse_eq_of_layout`).
-/

namespace CommandGraph

/-! ## Blanks around texts -/

namespace Text

variable {blanks cs : List Char}

theorem trimChars_blanks_append (h : ∀ c ∈ blanks, isBlank c = true) (cs : List Char) :
    trimChars (blanks ++ cs) = trimChars cs := by
  unfold trimChars dropBlanks
  rw [List.dropWhile_append_of_pos h]

theorem trimChars_append_blanks (h : ∀ c ∈ blanks, isBlank c = true) (cs : List Char) :
    trimChars (cs ++ blanks) = trimChars cs := by
  induction blanks generalizing cs with
  | nil => rw [List.append_nil]
  | cons c blanks ih =>
    obtain ⟨hc, hblanks⟩ := List.forall_mem_cons.1 h
    rw [List.append_cons, ih hblanks, trimChars_concat hc]

/-- What is put in front of a text without ending a line goes to its first piece. -/
theorem exists_splitOn_append_left {x : Char} {front : List Char} (h : x ∉ front) (cs : List Char) :
    ∃ first rest, cs.splitOn x = first :: rest ∧
      (front ++ cs).splitOn x = (front ++ first) :: rest := by
  induction front with
  | nil =>
    obtain ⟨first, rest, hsplit⟩ := List.exists_cons_of_ne_nil (List.splitOn_ne_nil x cs)
    exact ⟨first, rest, hsplit, hsplit⟩
  | cons c front ih =>
    obtain ⟨hc, hfront⟩ := not_or.1 (mt List.mem_cons.2 h)
    obtain ⟨first, rest, hsplit, happend⟩ := ih hfront
    refine ⟨first, rest, hsplit, ?_⟩
    rw [List.cons_append, List.splitOn_cons_eq_if_modifyHead, happend]
    simp [Ne.symm hc]

/-- What is put behind a text without ending a line goes to its last piece. -/
theorem exists_splitOn_append_right {x : Char} {back : List Char} (h : x ∉ back) (cs : List Char) :
    ∃ front last, cs.splitOn x = front ++ [last] ∧
      (cs ++ back).splitOn x = front ++ [last ++ back] := by
  induction cs with
  | nil =>
    obtain ⟨first, rest, hsplit, happend⟩ := exists_splitOn_append_left h []
    rw [List.splitOn_nil, List.cons.injEq] at hsplit
    obtain ⟨rfl, rfl⟩ := hsplit
    exact ⟨[], [], List.splitOn_nil x, by simpa using happend⟩
  | cons c cs ih =>
    obtain ⟨front, last, hsplit, happend⟩ := ih
    rw [List.cons_append, List.splitOn_cons_eq_if_modifyHead, List.splitOn_cons_eq_if_modifyHead,
      hsplit, happend]
    split
    · exact ⟨[] :: front, last, rfl, rfl⟩
    · -- The character goes to the first piece, which may be the last one too.
      cases front with
      | nil => exact ⟨[], c :: last, rfl, rfl⟩
      | cons first front => exact ⟨(c :: first) :: front, last, rfl, rfl⟩

variable {s blank : String}

theorem map_trim_pieces_blank_append (h : isBlankText blank = true) (hline : '\n' ∉ blank.toList)
    (s : String) : (pieces (blank ++ s)).map trim = (pieces s).map trim := by
  obtain ⟨first, rest, hsplit, happend⟩ := exists_splitOn_append_left hline s.toList
  have htrim := trimChars_blanks_append (List.all_eq_true.1 h) first
  simp only [pieces, String.toList_append, hsplit, happend, List.map_cons, trim,
    String.toList_ofList, htrim]

theorem map_trim_pieces_append_blank (h : isBlankText blank = true) (hline : '\n' ∉ blank.toList)
    (s : String) : (pieces (s ++ blank)).map trim = (pieces s).map trim := by
  obtain ⟨front, last, hsplit, happend⟩ := exists_splitOn_append_right hline s.toList
  have htrim := trimChars_append_blanks (List.all_eq_true.1 h) last
  simp only [pieces, String.toList_append, hsplit, happend, List.map_append, List.map_cons,
    List.map_nil, trim, String.toList_ofList, htrim]

end Text

namespace Dump

variable {place : Option Section} {line : String} {lines more : List String}

/-! ## Sections across dumps -/

/-- Whether a line is a command. -/
def isCommandLine (line : String) : Bool :=
  !((Text.trim line).isEmpty || isComment (Text.trim line))

/-- How many commands stand in front of the first line that opens a section. -/
def leadingCount (lines : List String) : Nat :=
  (lines.takeWhile fun line => (opened? line).isNone).countP isCommandLine

/-- The section that is opened last. -/
def lastOpened? (lines : List String) : Option Section :=
  (lines.filterMap opened?).getLast?

theorem commandsFrom_cons_eq : commandsFrom place (line :: lines) =
    (if isCommandLine line then [{ Command.parse (Text.trim line) with place }] else []) ++
      commandsFrom ((opened? line).or place) lines := by
  rw [commandsFrom_cons, isCommandLine]
  cases (Text.trim line).isEmpty || isComment (Text.trim line) <;> rfl

theorem isCommandLine_of_opened? {opened : Section} (h : opened? line = some opened) :
    isCommandLine line = false := by
  unfold opened? at h
  split at h
  next hcomment => simp [isCommandLine, hcomment]
  next => cases h

/-- The section that is open before some lines is that of the commands in front of the first line
that opens another, and of no others. -/
theorem commandsFrom_eq_relabel (place : Option Section) (lines : List String) :
    commandsFrom place lines =
      ((commandsFrom none lines).take (leadingCount lines)).map (fun c => { c with place }) ++
        (commandsFrom none lines).drop (leadingCount lines) := by
  induction lines with
  | nil => rfl
  | cons line lines ih =>
    rw [commandsFrom_cons_eq, commandsFrom_cons_eq, leadingCount]
    cases hopened : opened? line with
    | some opened =>
      -- From here on both read with the section that the line opens.
      simp [isCommandLine_of_opened? hopened, hopened]
    | none =>
      cases hcommand : isCommandLine line with
      | true => simpa [hopened, hcommand, leadingCount] using ih
      | false => simpa [hopened, hcommand, leadingCount] using ih

theorem placeAfter_eq_lastOpened? (place : Option Section) (lines : List String) :
    placeAfter place lines = (lastOpened? lines).or place := by
  induction lines generalizing place with
  | nil => rfl
  | cons line lines ih =>
    have hstep : placeAfter place (line :: lines) = placeAfter ((opened? line).or place) lines :=
      List.foldl_cons ..
    rw [hstep, ih, lastOpened?, lastOpened?]
    cases hopened : opened? line with
    | none => simp [hopened]
    | some opened =>
      rw [List.filterMap_cons_some hopened, List.getLast?_cons]
      cases (lines.filterMap opened?).getLast? <;> rfl

/-- Only what is left of the lines after trimming opens sections. -/
theorem placeAfter_map_trim : placeAfter place ((lines.map Text.trim).filter (!·.isEmpty)) =
    placeAfter place lines := by
  have hopened : ((lines.map Text.trim).filter (!·.isEmpty)).filterMap opened? =
      lines.filterMap opened? := by
    rw [List.filterMap_filter, List.filterMap_map]
    refine List.filterMap_congr fun line _ => ?_
    by_cases hempty : Text.trim line = ""
    · simp [hempty, opened?, isComment]
    · simp [hempty, opened?, Text.trim_trim]
  rw [placeAfter_eq_lastOpened?, placeAfter_eq_lastOpened?, lastOpened?, hopened, lastOpened?]

theorem commandsFrom_pieces (place : Option Section) (text : String) :
    commandsFrom place (Text.pieces text) = commandsFrom place (Text.lines text) := by
  rw [← commandsFrom_map_trim, ← Text.map_trim_lines, commandsFrom_map_trim]

theorem placeAfter_pieces (place : Option Section) (text : String) :
    placeAfter place (Text.pieces text) = placeAfter place (Text.lines text) := by
  rw [← placeAfter_map_trim, ← Text.map_trim_lines, placeAfter_map_trim]

theorem parse_intercalate (texts : List String) :
    parse ("\n".intercalate texts) = commandsFrom none (texts.flatMap Text.pieces) :=
  commandsFrom_lines_intercalate texts

/-- The commands of two dumps, one below the other. -/
theorem parse_append (a b : String) :
    parse (a ++ "\n" ++ b) = parse a ++
      ((parse b).take (leadingCount (Text.lines b))).map
        (fun c => { c with place := lastOpened? (Text.lines a) }) ++
      (parse b).drop (leadingCount (Text.lines b)) := by
  calc parse (a ++ "\n" ++ b)
      = commandsFrom none (Text.pieces a ++ Text.pieces b) := by
        simpa using parse_intercalate [a, b]
    _ = parse a ++ commandsFrom (lastOpened? (Text.lines a)) (Text.lines b) := by
        rw [commandsFrom_append, commandsFrom_pieces, commandsFrom_pieces, placeAfter_pieces,
          placeAfter_eq_lastOpened?, Option.or_none, parse]
    _ = _ := by
        rw [commandsFrom_eq_relabel, List.append_assoc]
        rfl

/-! ## Layout -/

/-- A change in how the lines of a dump are laid out. -/
inductive LayoutStep : String → String → Prop
  /-- A blank line is put in. -/
  | blankLine (above below : List String) {line : String} (hline : '\n' ∉ line.toList)
      (hblank : Text.isBlankText line = true) :
      LayoutStep ("\n".intercalate (above ++ below)) ("\n".intercalate (above ++ line :: below))
  /-- A comment is put in that opens no section. -/
  | comment (above below : List String) {line : String} (hline : '\n' ∉ line.toList)
      (hcomment : isComment (Text.trim line) = true)
      (hmarker : Section.ofMarker? (Text.trim line) = none) :
      LayoutStep ("\n".intercalate (above ++ below)) ("\n".intercalate (above ++ line :: below))
  /-- A line is indented. -/
  | indent (above below : List String) (line : String) {blanks : String}
      (hline : '\n' ∉ blanks.toList) (hblank : Text.isBlankText blanks = true) :
      LayoutStep ("\n".intercalate (above ++ line :: below))
        ("\n".intercalate (above ++ (blanks ++ line) :: below))
  /-- Blanks are put behind a line. -/
  | trail (above below : List String) (line : String) {blanks : String}
      (hline : '\n' ∉ blanks.toList) (hblank : Text.isBlankText blanks = true) :
      LayoutStep ("\n".intercalate (above ++ line :: below))
        ("\n".intercalate (above ++ (line ++ blanks) :: below))
  /-- A line feed becomes a carriage return with a line feed. -/
  | lineEnd (above below : String) : LayoutStep (above ++ "\n" ++ below) (above ++ "\r\n" ++ below)

/-- A line that is no command and opens no section makes no difference. -/
theorem parse_insert (above below : List String) (hline : '\n' ∉ line.toList)
    (hcommand : isCommandLine line = false) (hopened : opened? line = none) :
    parse ("\n".intercalate (above ++ line :: below)) =
      parse ("\n".intercalate (above ++ below)) := by
  rw [parse_intercalate, parse_intercalate, List.flatMap_append, List.flatMap_append,
    List.flatMap_cons, Text.pieces_of_notMem hline, List.singleton_append, commandsFrom_append,
    commandsFrom_append, commandsFrom_cons_eq, hcommand, hopened]
  rfl

/-- A text may be replaced by one with the same trimmed lines. -/
theorem parse_replace (above below : List String) {text text' : String}
    (h : (Text.pieces text).map Text.trim = (Text.pieces text').map Text.trim) :
    parse ("\n".intercalate (above ++ text :: below)) =
      parse ("\n".intercalate (above ++ text' :: below)) := by
  rw [parse_intercalate, parse_intercalate, ← commandsFrom_map_trim]
  simp only [List.flatMap_append, List.flatMap_cons, List.map_append, h]
  simp only [← List.map_append, commandsFrom_map_trim]

theorem LayoutStep.parse_eq {text text' : String} (h : LayoutStep text text') :
    parse text = parse text' := by
  cases h with
  | blankLine above below hline hblank =>
    have htrim := Text.trim_eq_empty_iff.2 hblank
    exact (parse_insert above below hline (by simp [isCommandLine, htrim])
      (by simp [opened?, htrim, isComment])).symm
  | comment above below hline hcomment hmarker =>
    exact (parse_insert above below hline (by simp [isCommandLine, hcomment])
      (by simp [opened?, hmarker])).symm
  | indent above below line hline hblank =>
    exact parse_replace above below (Text.map_trim_pieces_blank_append hblank hline line).symm
  | trail above below line hline hblank =>
    exact parse_replace above below (Text.map_trim_pieces_append_blank hblank hline line).symm
  | lineEnd above below =>
    -- The carriage return is a blank behind the last line above.
    have hblank : Text.isBlankText "\r" = true := by decide
    have htrim := Text.map_trim_pieces_append_blank hblank (by decide) above
    have hreplace := parse_replace [] [below] htrim.symm
    have hends : "\r" ++ "\n" = "\r\n" := by decide
    simpa [String.append_assoc, hends] using hreplace

/-- Dumps that differ in layout only have the same commands. -/
theorem parse_eq_of_layout {text text' : String} (h : Relation.EqvGen LayoutStep text text') :
    parse text = parse text' := by
  induction h with
  | rel text text' hstep => exact hstep.parse_eq
  | refl text => rfl
  | symm text text' _ ih => exact ih.symm
  | trans text text' text'' _ _ ih ih' => exact ih.trans ih'

/-- Reading a dump is compositional. The commands of one dump below another are those of the upper
one followed by those of the lower one, of which the commands in front of the first line that opens
a section stand in the section that the upper dump has opened last. Nothing else of the layout
counts: neither blank lines, nor comments that open no section, nor the blanks around lines, nor
the kind of line ends. -/
theorem parse_compositional (a b : String) :
    parse (a ++ "\n" ++ b) = parse a ++
      ((parse b).take (leadingCount (Text.lines b))).map
        (fun c => { c with place := lastOpened? (Text.lines a) }) ++
      (parse b).drop (leadingCount (Text.lines b)) ∧
    ∀ text text', Relation.EqvGen LayoutStep text text' → parse text = parse text' :=
  ⟨parse_append a b, fun _ _ => parse_eq_of_layout⟩

/-- The line feed that joins two dumps makes a line end of the carriage return in front of it, and
the first command below is one of the section above. -/
theorem parse_compositional_seam :
    let a := "# Setup\nsay one\r"
    let b := "  say two\n# IN CHAT\nsay three"
    let text := "say one" ++ "\n" ++ "say two"
    let text' := "\n".intercalate ["say one\r", "# two commands", "say two"]
    (parse (a ++ "\n" ++ b)).map (fun c => (c.raw, c.place)) =
        [("say one", some .setup), ("say two", some .setup), ("say three", some .chat)] ∧
      Relation.EqvGen LayoutStep text text' ∧ parse text = parse text' := by
  intro a b text text'
  obtain ⟨happend, hlayout⟩ := parse_compositional a b
  have hmarker : Section.ofMarker? (Text.trim "# two commands") = none := by decide +kernel
  have hcomment : LayoutStep ("\n".intercalate ["say one\r", "say two"]) text' :=
    .comment ["say one\r"] ["say two"] (by decide) (by decide) hmarker
  have hjoin : "\n".intercalate ["say one\r", "say two"] = "say one" ++ "\r\n" ++ "say two" := by
    decide
  rw [hjoin] at hcomment
  have hsame : Relation.EqvGen LayoutStep text text' :=
    .trans _ _ _ (.rel _ _ (.lineEnd "say one" "say two")) (.rel _ _ hcomment)
  have hparse := hlayout text text' hsame
  rw [happend]
  exact ⟨by decide +kernel, hsame, hparse⟩

end Dump

end CommandGraph
