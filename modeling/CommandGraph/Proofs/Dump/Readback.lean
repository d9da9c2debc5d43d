import CommandGraph.Proofs.Compile.Wording
import CommandGraph.Proofs.Dump.Line
import Mathlib.Data.List.Infix

/-!
# Reading compiled graphs back

A compiled graph is a dump, and reading it gives the commands that were written on the way. This
takes that no property has a line feed in it and that no command given by hand looks like a comment.
Then every event of the walk makes lines that are read as one command or none, behind the opening of
one section or none (`Dump.Reads`), and by induction over the events the whole dump is read as
`Compiler.parse_compile` says.

The section of a command is the one that was opened last. Anchors open sections, and so do the
comments of conditions, which show a text of the graph and may name a section by it. The comments of
loops name none, whatever their numbers are.
-/

namespace CommandGraph

open Text (OneLine)

/-! ## What happens in a walk -/

namespace Resolver

/-- Something that can happen in a walk. What has a text has that of a node that is there. -/
inductive Occurs (r : Resolver) : Event → Prop
  /-- Control comes to a node. -/
  | enter (id : NodeId) : Occurs r (.enter id)
  /-- A node writes its command. -/
  | command {id : NodeId} {node : Node} (hnode : r.graph.node? id = some node) :
      Occurs r (.command id (r.synthesize id))
  /-- A loop starts a round. -/
  | round (id : NodeId) (index total : Nat) : Occurs r (.round id index total)
  /-- A condition shows what it tests. -/
  | thenBranch {id : NodeId} {node : Node} (hnode : r.graph.node? id = some node) :
      Occurs r (.thenBranch id (node.propertyText "conditionType") (r.resolve id "Condition"))
  /-- A condition takes the other branch. -/
  | elseBranch (id : NodeId) : Occurs r (.elseBranch id)

variable {r : Resolver} {id : NodeId} {node : Node}

/-- What a node writes itself is its command. -/
theorem occurs_own (hnode : r.graph.node? node.id = some node) : ∀ e ∈ r.own node, r.Occurs e := by
  intro e he
  simp only [own] at he
  split at he
  · split at he
    · exact absurd he List.not_mem_nil
    · rw [List.mem_singleton.1 he]
      exact .command hnode
  · exact absurd he List.not_mem_nil

/-- What is written in front of a branch belongs to a condition. -/
theorem occurs_lead (hnode : r.graph.node? node.id = some node) :
    ∀ branch ∈ r.branches node, ∀ e ∈ branch.lead, r.Occurs e := by
  intro branch hbranch e he
  simp only [branches] at hbranch
  split at hbranch
  all_goals
    simp only [List.mem_append, List.mem_flatMap, Option.mem_toList,
      Option.map_eq_some_iff] at hbranch
  · obtain ⟨c, -, rfl⟩ := hbranch
    exact absurd he List.not_mem_nil
  -- Only a condition has something to say on its ways on.
  · rcases hbranch with ⟨c, -, rfl⟩ | ⟨c, -, rfl⟩
    · rw [List.mem_singleton.1 he]
      exact .thenBranch hnode
    · rw [List.mem_singleton.1 he]
      exact .elseBranch _
  · obtain ⟨pin, -, c, -, rfl⟩ := hbranch
    exact absurd he List.not_mem_nil
  · obtain ⟨c, -, rfl⟩ := hbranch
    exact absurd he List.not_mem_nil

/-- Rounds start and then do what the body does. -/
theorem occurs_rounds {body : List Event} (h : ∀ e ∈ body, r.Occurs e) :
    ∀ e ∈ r.rounds node body, r.Occurs e := by
  intro e he
  obtain ⟨i, -, he⟩ := List.mem_flatMap.1 he
  rcases List.mem_cons.1 he with rfl | he
  · exact .round _ _ _
  · exact h e he

/-- Branches bring in nothing else. -/
theorem occurs_walkBranches {walk : NodeId → List NodeId → List Event × List NodeId}
    (hwalk : ∀ id met, ∀ e ∈ (walk id met).1, r.Occurs e) {branches : List Branch}
    (hlead : ∀ branch ∈ branches, ∀ e ∈ branch.lead, r.Occurs e) (met : List NodeId) :
    ∀ e ∈ (walkBranches walk branches met).1, r.Occurs e := by
  induction branches generalizing met with
  | nil => simp [walkBranches]
  | cons branch rest ih =>
    obtain ⟨hfirst, hrest⟩ := List.forall_mem_cons.1 hlead
    simp only [walkBranches, List.forall_mem_append]
    exact ⟨⟨hfirst, hwalk _ _⟩, ih hrest _⟩

/-- Whatever is walked, all events can happen. -/
theorem occurs_walk (bound : Nat) (id : NodeId) (met : List NodeId) :
    ∀ e ∈ (r.walk bound id met).1, r.Occurs e := by
  -- The bound goes down along connections, in the body of a loop as in the branches.
  induction bound generalizing id met with
  | zero => simp [walk]
  | succ bound ih =>
    rw [walk]
    split
    next => simp
    next node hnode =>
      obtain rfl : node.id = id := (Graph.node?_eq_some hnode).2
      have hafter := occurs_walkBranches ih (occurs_lead hnode)
      split
      next hloop =>
        simp only [List.cons_append, List.forall_mem_cons, List.forall_mem_append]
        refine ⟨.enter _, occurs_rounds ?_, hafter _⟩
        split
        · simp
        · exact ih _ _
      next =>
        split
        · simp
        · simp only [List.cons_append, List.forall_mem_cons, List.forall_mem_append]
          exact ⟨.enter _, occurs_own hnode, hafter _⟩

/-- Whatever happens while a graph is compiled can happen in a walk. -/
theorem occurs_events (r : Resolver) : ∀ e ∈ r.events, r.Occurs e := by
  intro e he
  obtain ⟨entry, -, he⟩ := List.mem_flatMap.1 he
  exact occurs_walk _ _ _ e he

end Resolver

/-! ## Lines that hold one command at most -/

namespace Dump

/-- Lines are read as one command or none, behind the opening of one section or none. -/
structure Reads (lines : List String) (text? : Option String) (opened? : Option Section) :
    Prop where
  /-- The command stands in the section that is opened. -/
  commands : ∀ place, commandsFrom place lines =
    (text?.map fun text => { Command.parse text with place := opened?.or place }).toList
  /-- The section that is opened is left open. -/
  place : ∀ place, placeAfter place lines = opened?.or place

variable {line : String} {lines : List String}

theorem Reads.nil : Reads [] none none :=
  ⟨fun _ => rfl, fun _ => rfl⟩

/-- A comment is no command, and may open a section. -/
theorem Reads.comment (h : isComment (Text.trim line) = true) :
    Reads [line] none (Section.ofMarker? (Text.trim line)) where
  commands place := by simp [h, commandsFrom]
  place place := by simp [placeAfter, opened?, h]

/-- A line that is no comment is a command, unless it is blank. -/
theorem Reads.command (h : isComment (Text.trim line) = false) :
    Reads [line] ((some (Text.trim line)).filter (!·.isEmpty)) none where
  commands place := by
    by_cases hempty : Text.trim line = ""
    · simp [commandsFrom, hempty]
    · simp [commandsFrom, h, hempty, Option.filter_some]
  place place := by simp [placeAfter, opened?, h]

/-- A comment above lines opens a section for them. -/
theorem Reads.append {text? : Option String} {above opened? : Option Section} {more : List String}
    (h : Reads lines none above) (hmore : Reads more text? opened?) :
    Reads (lines ++ more) text? (opened?.or above) where
  commands place := by
    rw [commandsFrom_append, h.commands, h.place, hmore.commands]
    simp [Option.or_assoc]
  place place := by
    rw [placeAfter_append, h.place, hmore.place, Option.or_assoc]

end Dump

/-! ## What a walk writes -/

/-- The section that a node of an anchor type opens. -/
def Section.ofAnchor? : String → Option Section
  | "command_block" => some commandBlock
  | "chat_command" => some chat
  | _ => none

/-- The comment of an anchor is read as one, and opens the section of the anchor. -/
theorem Section.ofMarker?_anchorComment {tag comment : String}
    (h : Commands.anchorComment? tag = some comment) :
    Text.trim comment = comment ∧ Dump.isComment comment = true ∧ OneLine comment ∧
      Section.ofMarker? comment = Section.ofAnchor? tag := by
  rcases Commands.eq_of_anchorComment? h with ⟨rfl, rfl⟩ | ⟨rfl, rfl⟩ <;> decide

/-- Only anchors open sections. -/
theorem Section.ofAnchor?_eq_none {tag : String} (h : Commands.anchorComment? tag = none) :
    Section.ofAnchor? tag = none := by
  unfold Section.ofAnchor?
  split
  · exact absurd h (by decide)
  · exact absurd h (by decide)
  · rfl

namespace Resolver

/-- The node whose command an event writes. -/
def writer? (r : Resolver) : Event → Option Node
  | .command id _ => r.graph.node? id
  | _ => none

/-- The command that an event writes, trimmed, unless it is blank. -/
def written? (r : Resolver) (e : Event) : Option String :=
  ((r.writer? e).map fun node => Text.trim (r.commandText node)).filter (!·.isEmpty)

/-- The section that the anchor opens whose command an event writes. -/
def anchored? (r : Resolver) (e : Event) : Option Section :=
  (r.writer? e).bind fun node => Section.ofAnchor? node.tag

/-- The section that an event opens. Apart from anchors, the comment of a condition opens the one
that it names. -/
def opened? (r : Resolver) : Event → Option Section
  | .thenBranch id test condition =>
    (Event.thenBranch id test condition).line?.bind Section.ofMarker?
  | e => r.anchored? e

end Resolver

namespace Commands

/-- What begins with a keyword is not taken for a comment, and neither is nothing. -/
theorem Opens.not_comment {text : String} (h : text = "" ∨ Opens text) :
    Dump.isComment (Text.trim text) = false := by
  rcases h with rfl | ⟨c, cs, htext, hblank, hsign⟩
  · decide
  · rw [Dump.isComment, Text.trim, String.toList_ofList, htext, Text.head?_trimChars_cons hblank]
    simpa using hsign

end Commands

namespace Compiler

variable {g : Graph} {id : NodeId} {node : Node}

/-- What a node writes is read as its command, in the section that it opens if it is an anchor. -/
theorem reads_synthesize (h : g.Unbroken) (hnode : g.node? id = some node)
    (htext : Dump.isComment (Text.trim ((standard.resolver g).commandText node)) = false) :
    Dump.Reads (Text.pieces ((standard.resolver g).synthesize id))
      ((some (Text.trim ((standard.resolver g).commandText node))).filter (!·.isEmpty))
      (Section.ofAnchor? node.tag) := by
  have hpieces := Text.pieces_of_notMem (oneLine_commandText h hnode)
  cases hcomment : Commands.anchorComment? node.tag with
  | none =>
    rw [synthesize_of_plain hnode hcomment, hpieces, Section.ofAnchor?_eq_none hcomment]
    exact .command htext
  | some comment =>
    obtain ⟨htrim, hsign, hline, hmarker⟩ := Section.ofMarker?_anchorComment hcomment
    have habove := Dump.Reads.comment (htrim.symm ▸ hsign)
    rw [htrim, hmarker] at habove
    rw [synthesize_of_anchor hnode hcomment, Commands.anchored]
    split
    next hempty =>
      -- Without a command, the comment stands alone.
      rw [String.isEmpty_iff.1 hempty, Text.pieces_of_notMem hline]
      exact habove
    next =>
      have hjoined : Text.pieces (comment ++ "\n" ++ (standard.resolver g).commandText node) =
          [comment] ++ [(standard.resolver g).commandText node] := by
        change Text.pieces ("\n".intercalate [comment, _]) = _
        rw [Text.pieces_intercalate (List.cons_ne_nil _ _), List.flatMap_cons,
          List.flatMap_singleton, Text.pieces_of_notMem hline, hpieces]
      rw [hjoined]
      exact habove.append (.command htext)

end Compiler

/-! ## Comments of loops and conditions -/

namespace Text

/-- A text has all characters of its parts. -/
theorem mem_of_occursIn {part cs : List Char} (h : occursIn part cs = true) :
    ∀ c ∈ part, c ∈ cs := by
  induction cs with
  | nil =>
    obtain rfl : part = [] := List.isEmpty_iff.1 h
    simp
  | cons d cs ih =>
    rcases Bool.or_eq_true_iff.1 h with hfront | hlater
    · exact fun c hc => (List.isPrefixOf_iff_prefix.1 hfront).subset hc
    · exact fun c hc => List.mem_cons_of_mem d (ih hlater c hc)

/-- ASCII characters are lower-cased one by one. -/
theorem mem_lowerChars {before cs : List Char} (hascii : ∀ c ∈ cs, c.toNat < 0x80) {d : Char}
    (h : d ∈ lowerChars before cs) : ∃ c ∈ cs, c.toLower = d := by
  induction cs generalizing before with
  | nil => exact absurd h List.not_mem_nil
  | cons c cs ih =>
    obtain ⟨hc, hcs⟩ := List.forall_mem_cons.1 hascii
    -- The one letter whose lower case depends on its neighbours is not ASCII.
    have hsigma : c ≠ 'Σ' := by
      rintro rfl
      exact absurd hc (by decide)
    rw [lowerChars] at h
    simp only [if_neg hsigma, lowerChar, if_pos hc, List.singleton_append, List.mem_cons] at h
    rcases h with rfl | h
    · exact ⟨c, List.mem_cons_self, rfl⟩
    · obtain ⟨c', hmem, hlower⟩ := ih hcs h
      exact ⟨c', List.mem_cons_of_mem c hmem, hlower⟩

end Text

namespace Section

/-- Every mark has one of these letters in it. -/
def markLetters : List Char := ['c', 's', 'm']

/-- A character that neither has a part in marks nor ends a line. -/
def Harmless (c : Char) : Prop :=
  c.toNat < 0x80 ∧ c.toLower ∉ '\n' :: markLetters

instance (c : Char) : Decidable (Harmless c) :=
  inferInstanceAs (Decidable (_ ∧ _))

/-- Digits have no part in marks. -/
theorem harmless_of_isDigit {c : Char} (h : c.isDigit = true) : Harmless c := by
  have hval : 48 ≤ c.toNat ∧ c.toNat ≤ 57 := by
    simpa [Char.isDigit, Char.le_def, UInt32.le_iff_toNat_le] using h
  have hlower : c.toLower = c := by
    refine dif_neg fun hupper => ?_
    have hlow : 65 ≤ c.toNat := UInt32.le_iff_toNat_le.1 hupper.1
    omega
  refine ⟨by omega, fun hmem => ?_⟩
  rw [hlower] at hmem
  have hletters : ('\n' :: markLetters).all fun letter =>
      letter.toNat < 48 || 57 < letter.toNat := by decide
  have hletter : c.toNat < 48 ∨ 57 < c.toNat := by
    simpa using List.all_eq_true.1 hletters c hmem
  omega

theorem harmless_of_all {text : List Char} (h : text.all fun c => Harmless c) :
    ∀ c ∈ text, Harmless c :=
  fun c hc => of_decide_eq_true (List.all_eq_true.1 h c hc)

/-- A line without the letters of marks opens no section. -/
theorem ofMarker?_of_harmless {line : String} (h : ∀ c ∈ line.toList, Harmless c) :
    ofMarker? line = none := by
  have hletters : marks.all fun mark => markLetters.any fun c => c ∈ mark.1.toList := by decide
  rw [ofMarker?, Option.map_eq_none_iff, List.find?_eq_none]
  -- A mark would bring one of its letters with it, which the line has in neither case.
  intro mark hmark hcontains
  obtain ⟨letter, hletter, hmem⟩ := List.any_eq_true.1 (List.all_eq_true.1 hletters mark hmark)
  have hlower := Text.mem_of_occursIn hcontains letter (of_decide_eq_true hmem)
  rw [Text.lowerCase, String.toList_ofList] at hlower
  obtain ⟨c, hc, rfl⟩ := Text.mem_lowerChars (fun c hc => (h c hc).1) hlower
  exact (h c hc).2 (List.mem_cons_of_mem _ hletter)

end Section

namespace Event

/-- The comment of a round has none of the letters of marks. -/
theorem harmless_round (id : NodeId) (index total : Nat) :
    ∀ line ∈ (round id index total).line?, ∀ c ∈ line.toList, Section.Harmless c := by
  have hdigits : ∀ n : Nat, ∀ c ∈ (toString n).toList, Section.Harmless c := by
    intro n c hc
    have hmem : c ∈ Nat.toDigits 10 n := by rwa [← Nat.toList_repr]
    exact Section.harmless_of_isDigit (Nat.isDigit_of_mem_toDigits (by decide) (by decide) hmem)
  intro line hline
  obtain rfl := Option.mem_some.1 hline
  -- Apart from the numbers, the comment is always the same.
  simp only [toString, String.toList_append, List.forall_mem_append]
  exact ⟨⟨⟨Section.harmless_of_all (by decide), hdigits _⟩, Section.harmless_of_all (by decide)⟩,
    hdigits _⟩

end Event

/-- A line with the sign of comments in front is read as a comment. -/
theorem Dump.reads_pieces {line : String} (hsign : line.toList.head? = some '#')
    (hline : OneLine line) :
    Reads (Text.pieces line) none (Section.ofMarker? (Text.trim line)) := by
  obtain ⟨cs, hcs⟩ := List.head?_eq_some_iff.1 hsign
  rw [Text.pieces_of_notMem hline]
  refine .comment ?_
  rw [isComment, Text.trim, String.toList_ofList, hcs, Text.head?_trimChars_cons (by decide)]
  rfl

namespace Event

open Dump

/-- The lines of a dump that an event makes. -/
def dumpLines (e : Event) : List String :=
  e.line?.toList.flatMap Text.pieces

/-- The comment of a round opens no section. -/
theorem reads_round (id : NodeId) (index total : Nat) :
    Reads (round id index total).dumpLines none none := by
  have hharmless := harmless_round id index total _ rfl
  have hmarker : Section.ofMarker? (Text.trim s!"# Loop Iteration {index}/{total}") = none := by
    refine Section.ofMarker?_of_harmless fun c hc => hharmless c ?_
    rw [Text.trim, String.toList_ofList] at hc
    exact (Text.trimChars_sublist _).subset hc
  have hreads : Reads (Text.pieces s!"# Loop Iteration {index}/{total}") _ _ :=
    reads_pieces (by simp [toString]) fun hfeed => (hharmless _ hfeed).2 (by decide)
  rw [hmarker] at hreads
  simpa [dumpLines, line?] using hreads

/-- The comment of a condition may open a section, by what it tests. -/
theorem reads_thenBranch (id : NodeId) {test condition : String} (htest : OneLine test)
    (hcondition : OneLine condition) : Reads (thenBranch id test condition).dumpLines none
      ((thenBranch id test condition).line?.bind Section.ofMarker?) := by
  -- The comment goes from a sign to a colon, whatever stands between them.
  have htrim : Text.trim s!"# If {test} {condition} THEN:" = s!"# If {test} {condition} THEN:" := by
    rw [Text.trim, Text.trimChars_eq_self, String.ofList_toList]
    · simp +decide [toString]
    · rw [String.toList_append, List.getLast?_append]
      intro c hc
      obtain rfl : ':' = c := Option.some.inj hc
      decide
  have hreads : Reads (Text.pieces s!"# If {test} {condition} THEN:") _ _ :=
    reads_pieces (by simp [toString]) (by simp +decide [toString, htest, hcondition])
  rw [htrim] at hreads
  simpa [dumpLines, line?] using hreads

/-- The comment of the other branch opens no section. -/
theorem reads_elseBranch (id : NodeId) : Reads (elseBranch id).dumpLines none none :=
  reads_pieces rfl (show OneLine "# Else / False:" by decide)

end Event

/-! ## Events are read as they are written -/

namespace Compiler

variable {g : Graph} {e : Event}

/-- Commands that are given by hand do not look like comments, where they are written at all. -/
def NoCommentGiven (compiler : Compiler) (g : Graph) : Prop :=
  ∀ e ∈ (compiler.resolver g).events, ∀ node ∈ (compiler.resolver g).writer? e,
    node.tag = "chat_command" ∨ node.tag = "custom" →
      Dump.isComment (Text.trim ((compiler.resolver g).commandText node)) = false

instance (compiler : Compiler) (g : Graph) : Decidable (compiler.NoCommentGiven g) :=
  inferInstanceAs (Decidable (∀ e ∈ _, _))

/-- What an event writes is read as its command and its section. -/
theorem reads_dumpLines (h : g.Unbroken) (hgiven : standard.NoCommentGiven g)
    (he : e ∈ (standard.resolver g).events) :
    Dump.Reads e.dumpLines ((standard.resolver g).written? e)
      ((standard.resolver g).opened? e) := by
  cases (standard.resolver g).occurs_events e he with
  | enter id => exact .nil
  | @command id node hnode =>
    replace hnode : g.node? id = some node := hnode
    -- What nodes of other types write begins with a keyword.
    have htext : Dump.isComment (Text.trim ((standard.resolver g).commandText node)) = false := by
      by_cases htag : node.tag = "chat_command" ∨ node.tag = "custom"
      · exact hgiven _ he node hnode htag
      · obtain ⟨hchat, hcustom⟩ := not_or.1 htag
        exact Commands.Opens.not_comment (opens_commandText h hnode hchat hcustom)
    have hreads := reads_synthesize h hnode htext
    simpa [Event.dumpLines, Event.line?, Resolver.written?, Resolver.opened?, Resolver.anchored?,
      Resolver.writer?, resolver_graph, hnode] using hreads
  | round id index total => exact Event.reads_round id index total
  | @thenBranch id node hnode =>
    refine Event.reads_thenBranch id (h.propertyText (Graph.node?_eq_some hnode).1 _) ?_
    exact (((standard.resolver g).answers_iff (.resolve id "Condition") _).2 rfl).oneLine h trivial
  | elseBranch id => exact Event.reads_elseBranch id

end Compiler

namespace Resolver

/-- The section that is open after some events: the one that was opened last. -/
def currentSection (r : Resolver) (walked : List Event) : Option Section :=
  (walked.filterMap r.opened?).getLast?

/-- An event opens its own section or leaves open the one that is. -/
theorem currentSection_concat (r : Resolver) (walked : List Event) (e : Event) :
    r.currentSection (walked ++ [e]) = (r.opened? e).or (r.currentSection walked) := by
  rw [currentSection, List.filterMap_append, List.getLast?_append]
  cases h : r.opened? e <;> simp [h, currentSection]

/-- The section of the last anchor. -/
def lastAnchor (r : Resolver) (walked : List Event) : Option Section :=
  (walked.filterMap r.anchored?).getLast?

/-- The commands that are written, each with all that has happened by then. -/
def emissions (r : Resolver) (events : List Event) : List (String × List Event) :=
  events.inits.filterMap fun walked => (walked.getLast?.bind r.written?).map (·, walked)

/-- One more event writes one more command or none. -/
theorem emissions_concat (r : Resolver) (events : List Event) (e : Event) :
    r.emissions (events ++ [e]) =
      r.emissions events ++ ((r.written? e).map (·, events ++ [e])).toList := by
  rw [emissions, List.inits_append, List.filterMap_append]
  congr 1
  cases h : r.written? e <;> simp [h]

/-- The commands are those that the events write. -/
theorem map_fst_emissions (r : Resolver) (events : List Event) :
    (r.emissions events).map Prod.fst = events.filterMap r.written? := by
  induction events using List.reverseRecOn with
  | nil => rfl
  | append_singleton events e ih =>
    rw [emissions_concat, List.map_append, ih, List.filterMap_append]
    congr 1
    cases h : r.written? e <;> simp [h]

/-- What has happened by then is how the walk began. -/
theorem prefix_of_mem_emissions {r : Resolver} {events walked : List Event} {text : String}
    (h : (text, walked) ∈ r.emissions events) : walked <+: events := by
  obtain ⟨walked', hwalked, hsome⟩ := List.mem_filterMap.1 h
  obtain ⟨_, -, heq⟩ := Option.map_eq_some_iff.1 hsome
  obtain rfl : walked' = walked := congrArg Prod.snd heq
  exact (List.mem_inits _ _).1 hwalked

/-- The lines of a walk are read as its commands, each in the section that was opened last, and
leave open the section that was opened last. -/
theorem commandsFrom_dumpLines {r : Resolver} {events : List Event}
    (h : ∀ e ∈ events, Dump.Reads e.dumpLines (r.written? e) (r.opened? e)) :
    Dump.commandsFrom none (events.flatMap Event.dumpLines) =
        (r.emissions events).map (fun (text, walked) =>
          { Command.parse text with place := r.currentSection walked }) ∧
      Dump.placeAfter none (events.flatMap Event.dumpLines) = r.currentSection events := by
  -- From the front to the back, since the section is that of the events in front.
  induction events using List.reverseRecOn with
  | nil => exact ⟨rfl, rfl⟩
  | append_singleton events e ih =>
    obtain ⟨hevents, he⟩ := List.forall_mem_append.1 h
    obtain ⟨hcommands, hplace⟩ := ih hevents
    have hreads := he e (List.mem_singleton_self e)
    rw [List.flatMap_append, List.flatMap_singleton, Dump.commandsFrom_append,
      Dump.placeAfter_append, hcommands, hplace, hreads.commands, hreads.place, emissions_concat,
      List.map_append, ← currentSection_concat]
    refine ⟨congrArg _ ?_, rfl⟩
    cases r.written? e <;> rfl

end Resolver

namespace Compiler

variable {g : Graph}

/-- A compiled graph is read as the commands of its walk. -/
theorem parse_compile (h : g.Unbroken) (hgiven : standard.NoCommentGiven g) :
    Dump.parse (standard.compile g) =
      ((standard.resolver g).emissions (standard.resolver g).events).map fun (text, walked) =>
        { Command.parse text with place := (standard.resolver g).currentSection walked } := by
  rw [← (Resolver.commandsFrom_dumpLines fun e he => reads_dumpLines h hgiven he).1, Dump.parse,
    compile, compileLines, Dump.commandsFrom_lines_intercalate, List.filterMap_eq_flatMap_toList,
    List.flatMap_assoc]
  rfl

/-- Reading a compiled graph back gives the commands that were written, in order: none is lost,
split or merged, and none is taken from a comment. -/
theorem parse_compile_raw (g : Graph) (hline : g.Unbroken) (hgiven : standard.NoCommentGiven g) :
    (Dump.parse (standard.compile g)).map Command.raw =
      (standard.resolver g).events.filterMap (standard.resolver g).written? := by
  rw [parse_compile hline hgiven, List.map_map, ← Resolver.map_fst_emissions]
  rfl

end Compiler

/-- Anchors in front of a condition, in one of its branches and behind the other. -/
def Session.anchorsAroundCondition : List Edit :=
  [.add "command_block" {}, .add "if_condition" {}, .add "chat_command" {}, .add "say" {},
    .add "command_block" {}, .set ⟨0⟩ "command" ⟨.string " say one", trivial⟩,
    .set ⟨2⟩ "command" ⟨.string "/op me", trivial⟩, .connect ⟨0⟩ "Exec" ⟨1⟩ "Exec",
    .connect ⟨1⟩ "True" ⟨2⟩ "Exec", .connect ⟨1⟩ "False" ⟨3⟩ "Exec",
    .connect ⟨3⟩ "Exec" ⟨4⟩ "Exec"]

/-- The commands of anchors are read without the comments above them. -/
theorem Compiler.parse_compile_raw_anchorsAroundCondition :
    let g := (Session.run Session.anchorsAroundCondition).graph
    g.Unbroken ∧ standard.NoCommentGiven g ∧
      (Dump.parse (standard.compile g)).map Command.raw =
        ["[RUA] say one", "/op me", "say Hello World!", "[CUA]"] := by
  intro g
  have hline : g.Unbroken := by decide
  have hgiven : standard.NoCommentGiven g := by decide +kernel
  refine ⟨hline, hgiven, ?_⟩
  rw [parse_compile_raw g hline hgiven]
  decide +kernel

/-- A command that is read back stands in the section that was opened last when it was written. An
anchor opens its own section. The comment of a condition opens the section that it names, if it
names one; the comments of loops and of other branches open none. So unless a condition names a
section, a command stands in the section of the last anchor. -/
theorem Compiler.parse_compile_place (g : Graph) (hline : g.Unbroken)
    (hgiven : standard.NoCommentGiven g) :
    let r := standard.resolver g
    (Dump.parse (standard.compile g)).map (fun c => (c.raw, c.place)) =
        (r.emissions r.events).map (fun (text, walked) => (text, r.currentSection walked)) ∧
      ((∀ id test condition, Event.thenBranch id test condition ∈ r.events →
          (Event.thenBranch id test condition).line?.bind Section.ofMarker? = none) →
        (Dump.parse (standard.compile g)).map (fun c => (c.raw, c.place)) =
          (r.emissions r.events).map fun (text, walked) => (text, r.lastAnchor walked)) := by
  intro r
  have hread : (Dump.parse (standard.compile g)).map (fun c => (c.raw, c.place)) =
      (r.emissions r.events).map (fun (text, walked) => (text, r.currentSection walked)) := by
    rw [parse_compile hline hgiven, List.map_map]
    rfl
  refine ⟨hread, fun hconditions => hread.trans (List.map_congr_left ?_)⟩
  rintro ⟨text, walked⟩ hemission
  -- Up to the command, the anchors are all that opens sections.
  have hsame : walked.filterMap r.opened? = walked.filterMap r.anchored? := by
    refine List.filterMap_congr fun e he => ?_
    have hevent := (Resolver.prefix_of_mem_emissions hemission).subset he
    cases e with
    | thenBranch id test condition => exact hconditions id test condition hevent
    | _ => rfl
  exact Prod.ext rfl (congrArg List.getLast? hsame)

/-- A command behind an `Else` stands in the section of the anchor in the other branch. -/
theorem Compiler.parse_compile_place_anchorsAroundCondition :
    let g := (Session.run Session.anchorsAroundCondition).graph
    g.Unbroken ∧ standard.NoCommentGiven g ∧
      (Dump.parse (standard.compile g)).map (fun c => (c.raw, c.place)) =
        [("[RUA] say one", some .commandBlock), ("/op me", some .chat),
          ("say Hello World!", some .chat), ("[CUA]", some .commandBlock)] := by
  intro g
  have hline : g.Unbroken := by decide
  have hgiven : standard.NoCommentGiven g := by decide +kernel
  refine ⟨hline, hgiven, ((parse_compile_place g hline hgiven).2 ?_).trans (by decide +kernel)⟩
  intro id test condition hevent
  have hevents : (standard.resolver g).events =
      [.enter ⟨0⟩, .command ⟨0⟩ "# Command block\n[RUA] say one", .enter ⟨1⟩,
        .thenBranch ⟨1⟩ "if entity" "@s", .enter ⟨2⟩, .command ⟨2⟩ "# In chat\n/op me",
        .elseBranch ⟨1⟩, .enter ⟨3⟩, .command ⟨3⟩ "say Hello World!", .enter ⟨4⟩,
        .command ⟨4⟩ "# Command block\n[CUA]"] := by decide +kernel
  rw [hevents] at hevent
  obtain ⟨rfl, rfl, rfl⟩ : id = ⟨1⟩ ∧ test = "if entity" ∧ condition = "@s" := by
    simpa using hevent
  decide

/-- A condition on entities whose tag is the name of a section. -/
def Session.conditionOnSetupTag : List Edit :=
  [.add "chat_command" {}, .add "if_condition" {}, .add "say" {},
    .set ⟨1⟩ "condition" ⟨.string "@e[tag=setup]", trivial⟩, .connect ⟨0⟩ "Exec" ⟨1⟩ "Exec",
    .connect ⟨1⟩ "True" ⟨2⟩ "Exec"]

/-- The comment of a condition can move a command out of the section of the last anchor. -/
theorem Session.setup_opened_by_condition :
    let g := (run conditionOnSetupTag).graph
    let r := Compiler.standard.resolver g
    g.Unbroken ∧ Compiler.standard.NoCommentGiven g ∧
      Compiler.standard.compile g =
        "# In chat\n# If if entity @e[tag=setup] THEN:\nsay Hello World!" ∧
      (r.emissions r.events).map (fun (text, walked) => (text, r.lastAnchor walked)) =
        [("say Hello World!", some .chat)] ∧
      (Dump.parse (Compiler.standard.compile g)).map (fun c => (c.raw, c.place)) =
        [("say Hello World!", some .setup)] := by
  decide +kernel

end CommandGraph
