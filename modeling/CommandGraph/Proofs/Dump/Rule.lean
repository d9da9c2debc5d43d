import CommandGraph.Dump.Command
import CommandGraph.Proofs.Dump.Token

/-!
# What the rules of commands read

Apart from `execute`, the rule of a keyword is a row of fields, each of which takes the next few
arguments of the command, or all that are left (`Layout`). A rule whose last field takes a fixed
number of arguments does not look at any further ones (`Rule.reach`). So two commands of one shape
have equal fields exactly if they have equal arguments as far as their rule reads them
(`Reading.fields_eq_iff`).
-/

namespace CommandGraph.Dump

namespace Reading

variable {args args' : List String} {start stop : Nat}

/-- A single token is a span of one. -/
theorem span_succ (args : List String) (i : Nat) : span args i (i + 1) = part args i := by
  rw [span, part, List.drop_take, Nat.add_sub_cancel_left]
  cases h : args[i]? with
  | none => rw [List.drop_eq_nil_of_le (List.getElem?_eq_none_iff.1 h)]; rfl
  | some token =>
    obtain ⟨hi, rfl⟩ := List.getElem?_eq_some_iff.1 h
    rw [List.drop_eq_getElem_cons hi, List.take_succ_cons, List.take_zero]
    rfl

/-- Equal spans are made of equal tokens. -/
theorem span_eq_iff (h : AreTokens args) (h' : AreTokens args') :
    span args start stop = span args' start stop ↔
      (args.take stop).drop start = (args'.take stop).drop start := by
  refine ⟨fun heq => ?_, fun heq => congrArg _ heq⟩
  have hpart := h.of_sublist ((List.drop_sublist start _).trans (List.take_sublist stop _))
  have hpart' := h'.of_sublist ((List.drop_sublist start _).trans (List.take_sublist stop _))
  rw [← hpart.tokenize_intercalate, ← hpart'.tokenize_intercalate]
  exact congrArg tokenize heq

theorem tail_eq_iff (h : AreTokens args) (h' : AreTokens args') :
    tail args start = tail args' start ↔ args.drop start = args'.drop start := by
  refine ⟨fun heq => ?_, fun heq => congrArg _ heq⟩
  rw [← (h.of_sublist (List.drop_sublist start _)).tokenize_intercalate,
    ← (h'.of_sublist (List.drop_sublist start _)).tokenize_intercalate]
  exact congrArg tokenize heq

end Reading

/-! ## Rows of fields -/

/-- Fields in the order of the arguments they take. A field takes a number of arguments, or all that
are left if it has none. -/
abbrev Layout := List (String × Option Nat)

namespace Layout

/-- The fields with their values, where the first one starts at an argument. -/
def fields (args : List String) (start : Nat) : Layout → List (String × String)
  | [] => []
  | (name, some width) :: rest =>
    (name, Reading.span args start (start + width)) :: fields args (start + width) rest
  | (name, none) :: _ => [(name, Reading.tail args start)]

/-- The number of arguments up to the end of the last field, unless that takes all. -/
def reach (start : Nat) : Layout → Option Nat
  | [] => some start
  | (_, some width) :: rest => reach (start + width) rest
  | (_, none) :: _ => none

/-- The arguments within reach. -/
def within (reach : Option Nat) (args : List String) : List String :=
  match reach with
  | some count => args.take count
  | none => args

variable {args args' : List String} {start : Nat}

/-- Arguments that agree within reach agree where the fields begin. -/
theorem take_eq_of_within_eq (layout : Layout)
    (h : within (layout.reach start) args = within (layout.reach start) args') :
    args.take start = args'.take start := by
  fun_induction reach start layout with
  | case1 start => exact h
  | case2 start name width rest ih =>
    have hnext := congrArg (List.take start) (ih h)
    simpa [List.take_take] using hnext
  | case3 start name rest => exact congrArg (List.take start) h

/-- The names of the fields. -/
def names : Layout → List String
  | [] => []
  | (name, some _) :: rest => name :: names rest
  | (name, none) :: _ => [name]

theorem map_fst_fields (layout : Layout) (args : List String) (start : Nat) :
    (layout.fields args start).map Prod.fst = layout.names := by
  fun_induction fields args start layout with
  | case1 start => rfl
  | case2 start name width rest ih => rw [names, List.map_cons, ih]
  | case3 start name rest => rfl

/-- The values of the fields say everything about the arguments within reach, and nothing else. -/
theorem fields_eq_iff (layout : Layout) (h : AreTokens args) (h' : AreTokens args')
    (hstart : args.take start = args'.take start) :
    layout.fields args start = layout.fields args' start ↔
      within (layout.reach start) args = within (layout.reach start) args' := by
  fun_induction reach start layout with
  | case1 start => simp only [fields, within, hstart]
  | case2 start name width rest ih =>
    -- The first field carries the agreement on to where the second one begins.
    have hspan : Reading.span args start (start + width) =
          Reading.span args' start (start + width) ↔
        args.take (start + width) = args'.take (start + width) := by
      rw [Reading.span_eq_iff h h']
      refine ⟨fun hdrop => ?_, fun htake => by rw [htake]⟩
      rw [← List.take_append_drop start (args.take (start + width)),
        ← List.take_append_drop start (args'.take (start + width)), hdrop]
      simp [List.take_take, hstart]
    rw [fields, fields, List.cons.injEq, Prod.mk.injEq, hspan]
    constructor
    · rintro ⟨⟨-, htake⟩, hrest⟩
      exact (ih htake).1 hrest
    · intro hwithin
      have htake := take_eq_of_within_eq rest hwithin
      exact ⟨⟨rfl, htake⟩, (ih htake).2 hwithin⟩
  | case3 start name rest =>
    simp only [fields, within, List.cons.injEq, Prod.mk.injEq, true_and, and_true,
      Reading.tail_eq_iff h h']
    refine ⟨fun hdrop => ?_, fun heq => by rw [heq]⟩
    rw [← List.take_append_drop start args, ← List.take_append_drop start args', hdrop, hstart]

end Layout

/-! ## The rules -/

/-- The rule of a keyword. -/
structure Rule where
  /-- Whether the argument behind the keyword belongs to the shape. -/
  shaped : Bool := false
  /-- The fields. -/
  layout : Layout

namespace Rule

/-- The rules of all keywords but `execute`. -/
def ofKeyword : String → Rule
  | "give" => { layout := [("target", some 1), ("item", some 1), ("count", some 1)] }
  | "summon" => { layout := [("entity", some 1), ("position", some 3), ("nbt", none)] }
  | "say" => { layout := [("message", none)] }
  | "tellraw" => { layout := [("target", some 1), ("json", none)] }
  | "tp" | "teleport" => { layout := [("target", some 1), ("destination", none)] }
  | "effect" =>
    { shaped := true,
      layout := [("target", some 1), ("effect", some 1), ("duration", some 1),
        ("amplifier", some 1)] }
  | "gamemode" => { shaped := true, layout := [("target", some 1)] }
  | "setblock" => { layout := [("position", some 3), ("block", some 1), ("mode", some 1)] }
  | "fill" =>
    { layout := [("from", some 3), ("to", some 3), ("block", some 1), ("mode", some 1)] }
  | "kill" => { layout := [("target", some 1)] }
  | "time" => { shaped := true, layout := [("value", some 1)] }
  | "weather" => { shaped := true, layout := [("duration", some 1)] }
  | _ => { layout := [("args", none)] }

/-- The argument at which the fields begin. -/
def start (rule : Rule) : Nat :=
  if rule.shaped then 1 else 0

/-- How many arguments the rule reads, unless it reads all. -/
def reach (rule : Rule) : Option Nat :=
  rule.layout.reach rule.start

/-- The keyword as it counts for the shape. -/
def canonical (keyword : String) : String :=
  if keyword = "teleport" then "tp" else keyword

/-- Sorts out the arguments behind a keyword. -/
def read (rule : Rule) (keyword : String) (args : List String) : Reading where
  keyword := canonical keyword
  shape := if rule.shaped then [Reading.part args 0] else []
  fields := rule.layout.fields args rule.start

/-- Both words for teleporting have one rule. -/
theorem ofKeyword_canonical (keyword : String) :
    ofKeyword (canonical keyword) = ofKeyword keyword := by
  by_cases h : keyword = "teleport"
  · rw [h]
    rfl
  · rw [canonical, if_neg h]

theorem ofKeyword_eq_of_canonical_eq {keyword keyword' : String}
    (h : canonical keyword = canonical keyword') : ofKeyword keyword' = ofKeyword keyword := by
  rw [← ofKeyword_canonical keyword', ← h, ofKeyword_canonical]

theorem canonical_eq_iff {keyword word : String} (h : word ≠ "tp") (h' : word ≠ "teleport") :
    canonical keyword = word ↔ keyword = word := by
  unfold canonical
  split
  next heq => exact ⟨fun hword => absurd hword.symm h, fun hword => absurd (hword ▸ heq) h'⟩
  next => rfl

theorem nodup_names_ofKeyword (keyword : String) : (ofKeyword keyword).layout.names.Nodup := by
  unfold ofKeyword
  split <;> decide

end Rule

/-- The rules are the cases by which tokens are sorted out. -/
theorem Reading.ofTokens_cons {keyword : String} (h : keyword ≠ "execute") (args : List String) :
    ofTokens (keyword :: args) = (Rule.ofKeyword keyword).read keyword args := by
  unfold ofTokens
  dsimp only [part, List.getElem?_cons_zero, Option.getD_some]
  -- One case for each keyword; the last one is for all words without a rule of their own.
  split
  case h_11 => exact absurd rfl h
  case h_15 => simp_all [Rule.ofKeyword, Rule.read, Rule.canonical, Layout.fields, tail, Rule.start]
  all_goals
    simp only [Rule.ofKeyword, Rule.read, Rule.start, Layout.fields, span_succ]
    rfl

namespace Reading

/-- All arguments of `execute` up to the word `run` are shape, and all others one field. -/
theorem ofTokens_execute (args : List String) : ofTokens ("execute" :: args) =
    match args.idxOf? "run" with
    | some run =>
      { keyword := "execute", shape := args.take (run + 1),
        fields := [("command", tail args (run + 1))] }
    | none => { keyword := "execute", shape := args } := by
  change ofExecute ("execute" :: args) = _
  rw [ofExecute, List.idxOf?_cons]
  cases args.idxOf? "run" <;> rfl

theorem keyword_ofTokens_cons (keyword : String) (args : List String) :
    (ofTokens (keyword :: args)).keyword = Rule.canonical keyword := by
  by_cases h : keyword = "execute"
  · rw [h, ofTokens_execute]
    cases args.idxOf? "run" <;> rfl
  · rw [ofTokens_cons h]
    rfl

/-- The tokens that a command's rule reads, with one word for teleporting. -/
def seen : List String → List String
  | [] => []
  | keyword :: args =>
    Rule.canonical keyword :: Layout.within (Rule.ofKeyword keyword).reach args

variable {args args' tokens tokens' : List String} {keyword keyword' : String}

/-! ## Commands of one shape -/

theorem fields_read_eq_iff (rule : Rule) (h : AreTokens args) (h' : AreTokens args')
    (hshape : (rule.read keyword args).shape = (rule.read keyword' args').shape) :
    (rule.read keyword args).fields = (rule.read keyword' args').fields ↔
      Layout.within rule.reach args = Layout.within rule.reach args' := by
  refine rule.layout.fields_eq_iff h h' ?_
  unfold Rule.start
  split
  next hshaped =>
    -- The fields begin behind the argument that belongs to the shape.
    simp only [Rule.read, hshaped, if_true, List.cons.injEq, and_true] at hshape
    rw [← span_succ, ← span_succ, span_eq_iff h h'] at hshape
    simpa using hshape
  next => rfl

/-- The first `run` of an `execute` command stands in its shape. -/
theorem idxOf?_shape_execute (args : List String) :
    (ofTokens ("execute" :: args)).shape.idxOf? "run" = args.idxOf? "run" := by
  rw [ofTokens_execute]
  cases hrun : args.idxOf? "run" with
  | none => exact hrun
  | some run =>
    obtain ⟨hlt, heq, hbefore⟩ := List.idxOf?_eq_some_iff.1 hrun
    refine List.idxOf?_eq_some_iff.2 ⟨by simp; omega, by simpa using heq, fun j hj => ?_⟩
    simpa using hbefore j hj

section Execute

variable (hshape : (ofTokens ("execute" :: args)).shape = (ofTokens ("execute" :: args')).shape)

include hshape

theorem names_execute_eq : (ofTokens ("execute" :: args)).fields.map Prod.fst =
    (ofTokens ("execute" :: args')).fields.map Prod.fst := by
  have hrun := congrArg (List.idxOf? "run") hshape
  rw [idxOf?_shape_execute, idxOf?_shape_execute] at hrun
  rw [ofTokens_execute, ofTokens_execute, hrun]
  cases args'.idxOf? "run" <;> rfl

theorem fields_execute_eq_iff (h : AreTokens args) (h' : AreTokens args') :
    (ofTokens ("execute" :: args)).fields = (ofTokens ("execute" :: args')).fields ↔
      args = args' := by
  have hrun := congrArg (List.idxOf? "run") hshape
  rw [idxOf?_shape_execute, idxOf?_shape_execute] at hrun
  rw [ofTokens_execute, ofTokens_execute, hrun] at hshape ⊢
  cases hindex : args'.idxOf? "run" with
  | none =>
    rw [hindex] at hshape
    exact ⟨fun _ => hshape, fun _ => rfl⟩
  | some run =>
    -- The shape says what stands up to the word `run`, and the field says the rest.
    rw [hindex] at hshape
    simp only [List.cons.injEq, Prod.mk.injEq, true_and, and_true, tail_eq_iff h h']
    refine ⟨fun hdrop => ?_, fun heq => by rw [heq]⟩
    rw [← List.take_append_drop (run + 1) args, ← List.take_append_drop (run + 1) args', hdrop]
    exact congrArg (· ++ _) hshape

end Execute

/-- Commands with equal keywords are both empty, both of `execute`, or both of one other rule. -/
theorem cases_of_keyword_eq (h : AreTokens tokens) (h' : AreTokens tokens')
    (hkeyword : (ofTokens tokens).keyword = (ofTokens tokens').keyword) :
    (tokens = [] ∧ tokens' = []) ∨
    (∃ args args', tokens = "execute" :: args ∧ tokens' = "execute" :: args') ∨
    ∃ keyword keyword' args args', tokens = keyword :: args ∧ tokens' = keyword' :: args' ∧
      keyword ≠ "execute" ∧ keyword' ≠ "execute" ∧
      Rule.canonical keyword = Rule.canonical keyword' := by
  -- A keyword is a token, so it is empty only if there is none.
  have hempty : ∀ {keyword : String} {args : List String}, AreTokens (keyword :: args) →
      Rule.canonical keyword ≠ "" := by
    intro keyword args h heq
    rw [Rule.canonical_eq_iff (by decide) (by decide)] at heq
    exact h.ne_empty (heq ▸ List.mem_cons_self)
  cases tokens with
  | nil =>
    cases tokens' with
    | nil => exact .inl ⟨rfl, rfl⟩
    | cons keyword' args' =>
      rw [keyword_ofTokens_cons] at hkeyword
      exact absurd hkeyword.symm (hempty h')
  | cons keyword args =>
    cases tokens' with
    | nil =>
      rw [keyword_ofTokens_cons] at hkeyword
      exact absurd hkeyword (hempty h)
    | cons keyword' args' =>
      rw [keyword_ofTokens_cons, keyword_ofTokens_cons] at hkeyword
      by_cases hexecute : keyword = "execute"
      · subst hexecute
        have hkeyword' : keyword' = "execute" :=
          (Rule.canonical_eq_iff (by decide) (by decide)).1 hkeyword.symm
        exact .inr (.inl ⟨args, args', rfl, by rw [hkeyword']⟩)
      · refine .inr (.inr ⟨keyword, keyword', args, args', rfl, rfl, hexecute, ?_, hkeyword⟩)
        rintro rfl
        exact hexecute ((Rule.canonical_eq_iff (by decide) (by decide)).1 hkeyword)

/-- Only words have more than the keyword in their shape. -/
theorem shape_eq_nil_of_bracket (h : (ofTokens tokens).keyword.toList.head? = some '[') :
    (ofTokens tokens).shape = [] := by
  cases tokens with
  | nil => rfl
  | cons keyword args =>
    rw [keyword_ofTokens_cons] at h
    have hne : keyword ≠ "execute" := by
      rintro rfl
      revert h
      decide
    have hshaped : (Rule.ofKeyword keyword).shaped = false := by
      -- The keywords of the rules begin with letters.
      unfold Rule.ofKeyword
      split
      all_goals first
        | rfl
        | exact absurd h (by decide)
    rw [ofTokens_cons hne, Rule.read, hshaped]
    rfl

theorem nodup_names (tokens : List String) : ((ofTokens tokens).fields.map Prod.fst).Nodup := by
  cases tokens with
  | nil => decide
  | cons keyword args =>
    by_cases h : keyword = "execute"
    · rw [h, ofTokens_execute]
      cases args.idxOf? "run" <;> simp
    · rw [ofTokens_cons h, Rule.read, Layout.map_fst_fields]
      exact Rule.nodup_names_ofKeyword keyword

section OneShape

variable (h : AreTokens tokens) (h' : AreTokens tokens')
  (hkeyword : (ofTokens tokens).keyword = (ofTokens tokens').keyword)
  (hshape : (ofTokens tokens).shape = (ofTokens tokens').shape)

include h h' hkeyword hshape

theorem names_eq :
    (ofTokens tokens).fields.map Prod.fst = (ofTokens tokens').fields.map Prod.fst := by
  rcases cases_of_keyword_eq h h' hkeyword with ⟨rfl, rfl⟩ | ⟨args, args', rfl, rfl⟩ |
    ⟨keyword, keyword', args, args', rfl, rfl, hne, hne', hcanonical⟩
  · rfl
  · exact names_execute_eq hshape
  · rw [ofTokens_cons hne, ofTokens_cons hne', Rule.ofKeyword_eq_of_canonical_eq hcanonical]
    exact (Layout.map_fst_fields _ _ _).trans (Layout.map_fst_fields _ _ _).symm

/-- Two commands of one shape have equal fields exactly if they have equal tokens, as far as their
rule reads them. -/
theorem fields_eq_iff : (ofTokens tokens).fields = (ofTokens tokens').fields ↔
    seen tokens = seen tokens' := by
  rcases cases_of_keyword_eq h h' hkeyword with ⟨rfl, rfl⟩ | ⟨args, args', rfl, rfl⟩ |
    ⟨keyword, keyword', args, args', rfl, rfl, hne, hne', hcanonical⟩
  · exact ⟨fun _ => rfl, fun _ => rfl⟩
  · rw [fields_execute_eq_iff hshape (h.of_sublist (List.sublist_cons_self _ _))
      (h'.of_sublist (List.sublist_cons_self _ _))]
    exact ⟨fun heq => by rw [heq], fun heq => (List.cons.inj heq).2⟩
  · have hrule := Rule.ofKeyword_eq_of_canonical_eq hcanonical
    rw [ofTokens_cons hne, ofTokens_cons hne', hrule] at hshape ⊢
    rw [fields_read_eq_iff _ (h.of_sublist (List.sublist_cons_self _ _))
      (h'.of_sublist (List.sublist_cons_self _ _)) hshape, seen, seen, hrule, hcanonical,
      List.cons.injEq, and_iff_right rfl]

end OneShape

end Reading

end CommandGraph.Dump
