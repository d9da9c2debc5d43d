import CommandGraph.Proofs.Dump.Token
import Mathlib.Data.List.Induction

/-!
# Where a line is cut

Which spaces cut a line is said here of the text alone. A quote character opens a quote where none
is open (`openQuote?`), brackets count outside quotes only (`openings`, `closings`), and a space is
a cut if no quote is open in front of it and the depth of the brackets is zero (`IsCut`). The
scanner finds exactly these cuts (`Nesting.after_eq`).

The depth is a number of 32 bits. It is zero where as many brackets are closed as opened, and also
where the two numbers differ by a multiple of `Int32.size` (`bracketDepth_eq_zero_iff`), for which a
line would have to be that long (`isCut_iff_of_length_lt`).

Nothing but the cuts is lost, and characters are in different tokens exactly if there is a cut
between them (`tokenize_exact`).
-/

namespace CommandGraph.Dump

/-! ## Quotes and brackets of a text -/

/-- The quote that is open behind a text, which is given from its last character to its first. A
quote is closed by its own character, unless a backslash stands right before that. -/
def openQuoteBack? : List Char → Option Char
  | [] => none
  | c :: before =>
    match openQuoteBack? before with
    | some q => if c = q ∧ before.head? ≠ some '\\' then none else some q
    | none => if c = '"' ∨ c = '\'' then some c else none

/-- The quote that is open behind a text. -/
def openQuote? (cs : List Char) : Option Char :=
  openQuoteBack? cs.reverse

/-- How many characters of a sort stand outside quotes. -/
def countOutside (sort : Char → Bool) (cs : List Char) : Nat :=
  (List.range cs.length).countP fun i => (openQuote? (cs.take i)).isNone && cs[i]?.any sort

/-- How many brackets, braces and parentheses are opened outside quotes. -/
def openings (cs : List Char) : Nat :=
  countOutside (fun c => c = '[' ∨ c = '{' ∨ c = '(') cs

/-- How many brackets, braces and parentheses are closed outside quotes. -/
def closings (cs : List Char) : Nat :=
  countOutside (fun c => c = ']' ∨ c = '}' ∨ c = ')') cs

/-- How deep in brackets the end of a text is, counted with 32 bits. -/
def bracketDepth (cs : List Char) : Int32 :=
  .ofInt (openings cs - closings cs)

theorem openQuote?_concat (cs : List Char) (c : Char) :
    openQuote? (cs ++ [c]) =
      match openQuote? cs with
      | some q => if c = q ∧ cs.getLast? ≠ some '\\' then none else some q
      | none => if c = '"' ∨ c = '\'' then some c else none := by
  simp [openQuote?, openQuoteBack?]

theorem countOutside_concat (sort : Char → Bool) (cs : List Char) (c : Char) :
    countOutside sort (cs ++ [c]) =
      countOutside sort cs + if (openQuote? cs).isNone && sort c then 1 else 0 := by
  have hfront : ∀ i ∈ List.range cs.length,
      ((openQuote? ((cs ++ [c]).take i)).isNone && (cs ++ [c])[i]?.any sort) =
        ((openQuote? (cs.take i)).isNone && cs[i]?.any sort) := by
    intro i hi
    have hlt := List.mem_range.1 hi
    rw [List.take_append_of_le_length (Nat.le_of_lt hlt), List.getElem?_append_left hlt]
  rw [countOutside, List.length_append, List.length_singleton, List.range_succ, List.countP_append,
    List.countP_congr fun i hi => by rw [hfront i hi]]
  simp [countOutside, List.countP_cons]

theorem countOutside_le_length (sort : Char → Bool) (cs : List Char) :
    countOutside sort cs ≤ cs.length := by
  rw [countOutside]
  exact Nat.le_trans List.countP_le_length (Nat.le_of_eq List.length_range)

theorem openings_concat (cs : List Char) (c : Char) :
    openings (cs ++ [c]) =
      openings cs + if openQuote? cs = none ∧ (c = '[' ∨ c = '{' ∨ c = '(') then 1 else 0 := by
  simp [openings, countOutside_concat]

theorem closings_concat (cs : List Char) (c : Char) :
    closings (cs ++ [c]) =
      closings cs + if openQuote? cs = none ∧ (c = ']' ∨ c = '}' ∨ c = ')') then 1 else 0 := by
  simp [closings, countOutside_concat]

/-- A bracket outside quotes goes one deeper or one back. -/
theorem bracketDepth_concat (cs : List Char) (c : Char) :
    bracketDepth (cs ++ [c]) = bracketDepth cs +
      (if openQuote? cs = none ∧ (c = '[' ∨ c = '{' ∨ c = '(') then 1 else 0) -
      (if openQuote? cs = none ∧ (c = ']' ∨ c = '}' ∨ c = ')') then 1 else 0) := by
  have hone : ∀ p : Prop, [Decidable p] →
      Int32.ofInt ((if p then 1 else 0 : Nat) : Int) = if p then 1 else 0 := by
    intro p _
    split <;> rfl
  -- Wrapping around goes through sums and differences, so it can be put off to the end.
  rw [bracketDepth, bracketDepth, openings_concat, closings_concat, Int.natCast_add,
    Int.natCast_add, ← hone, ← hone, ← Int32.ofInt_add, ← Int32.ofInt_sub]
  congr 1
  omega

/-- The depth is zero exactly if the numbers of brackets are the same, up to multiples of what 32
bits can count. -/
theorem bracketDepth_eq_zero_iff {cs : List Char} :
    bracketDepth cs = 0 ↔ openings cs % Int32.size = closings cs % Int32.size := by
  rw [bracketDepth, Int32.ofInt_eq_iff_bmod_eq_toInt, Int32.toInt_zero, ← Int.dvd_iff_bmod_eq_zero]
  unfold Int32.size
  omega

namespace Nesting

theorem after_concat (cs : List Char) (c : Char) : after (cs ++ [c]) = (after cs).advance c :=
  List.foldl_append

/-- What the scanner knows behind a text can be read off the text. -/
theorem after_eq (cs : List Char) :
    after cs = { depth := bracketDepth cs, quote := openQuote? cs,
                 previous := cs.getLast? } := by
  induction cs using List.reverseRecOn with
  | nil => rfl
  | append_singleton cs c ih =>
    rw [after_concat, ih, advance, openQuote?_concat, List.getLast?_concat]
    cases hquote : openQuote? cs with
    | some q => simp [bracketDepth_concat, hquote]
    | none =>
      -- Outside quotes a character begins a quote, opens, closes, or does none of this.
      by_cases hc : c = '"' ∨ c = '\''
      · rcases hc with rfl | rfl <;> simp [bracketDepth_concat]
      by_cases hopening : c = '[' ∨ c = '{' ∨ c = '('
      · rcases hopening with rfl | rfl | rfl <;> simp [bracketDepth_concat, hquote]
      by_cases hclosing : c = ']' ∨ c = '}' ∨ c = ')'
      · rcases hclosing with rfl | rfl | rfl <;> simp [bracketDepth_concat, hquote]
      · simp [bracketDepth_concat, hc, hopening, hclosing]

theorem closed_after_iff {cs : List Char} :
    (after cs).Closed ↔ openQuote? cs = none ∧ bracketDepth cs = 0 := by
  rw [after_eq, Closed]

end Nesting

/-! ## Cuts -/

/-- The character at position `i` is a space that cuts: outside quotes, at depth zero. -/
def IsCut (cs : List Char) (i : Nat) : Prop :=
  cs[i]? = some ' ' ∧ openQuote? (cs.take i) = none ∧ bracketDepth (cs.take i) = 0

instance (cs : List Char) (i : Nat) : Decidable (IsCut cs i) :=
  inferInstanceAs (Decidable (_ ∧ _ ∧ _))

/-- The characters that are no cuts. -/
def withoutCuts (cs : List Char) : List Char :=
  (cs.zipIdx.filter fun entry => ¬ IsCut cs entry.2).map Prod.fst

variable {cs p q w : List Char} {c : Char} {i j k : Nat}

/-- In a line that is not too long to be counted with 32 bits, a space outside quotes cuts exactly
if as many brackets are closed as opened in front of it. -/
theorem isCut_iff_of_length_lt (h : cs.length < Int32.size) :
    IsCut cs i ↔ cs[i]? = some ' ' ∧ openQuote? (cs.take i) = none ∧
      openings (cs.take i) = closings (cs.take i) := by
  have hopenings := countOutside_le_length (fun c => c = '[' ∨ c = '{' ∨ c = '(') (cs.take i)
  have hclosings := countOutside_le_length (fun c => c = ']' ∨ c = '}' ∨ c = ')') (cs.take i)
  rw [IsCut, bracketDepth_eq_zero_iff, Nat.mod_eq_of_lt, Nat.mod_eq_of_lt]
  · exact Nat.lt_of_le_of_lt (Nat.le_trans hclosings (List.length_take_le' i cs)) h
  · exact Nat.lt_of_le_of_lt (Nat.le_trans hopenings (List.length_take_le' i cs)) h

/-- Whether a space cuts depends on nothing behind it. -/
theorem isCut_append_left (h : i < p.length) : IsCut (p ++ q) i ↔ IsCut p i := by
  rw [IsCut, IsCut, List.getElem?_append_left h, List.take_append_of_le_length (Nat.le_of_lt h)]

theorem isCut_take (h : i < j) : IsCut (cs.take j) i ↔ IsCut cs i := by
  rw [IsCut, IsCut, List.getElem?_take_of_lt h, List.take_take, Nat.min_eq_left (Nat.le_of_lt h)]

theorem isCut_append_length :
    IsCut (p ++ c :: q) p.length ↔ c = ' ' ∧ (Nesting.after p).Closed := by
  rw [IsCut, Nesting.closed_after_iff, List.take_left]
  simp

theorem IsCut.lt_length (h : IsCut cs i) : i < cs.length :=
  (List.getElem?_eq_some_iff.1 h.1).1

/-- A cut takes the line apart. -/
theorem IsCut.eq_append (h : IsCut cs i) :
    cs = cs.take i ++ ' ' :: cs.drop (i + 1) ∧ (Nesting.after (cs.take i)).Closed := by
  refine ⟨?_, Nesting.closed_after_iff.2 h.2⟩
  obtain ⟨hlt, hc⟩ := List.getElem?_eq_some_iff.1 h.1
  rw [← hc, ← List.drop_eq_getElem_cons hlt, List.take_append_drop]

/-- A stretch behind `p` is uncut for the scanner exactly if there are no cuts in it. -/
theorem uncut_after_iff :
    (Nesting.after p).Uncut w ↔ ∀ i, p.length ≤ i → ¬ IsCut (p ++ w) i := by
  induction w generalizing p with
  | nil =>
    refine iff_of_true trivial fun i hle hcut => ?_
    have hlt := hcut.lt_length
    rw [List.append_nil] at hlt
    omega
  | cons c w ih =>
    -- The first character of the stretch is at the end of what stands in front of it.
    have hfirst : (Nesting.after p).cutsAt c = false ↔ ¬ IsCut (p ++ c :: w) p.length := by
      rw [isCut_append_length, ← Nesting.cutsAt_eq_true_iff, Bool.not_eq_true]
    rw [Nesting.Uncut, ← Nesting.after_concat, ih, hfirst, List.length_append,
      List.length_singleton, ← List.append_cons]
    constructor
    · rintro ⟨hhere, hlater⟩ i hle
      rcases Nat.eq_or_lt_of_le hle with rfl | hlt
      · exact hhere
      · exact hlater i hlt
    · exact fun h => ⟨h _ (Nat.le_refl _), fun i hlt => h i (Nat.le_of_lt hlt)⟩

theorem withoutCuts_concat (cs : List Char) (c : Char) :
    withoutCuts (cs ++ [c]) =
      withoutCuts cs ++ if (Nesting.after cs).cutsAt c then [] else [c] := by
  have hfront : cs.zipIdx.filter (fun entry => ¬ IsCut (cs ++ [c]) entry.2) =
      cs.zipIdx.filter fun entry => ¬ IsCut cs entry.2 := by
    refine List.filter_congr fun entry hentry => ?_
    have hlt : entry.2 < cs.length := by simpa using (List.mem_zipIdx hentry).2.1
    exact decide_eq_decide.2 (not_congr (isCut_append_left hlt))
  have hlast : IsCut (cs ++ [c]) cs.length ↔ (Nesting.after cs).cutsAt c = true := by
    rw [isCut_append_length, Nesting.cutsAt_eq_true_iff]
  rw [withoutCuts, withoutCuts, List.zipIdx_append, List.filter_append, List.map_append, hfront]
  cases hcuts : (Nesting.after cs).cutsAt c <;> simp [hlast, hcuts]

/-! ## Pieces and cuts -/

/-- Reading on behind `p` goes on with its last piece. -/
theorem exists_segments_append (state : Nesting) (p q : List Char) :
    ∃ front last first back, segments state p = front ++ [last] ∧
      segments (p.foldl Nesting.advance state) q = first :: back ∧
      segments state (p ++ q) = front ++ (last ++ first) :: back := by
  induction p generalizing state with
  | nil =>
    obtain ⟨first, back, heq, -⟩ := exists_segments_eq state q
    exact ⟨[], [], first, back, rfl, heq, heq⟩
  | cons c p ih =>
    obtain ⟨front, last, first, back, hp, hq, happend⟩ := ih (state.advance c)
    rw [List.cons_append, segments, segments, hp, happend]
    split
    · exact ⟨[] :: front, last, first, back, rfl, hq, rfl⟩
    · -- The character goes to the first piece, which may be the last one too.
      cases front with
      | nil => exact ⟨[], c :: last, first, back, rfl, hq, rfl⟩
      | cons piece front => exact ⟨(c :: piece) :: front, last, first, back, rfl, hq, rfl⟩

theorem segments_of_uncut {state : Nesting} (h : state.Uncut w) : segments state w = [w] := by
  have hw := segments_append w [] h
  rwa [List.append_nil, segments, foldr_extendFirst, List.append_nil] at hw

/-- A stretch without cuts goes to the last piece of what precedes it. -/
theorem exists_segments_append_of_uncut (h : (Nesting.after p).Uncut w) :
    ∃ front last, segments {} p = front ++ [last] ∧
      segments {} (p ++ w) = front ++ [last ++ w] := by
  obtain ⟨front, last, first, back, hp, hw, happend⟩ := exists_segments_append {} p w
  obtain ⟨rfl, rfl⟩ := List.cons.inj ((segments_of_uncut h).symm.trans hw)
  exact ⟨front, last, hp, happend⟩

/-- The line behind a cut is read as from the beginning. -/
theorem tokenChars_append_cut (h : (Nesting.after p).Closed) (q : List Char) :
    tokenChars (p ++ ' ' :: q) = tokenChars p ++ tokenChars q := by
  obtain ⟨front, last, first, back, hp, hq, happend⟩ := exists_segments_append {} p (' ' :: q)
  change segments (Nesting.after p) (' ' :: q) = _ at hq
  rw [segments, if_pos (Nesting.cutsAt_eq_true_iff.2 ⟨rfl, h⟩),
    segments_of_closed h.advance_space] at hq
  obtain ⟨rfl, rfl⟩ := List.cons.inj hq
  rw [tokenChars, happend, List.append_nil, List.append_cons, ← hp, List.filter_append]
  rfl

theorem flatten_tokenChars (cs : List Char) : (tokenChars cs).flatten = (segments {} cs).flatten :=
  List.flatten_filter_not_isEmpty

/-- The tokens together are the line without its cuts. -/
theorem flatten_tokenChars_eq_withoutCuts (cs : List Char) :
    (tokenChars cs).flatten = withoutCuts cs := by
  rw [flatten_tokenChars]
  induction cs using List.reverseRecOn with
  | nil => rfl
  | append_singleton cs c ih =>
    obtain ⟨front, last, first, back, hcs, hlast, happend⟩ := exists_segments_append {} cs [c]
    change segments (Nesting.after cs) [c] = _ at hlast
    have hflat : (first :: back).flatten = if (Nesting.after cs).cutsAt c then [] else [c] := by
      rw [← hlast, segments]
      split <;> rfl
    rw [withoutCuts_concat, ← ih, hcs, happend, ← hflat]
    simp

/-- A stretch without cuts lies in one token. In front of it stand the characters of all tokens of
what precedes it. -/
theorem exists_token_of_uncut (h : (Nesting.after p).Uncut w) (hne : w ≠ []) (q : List Char) :
    ∃ front before after back, tokenChars (p ++ w ++ q) = front ++ (before ++ w ++ after) :: back ∧
      front.flatten ++ before = (tokenChars p).flatten := by
  obtain ⟨front, last, hp, happend⟩ := exists_segments_append_of_uncut h
  obtain ⟨front', last', after, back, hpw, -, hall⟩ := exists_segments_append {} (p ++ w) q
  obtain ⟨rfl, hlast⟩ := List.append_inj' (hpw.symm.trans happend) rfl
  obtain rfl := List.singleton_inj.1 hlast
  refine ⟨front'.filter (!·.isEmpty), last, after, back.filter (!·.isEmpty), ?_, ?_⟩
  · rw [tokenChars, hall, List.filter_append, List.filter_cons_of_pos (by simp [hne])]
  · rw [flatten_tokenChars, hp, List.flatten_filter_not_isEmpty]
    simp

/-! ## Tokens and positions -/

/-- The number of the piece that holds the character at a place of all pieces together. -/
def pieceNumber : List (List Char) → Nat → Nat
  | [], _ => 0
  | piece :: rest, place =>
    if place < piece.length then 0 else pieceNumber rest (place - piece.length) + 1

theorem pieceNumber_append_lt {front : List (List Char)} {place : Nat}
    (h : place < front.flatten.length) (back : List (List Char)) :
    pieceNumber (front ++ back) place < front.length := by
  induction front generalizing place with
  | nil => simp at h
  | cons piece front ih =>
    rw [List.flatten_cons, List.length_append] at h
    rw [List.cons_append, pieceNumber, List.length_cons]
    split
    · omega
    · exact Nat.succ_lt_succ (ih (by omega))

theorem le_pieceNumber_append {front : List (List Char)} {place : Nat}
    (h : front.flatten.length ≤ place) (back : List (List Char)) :
    front.length ≤ pieceNumber (front ++ back) place := by
  induction front generalizing place with
  | nil => exact Nat.zero_le _
  | cons piece front ih =>
    rw [List.flatten_cons, List.length_append] at h
    rw [List.cons_append, pieceNumber, if_neg (by omega), List.length_cons]
    exact Nat.succ_le_succ (ih (by omega))

/-- The characters of one piece have its number. -/
theorem pieceNumber_append_cons {front : List (List Char)} {piece : List Char} {place : Nat}
    (h : front.flatten.length ≤ place) (hlt : place < front.flatten.length + piece.length)
    (back : List (List Char)) : pieceNumber (front ++ piece :: back) place = front.length := by
  have hle := le_pieceNumber_append h (piece :: back)
  have hsucc : pieceNumber (front ++ [piece] ++ back) place < (front ++ [piece]).length :=
    pieceNumber_append_lt (by simpa using hlt) back
  rw [← List.append_cons, List.length_append, List.length_singleton] at hsucc
  omega

/-- How many characters in front of position `i` are no cuts. -/
def rank (cs : List Char) (i : Nat) : Nat :=
  (List.range i).countP fun k => ¬ IsCut cs k

/-- The number of the token into which the character at position `i` falls, if it is no cut. -/
def tokenOf (s : String) (i : Nat) : Nat :=
  pieceNumber ((tokenize s).map String.toList) (rank s.toList i)

theorem map_toList_tokenize (s : String) :
    (tokenize s).map String.toList = tokenChars s.toList := by
  simp [tokenize, Function.comp_def]

theorem length_flatten_tokenChars_take (h : i ≤ cs.length) :
    (tokenChars (cs.take i)).flatten.length = rank cs i := by
  have hpositions : (cs.take i).zipIdx.map Prod.snd = List.range i := by
    rw [List.zipIdx_map_snd, List.length_take, Nat.min_eq_left h, List.range_eq_range']
  rw [flatten_tokenChars_eq_withoutCuts, withoutCuts, List.length_map,
    ← List.countP_eq_length_filter, rank, ← hpositions, List.countP_map]
  refine List.countP_congr fun entry hentry => ?_
  have hlt : entry.2 < i := by
    have := (List.mem_zipIdx hentry).2.1
    rw [List.length_take] at this
    omega
  simp [isCut_take hlt]

theorem rank_succ (cs : List Char) (i : Nat) :
    rank cs (i + 1) = rank cs i + if IsCut cs i then 0 else 1 := by
  rw [rank, List.range_succ, List.countP_append, rank]
  by_cases hcut : IsCut cs i <;> simp [hcut]

theorem rank_le_rank (hij : i ≤ j) : rank cs i ≤ rank cs j := by
  induction hij with
  | refl => exact Nat.le_refl _
  | step _ ih =>
    rw [rank_succ]
    omega

theorem rank_lt_rank (hi : ¬ IsCut cs i) (hij : i < j) : rank cs i < rank cs j := by
  have hle : rank cs (i + 1) ≤ rank cs j := rank_le_rank hij
  rw [rank_succ, if_neg hi] at hle
  exact hle

theorem rank_add_of_uncut {n : Nat} (h : ∀ k, i ≤ k → k < i + n → ¬ IsCut cs k) :
    rank cs (i + n) = rank cs i + n := by
  induction n with
  | zero => rfl
  | succ n ih =>
    rw [← Nat.add_assoc, rank_succ, if_neg (h (i + n) (by omega) (by omega)),
      ih fun k hle hlt => h k hle (by omega), Nat.add_assoc]

/-- Characters with a cut between them fall into different tokens. -/
theorem pieceNumber_lt_of_cut (hi : ¬ IsCut cs i) (hik : i < k) (hk : IsCut cs k) (hkj : k < j) :
    pieceNumber (tokenChars cs) (rank cs i) < pieceNumber (tokenChars cs) (rank cs j) := by
  obtain ⟨hcs, hclosed⟩ := hk.eq_append
  have htokens : tokenChars cs = tokenChars (cs.take k) ++ tokenChars (cs.drop (k + 1)) := by
    rw [← tokenChars_append_cut hclosed, ← hcs]
  have hlength := length_flatten_tokenChars_take (Nat.le_of_lt hk.lt_length)
  rw [htokens]
  calc pieceNumber (tokenChars (cs.take k) ++ tokenChars (cs.drop (k + 1))) (rank cs i)
      < (tokenChars (cs.take k)).length :=
        pieceNumber_append_lt (hlength ▸ rank_lt_rank hi hik) _
    _ ≤ pieceNumber (tokenChars (cs.take k) ++ tokenChars (cs.drop (k + 1))) (rank cs j) :=
        le_pieceNumber_append (hlength ▸ rank_le_rank (Nat.le_of_lt hkj)) _

/-- Characters without a cut from one to the other fall into one token. -/
theorem pieceNumber_eq_of_uncut (hij : i < j) (hj : j < cs.length)
    (h : ∀ k, i ≤ k → k ≤ j → ¬ IsCut cs k) :
    pieceNumber (tokenChars cs) (rank cs i) = pieceNumber (tokenChars cs) (rank cs j) := by
  have hstretch : cs.take i ++ (cs.take (j + 1)).drop i = cs.take (j + 1) := by
    have hsplit := List.take_append_drop i (cs.take (j + 1))
    rwa [List.take_take, Nat.min_eq_left (by omega)] at hsplit
  have hlength : ((cs.take (j + 1)).drop i).length = j + 1 - i := by
    rw [List.length_drop, List.length_take, Nat.min_eq_left hj]
  have huncut : (Nesting.after (cs.take i)).Uncut ((cs.take (j + 1)).drop i) := by
    rw [uncut_after_iff, hstretch, List.length_take, Nat.min_eq_left (by omega)]
    intro k hik hcut
    have hkj := hcut.lt_length
    rw [List.length_take, Nat.min_eq_left hj] at hkj
    exact h k hik (by omega) ((isCut_take hkj).1 hcut)
  obtain ⟨front, before, after, back, htokens, hfront⟩ :=
    exists_token_of_uncut huncut (List.ne_nil_of_length_pos (by omega)) (cs.drop (j + 1))
  rw [hstretch, List.take_append_drop] at htokens
  -- Both characters stand behind `front` and `before`, and within the stretch.
  have hrank : rank cs i = front.flatten.length + before.length := by
    rw [← length_flatten_tokenChars_take (by omega), ← hfront, List.length_append]
  have hrank' : rank cs j = rank cs i + (j - i) := by
    have hadd := rank_add_of_uncut (n := j - i) fun k hle hlt => h k hle (by omega)
    rwa [Nat.add_sub_cancel' (Nat.le_of_lt hij)] at hadd
  have htoken : (before ++ (cs.take (j + 1)).drop i ++ after).length =
      before.length + (j + 1 - i) + after.length := by
    rw [List.length_append, List.length_append, hlength]
  rw [htokens, pieceNumber_append_cons (by omega) (by omega),
    pieceNumber_append_cons (by omega) (by omega)]

/-- Cutting a line loses nothing but the cuts and depends on nothing but the tokens. No token is
empty, and together they are the line without its cuts. Two characters that are left fall into
different tokens exactly if there is a cut between them. Tokens of a line that are joined by single
spaces, whether or not they stood next to each other, are cut into the same tokens again. Unless the
line is too long to be counted with 32 bits, the cuts are the spaces outside quotes in front of
which as many brackets are closed as opened. -/
theorem tokenize_exact (s : String) :
    (∀ token ∈ tokenize s, token ≠ "") ∧
    String.join (tokenize s) = String.ofList (withoutCuts s.toList) ∧
    (∀ i j, i < j → j < s.length → ¬ IsCut s.toList i → ¬ IsCut s.toList j →
      (tokenOf s i ≠ tokenOf s j ↔ ∃ k, i < k ∧ k < j ∧ IsCut s.toList k)) ∧
    (∀ part : List String, part.Sublist (tokenize s) → tokenize (" ".intercalate part) = part) ∧
    (s.length < Int32.size → ∀ i, IsCut s.toList i ↔ s.toList[i]? = some ' ' ∧
      openQuote? (s.toList.take i) = none ∧
      openings (s.toList.take i) = closings (s.toList.take i)) := by
  have htokens : AreTokens (tokenize s) := areTokens_tokenChars s.toList
  refine ⟨fun token htoken hempty => htokens.ne_empty (hempty ▸ htoken), ?_, ?_, ?_, ?_⟩
  · rw [← String.toList_inj, String.toList_join, String.toList_ofList, List.flatMap_def,
      map_toList_tokenize, flatten_tokenChars_eq_withoutCuts]
  -- Characters with no cut between them stay in one piece, and a cut ends a piece.
  · intro i j hij hj hi hj'
    rw [tokenOf, tokenOf, map_toList_tokenize]
    constructor
    · intro hne
      by_contra hnone
      refine hne (pieceNumber_eq_of_uncut hij (s.length_toList.symm ▸ hj) fun k hik hkj hcut => ?_)
      rcases Nat.eq_or_lt_of_le hik with rfl | hik
      · exact hi hcut
      rcases Nat.eq_or_lt_of_le hkj with rfl | hkj
      · exact hj' hcut
      · exact hnone ⟨k, hik, hkj, hcut⟩
    · rintro ⟨k, hik, hkj, hcut⟩
      exact Nat.ne_of_lt (pieceNumber_lt_of_cut hi hik hcut hkj)
  · exact fun part hpart => (htokens.of_sublist hpart).tokenize_intercalate
  · exact fun hlength i => isCut_iff_of_length_lt (s.length_toList.symm ▸ hlength)

/-- Neither the spaces between the quotes nor those in the brackets cut, although one of the quote
characters is escaped. -/
theorem tokenize_exact_escapedQuote :
    let s := "say \"a \\\" b\" [c d]  e"
    tokenize s = ["say", "\"a \\\" b\"", "[c d]", "e"] ∧
      tokenOf s 5 = tokenOf s 10 ∧ IsCut s.toList 18 ∧ tokenOf s 10 ≠ tokenOf s 20 ∧
      ["say", "e"].Sublist (tokenize s) ∧
      tokenize (" ".intercalate ["say", "e"]) = ["say", "e"] ∧
      s.length < Int32.size ∧ openings (s.toList.take 18) = closings (s.toList.take 18) := by
  intro s
  have htokens : tokenize s = ["say", "\"a \\\" b\"", "[c d]", "e"] := by decide +kernel
  obtain ⟨-, -, hcuts, hstable, hbalanced⟩ := tokenize_exact s
  have hsame := hcuts 5 10 (by decide) (by decide +kernel) (by decide +kernel) (by decide +kernel)
  have hapart := hcuts 10 20 (by decide) (by decide +kernel) (by decide +kernel) (by decide +kernel)
  have hnone : ∀ k < 10, 5 < k → ¬ IsCut s.toList k := by decide +kernel
  have hcut : IsCut s.toList 18 := by decide +kernel
  have hpart : ["say", "e"].Sublist (tokenize s) := by
    rw [htokens]
    decide
  have hlength : s.length < Int32.size := by decide +kernel
  refine ⟨htokens, ?_, hcut, hapart.2 ⟨18, by decide, by decide, hcut⟩, hpart, hstable _ hpart,
    hlength, ((hbalanced hlength 18).1 hcut).2.2⟩
  by_contra hne
  obtain ⟨k, hlt, hk, hcut⟩ := hsame.1 hne
  exact hnone k hk hlt hcut

end CommandGraph.Dump
