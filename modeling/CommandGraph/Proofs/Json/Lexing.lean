import CommandGraph.Json.Printer
import CommandGraph.Json.Reader
import CommandGraph.Proofs.Json.Ordered

/-!
# The words of printed JSON text

What the printer writes for numbers and strings is read back as the numeral or the string it was
written for, up to where it ends. For whole numbers and strings this is proved outright. For doubles
it is a condition on the double, `Double.Finite.ReadsBack`, since reading by scaling may miss the
last digit.
-/

namespace CommandGraph

/-! ## Numerals -/

namespace Numeral

/-- A text does not start with anything that could belong to a numeral in front of it. -/
def Ends (rest : List Char) : Prop :=
  ∀ c ∈ rest.head?, isDigit c = false ∧ c ≠ '.' ∧ c ≠ 'e' ∧ c ≠ 'E'

variable {cs rest left : List Char}

/-- Digits are taken up to where they end. -/
theorem spanDigits_append (h : Ends rest) :
    spanDigits (cs ++ rest) = ((spanDigits cs).1, (spanDigits cs).2 ++ rest) := by
  induction cs with
  | nil =>
    cases rest with
    | nil => rfl
    | cons c rest =>
      have hc := (h c rfl).1
      simp [spanDigits, hc]
  | cons c cs ih =>
    rw [spanDigits, spanDigits, Prod.mk.injEq] at ih
    by_cases hc : isDigit c
    · simp [spanDigits, hc, ih.1, ih.2]
    · simp [spanDigits, hc]

/-- What stands before the point: all digits in front, if there are any and no needless zero. -/
theorem scanWhole_eq_some_iff {whole : List Char} :
    scanWhole cs = some (whole, left) ↔
      spanDigits cs = (whole, left) ∧ whole ≠ [] ∧ ∀ d ds, whole ≠ '0' :: d :: ds := by
  unfold scanWhole
  split <;> grind

/-- What stands after a point: all digits there, if there are any. -/
theorem scanFraction_point_eq_some_iff {fraction : List Char} :
    scanFraction ('.' :: cs) = some (fraction, left) ↔
      spanDigits cs = (fraction, left) ∧ fraction ≠ [] := by
  rw [scanFraction]
  split <;> grind

/-- Without a point there is nothing after it. -/
theorem scanFraction_of_ne (h : ∀ c ∈ cs.head?, c ≠ '.') : scanFraction cs = some ([], cs) := by
  unfold scanFraction
  split
  · exact absurd rfl (h '.' rfl)
  · rfl

/-- Without a mark there is no exponent. -/
theorem scanExponent_of_ne (h : ∀ c ∈ cs.head?, c ≠ 'e' ∧ c ≠ 'E') :
    scanExponent cs = some (none, cs) := by
  cases cs with
  | nil => rfl
  | cons c cs => simp [scanExponent, h c rfl]

/-- A sign is read if there is anything to read at all. -/
theorem scanSign_append (h : cs ≠ []) :
    scanSign (cs ++ rest) = ((scanSign cs).1, (scanSign cs).2 ++ rest) := by
  cases cs with
  | nil => exact absurd rfl h
  | cons c cs =>
    by_cases hminus : c = '-'
    · rw [hminus]
      rfl
    · by_cases hplus : c = '+'
      · rw [hplus]
        rfl
      · simp [scanSign, hminus, hplus]

/-- So is a minus sign. -/
theorem scanMinus_append (h : cs ≠ []) :
    scanMinus (cs ++ rest) = ((scanMinus cs).1, (scanMinus cs).2 ++ rest) := by
  cases cs with
  | nil => exact absurd rfl h
  | cons c cs =>
    by_cases hminus : c = '-'
    · rw [hminus]
      rfl
    · simp [scanMinus, hminus]

/-- The exponent is read up to where the numeral ends. -/
theorem scanExponent_append (h : Ends rest) {e : Option Int}
    (hs : scanExponent cs = some (e, left)) :
    scanExponent (cs ++ rest) = some (e, left ++ rest) := by
  cases cs with
  | nil =>
    cases hs
    exact scanExponent_of_ne fun c hc => (h c hc).2.2
  | cons c cs =>
    simp only [List.cons_append, scanExponent] at hs ⊢
    split at hs
    next hmark =>
      rw [if_pos hmark]
      -- After a mark there are digits, so the text does not end where a sign could still follow.
      have hne : cs ≠ [] := by
        rintro rfl
        cases hs
      rw [scanSign_append hne, spanDigits_append h]
      split at hs <;> grind
    next hmark =>
      cases hs
      rw [if_neg hmark]
      rfl

/-- The digits before the point are read up to where the numeral ends. -/
theorem scanWhole_append (h : Ends rest) {whole : List Char}
    (hs : scanWhole cs = some (whole, left)) :
    scanWhole (cs ++ rest) = some (whole, left ++ rest) := by
  rw [scanWhole_eq_some_iff] at hs ⊢
  rw [spanDigits_append h, hs.1]
  exact ⟨rfl, hs.2⟩

/-- So are the digits after it. -/
theorem scanFraction_append (h : Ends rest) {fraction : List Char}
    (hs : scanFraction cs = some (fraction, left)) :
    scanFraction (cs ++ rest) = some (fraction, left ++ rest) := by
  by_cases hpoint : ∀ c ∈ cs.head?, c ≠ '.'
  · rw [scanFraction_of_ne hpoint] at hs
    cases hs
    refine scanFraction_of_ne fun c hc => ?_
    cases cs with
    | nil => exact (h c hc).2.1
    | cons d cs => exact hpoint c hc
  · cases cs with
    | nil => simp at hpoint
    | cons c cs =>
      -- The digits behind the point end where the rest begins.
      obtain rfl : c = '.' := by simpa using hpoint
      rw [List.cons_append]
      rw [scanFraction_point_eq_some_iff] at hs ⊢
      rw [spanDigits_append h, hs.1]
      exact ⟨rfl, hs.2⟩

/-- A numeral is read up to where it ends. -/
theorem scan_append (h : Ends rest) {n : Numeral} (hs : scan cs = some (n, left)) :
    scan (cs ++ rest) = some (n, left ++ rest) := by
  have hne : cs ≠ [] := List.ne_nil_of_length_pos (Nat.zero_lt_of_lt (length_of_scan hs))
  simp only [scan, Option.bind_eq_bind, Option.bind_eq_some_iff, Option.pure_def] at hs
  obtain ⟨⟨whole, a⟩, hwhole, ⟨fraction, b⟩, hfraction, ⟨exponent, d⟩, hexponent, hs⟩ := hs
  simp only [scan, scanMinus_append hne, scanWhole_append h hwhole, scanFraction_append h hfraction,
    scanExponent_append h hexponent, Option.bind_eq_bind, Option.bind_some, Option.pure_def]
  cases hs
  rfl

/-- A list of digits is taken whole. -/
theorem spanDigits_of_all (h : ∀ c ∈ cs, isDigit c) : spanDigits cs = (cs, []) := by
  induction cs with
  | nil => rfl
  | cons c cs ih =>
    obtain ⟨hc, hcs⟩ := List.forall_mem_cons.1 h
    have hspan := ih hcs
    rw [spanDigits, Prod.mk.injEq] at hspan
    simp [spanDigits, hc, hspan.1, hspan.2]

end Numeral

/-! ## Whole numbers -/

/-- The digits of a natural number are digits. -/
theorem isDigit_of_mem_toDigits {n : Nat} {c : Char} (h : c ∈ Nat.toDigits 10 n) : isDigit c := by
  have hc : c.isDigit := Nat.isDigit_of_mem_toDigits (by decide) (by decide) h
  simpa [isDigit, Char.isDigit, Char.le_def] using hc

/-- A positive number does not start with a zero. -/
theorem head?_toDigits_ne {n : Nat} (h : 0 < n) : (Nat.toDigits 10 n).head? ≠ some '0' := by
  induction n using Nat.strongRecOn with
  | ind n ih =>
    by_cases hlt : n < 10
    · rw [Nat.toDigits_of_lt_base hlt]
      have hdigits : ∀ k < 10, 0 < k → Nat.digitChar k ≠ '0' := by decide
      simpa using hdigits n hlt h
    · have hge : 10 ≤ n := Nat.le_of_not_lt hlt
      have hfront := ih (n / 10) (by omega) (by omega)
      obtain ⟨c, cs, hcons⟩ :=
        List.exists_cons_of_ne_nil (Nat.toDigits_ne_nil (n := n / 10) (b := 10))
      rw [Nat.toDigits_of_base_le (by decide) hge, hcons]
      rwa [hcons] at hfront

namespace Whole

/-- The numeral that writes a whole number. -/
def numeral (n : Whole) : Numeral where
  negative := n.val < 0
  whole := Nat.toDigits 10 n.val.natAbs

/-- The digits of a natural number are read as what stands before the point. -/
theorem scanWhole_toDigits (n : Nat) :
    Numeral.scanWhole (Nat.toDigits 10 n) = some (Nat.toDigits 10 n, []) := by
  refine Numeral.scanWhole_eq_some_iff.2
    ⟨Numeral.spanDigits_of_all fun c => isDigit_of_mem_toDigits, Nat.toDigits_ne_nil, ?_⟩
  intro d ds hzero
  rcases Nat.eq_zero_or_pos n with rfl | hpos
  · simp at hzero
  · exact head?_toDigits_ne hpos (by rw [hzero]; rfl)

/-- A whole number is read as its numeral. -/
theorem scan_chars (n : Whole) : Numeral.scan n.chars = some (n.numeral, []) := by
  have hminus : Numeral.scanMinus n.chars =
      (decide (n.val < 0), Nat.toDigits 10 n.val.natAbs) := by
    rw [chars, integerChars]
    split
    next hneg => simp [hneg, Numeral.scanMinus]
    next hneg =>
      rw [List.nil_append, Numeral.scanMinus]
      · simp [hneg]
      · intro rest heq
        have hmem : '-' ∈ Nat.toDigits 10 n.val.natAbs := by rw [heq]; simp
        exact absurd (isDigit_of_mem_toDigits hmem) (by decide)
  simp only [Numeral.scan, hminus, scanWhole_toDigits, Option.bind_eq_bind, Option.bind_some,
    Option.pure_def]
  rfl

/-- The digits of a whole number stand for its magnitude. -/
theorem significand_numeral (n : Whole) : n.numeral.significand = n.val.natAbs := by
  simp [numeral, Numeral.significand]

/-- The numeral of a whole number stands for it. -/
theorem whole?_numeral (n : Whole) : Json.whole? n.numeral = some n := by
  have hnegative : n.numeral.negative = decide (n.val < 0) := rfl
  have hinteger : n.numeral.isInteger = true := rfl
  -- A minus sign in front of zero would make the numeral a double.
  have hsign : (n.numeral.isInteger &&
      !(n.numeral.negative && n.numeral.significand == 0)) = true := by
    rw [hinteger, hnegative, significand_numeral]
    by_cases hzero : n.val = 0 <;> simp [hzero]
  have hvalue : (if n.numeral.negative then -(n.numeral.significand : Int)
      else n.numeral.significand) = n.val := by
    rw [significand_numeral, hnegative]
    by_cases hneg : n.val < 0
    · rw [if_pos (decide_eq_true hneg)]
      omega
    · rw [if_neg (by simpa using hneg)]
      omega
  rw [Json.whole?, if_pos hsign, hvalue, ofInt?, dif_pos ⟨n.lower, n.upper⟩]

/-- So does it as a value. -/
theorem ofNumeral?_numeral (n : Whole) : Json.ofNumeral? n.numeral = some (.whole n) := by
  rw [Json.ofNumeral?, whole?_numeral]

end Whole

/-! ## Doubles -/

namespace Double.Finite

/-- The numeral that the text of a number is read as. -/
def reread (x : Finite) : Numeral :=
  ((Numeral.scan x.numeral.chars).map Prod.fst).getD x.numeral

/-- What is written for a number is read back as the same number. -/
def ReadsBack (x : Finite) : Prop :=
  Numeral.scan x.numeral.chars = some (x.reread, []) ∧ Json.ofNumeral? x.reread = some (.double x)

/-- Whether a given double was read can be decided, though equality of values is left undecided. -/
instance : (value : Option Json) → (x : Finite) →
    Decidable (value = some (.double x))
  | some (.double y), x => decidable_of_iff (y = x) (by simp)
  | none, _ | some .null, _ | some (.bool _), _ | some (.whole _), _ | some (.string _), _
  | some (.array _), _ | some (.object _), _ => isFalse (by simp)

instance (x : Finite) : Decidable x.ReadsBack :=
  inferInstanceAs (Decidable (_ ∧ _))

end Double.Finite

/-! ## Strings -/

namespace Json

/-- The element that a character is written as. -/
def writtenPart (c : Char) : StringPart :=
  if c.toNat < 0x20 ∧ c ∉ ['\x08', '\t', '\n', '\x0c', '\r'] then .unit c.toNat else .char c

/-- The elements that a text is written as. -/
def writtenParts (s : String) : List StringPart :=
  s.toList.map writtenPart

/-- A control character without short form is written with two significant digits. -/
theorem hexUnit?_hexByte : ∀ n < 0x20,
    hexUnit? '0' '0' (Nat.digitChar (n / 16)) (Nat.digitChar (n % 16)) = some n := by
  decide

/-- What is written for a character is read as its element. -/
theorem scanString_escapeChar (c : Char) (done : List StringPart) (rest : List Char) :
    scanString done (escapeChar c ++ rest) = scanString (writtenPart c :: done) rest := by
  -- Seven characters have a short form; of the others, control characters are written as numbers.
  unfold escapeChar
  split
  next hc => subst hc; rfl
  next hquote =>
  split
  next hc => subst hc; rfl
  next hbackslash =>
  split
  next hc => subst hc; rfl
  next hb =>
  split
  next hc => subst hc; rfl
  next ht =>
  split
  next hc => subst hc; rfl
  next hn =>
  split
  next hc => subst hc; rfl
  next hf =>
  split
  next hc => subst hc; rfl
  next hr =>
  split
  next hlow =>
    have hpart : writtenPart c = .unit c.toNat := by simp [writtenPart, hlow, hb, ht, hn, hf, hr]
    simp only [hexByte, List.cons_append, List.nil_append, scanString, hexUnit?_hexByte _ hlow,
      hpart]
  next hlow =>
    have hpart : writtenPart c = .char c := by simp [writtenPart, hlow]
    simp [scanString, hbackslash, hlow, hpart]

/-- What is written for a text is read up to the closing quote. -/
theorem scanString_flatMap_escapeChar (cs : List Char) (done : List StringPart)
    (rest : List Char) :
    scanString done (cs.flatMap escapeChar ++ '"' :: rest) =
      some (done.reverse ++ cs.map writtenPart, rest) := by
  induction cs generalizing done with
  | nil => simp [scanString]
  | cons c cs ih =>
    rw [List.flatMap_cons, List.append_assoc, scanString_escapeChar, ih]
    simp

/-- An element that a character is written as stands for the character. -/
theorem decodeParts_writtenPart (c : Char) (done : List Char) (rest : List StringPart) :
    decodeParts done (writtenPart c :: rest) = decodeParts (c :: done) rest := by
  unfold writtenPart
  split
  next hlow =>
    have hchar : Char.ofNat c.toNat = c := Char.ofNat_toNat c
    have hhigh : isHighSurrogate c.toNat = false := by simp [isHighSurrogate]; omega
    have hsurrogate : isLowSurrogate c.toNat = false := by simp [isLowSurrogate]; omega
    rcases rest with _ | ⟨⟨d⟩ | ⟨low⟩, rest⟩ <;>
      simp [decodeParts, hhigh, hsurrogate, hchar]
  · rfl

/-- The elements that a text is written as stand for the text. -/
theorem decodeText?_writtenParts (s : String) : decodeText? (writtenParts s) = some s := by
  have hparts : ∀ (cs done : List Char),
      decodeParts done (cs.map writtenPart) = some (done.reverse ++ cs) := by
    intro cs
    induction cs with
    | nil => simp [decodeParts]
    | cons c cs ih =>
      intro done
      rw [List.map_cons, decodeParts_writtenPart, ih]
      simp
  rw [decodeText?, writtenParts, hparts]
  simp

/-! ## Tokens -/

mutual

/-- The tree of the text of a value. -/
def raw : Json → Raw
  | null => .null
  | bool b => .bool b
  | whole n => .number n.numeral
  | double x => .number x.reread
  | string s => .string (writtenParts s)
  | array items => .array (rawItems items)
  | object members => .object (rawMembers members)

/-- The trees of the items of an array. -/
def rawItems : List Json → List Raw
  | [] => []
  | item :: rest => raw item :: rawItems rest

/-- The trees of the members of an object, with their keys as written. -/
def rawMembers : List (String × Json) → List (List StringPart × Raw)
  | [] => []
  | (key, value) :: rest => (writtenParts key, raw value) :: rawMembers rest

end

mutual

/-- The tokens of a tree. -/
def Raw.tokens : Raw → List Token
  | .null => [.null]
  | .bool b => [.bool b]
  | .number n => [.number n]
  | .string parts => [.string parts]
  | .array items => .openArray :: tokensOfItems items ++ [.closeArray]
  | .object members => .openObject :: tokensOfMembers members ++ [.closeObject]

/-- The tokens of the items of an array, with commas between them. -/
def Raw.tokensOfItems : List Raw → List Token
  | [] => []
  | item :: rest => tokens item ++ (if rest.isEmpty then [] else .comma :: tokensOfItems rest)

/-- The tokens of the members of an object, with commas between them. -/
def Raw.tokensOfMembers : List (List StringPart × Raw) → List Token
  | [] => []
  | (key, value) :: rest =>
    .string key :: .colon :: tokens value
      ++ (if rest.isEmpty then [] else .comma :: tokensOfMembers rest)

end

/-- A layout puts nothing but blanks between tokens. -/
structure Layout.IsBlank (layout : Layout) : Prop where
  /-- Before items, members and closing brackets. -/
  lineStart : ∀ depth, ∀ c ∈ layout.lineStart depth, isSpace c
  /-- After colons. -/
  afterColon : ∀ c ∈ layout.afterColon, isSpace c

/-- The pretty layout has line ends and spaces. -/
theorem Layout.isBlank_pretty : Layout.pretty.IsBlank where
  lineStart depth c h := by
    rcases List.mem_cons.1 h with rfl | h
    · rfl
    · rw [List.eq_of_mem_replicate h]
      rfl
  afterColon c h := by
    rw [List.mem_singleton.1 h]
    rfl

variable {done : List Token} {cs rest : List Char}

/-- Blanks are passed over. -/
theorem scanTokens_blanks {blanks : List Char} (h : ∀ c ∈ blanks, isSpace c) :
    scanTokens done (blanks ++ cs) = scanTokens done cs := by
  induction blanks with
  | nil => rfl
  | cons c blanks ih =>
    obtain ⟨hc, hblanks⟩ := List.forall_mem_cons.1 h
    rw [List.cons_append, scanTokens, if_pos hc, ih hblanks]

/-- A token in front is read. -/
theorem scanTokens_of_scanToken {c : Char} {t : Token} (hc : isSpace c = false)
    (h : scanToken (c :: cs) = some (t, rest)) :
    scanTokens done (c :: cs) = scanTokens (t :: done) rest := by
  rw [scanTokens, if_neg (by simp [hc])]
  split
  next heq => cases heq.symm.trans h
  next heq =>
    cases heq.symm.trans h
    rfl

/-- A numeral starts with a minus sign or a digit. -/
theorem head_of_scan {n : Numeral} (h : Numeral.scan cs = some (n, rest)) :
    ∃ c tail, cs = c :: tail ∧ (c = '-' ∨ isDigit c) := by
  cases cs with
  | nil => cases h
  | cons c tail =>
    refine ⟨c, tail, rfl, ?_⟩
    by_cases hminus : c = '-'
    · exact .inl hminus
    · right
      simp only [Numeral.scan, Option.bind_eq_bind, Option.bind_eq_some_iff] at h
      obtain ⟨⟨whole, left⟩, hwhole, -⟩ := h
      -- Without a sign the digits come first, and there is at least one.
      have hcs : (Numeral.scanMinus (c :: tail)).2 = c :: tail := by
        simp [Numeral.scanMinus, hminus]
      rw [hcs, Numeral.scanWhole_eq_some_iff] at hwhole
      cases hdigit : isDigit c with
      | true => rfl
      | false =>
        have hspan := congrArg Prod.fst hwhole.1
        exact absurd (by simpa [Numeral.spanDigits, hdigit, eq_comm] using hspan) hwhole.2.1

/-- What blanks, and tokens other than numerals, start with. -/
def tokenStarts : List Char :=
  [' ', '\t', '\n', '\r', '[', ']', '\x7b', '\x7d', ',', ':', 'n', 't', 'f', '"']

/-- A numeral is read as a token. -/
theorem scanTokens_numeral {n : Numeral} (h : Numeral.scan cs = some (n, rest)) :
    scanTokens done cs = scanTokens (.number n :: done) rest := by
  obtain ⟨c, tail, rfl, hc⟩ := head_of_scan h
  have hstart : c ∉ tokenStarts := by
    have hall : tokenStarts.all fun d => d != '-' && !isDigit d := by decide
    intro hmem
    have hboth : c ≠ '-' ∧ isDigit c = false := by simpa using List.all_eq_true.1 hall c hmem
    rcases hc with rfl | hc
    · exact hboth.1 rfl
    · cases hc.symm.trans hboth.2
  simp only [tokenStarts, List.mem_cons, List.not_mem_nil, not_or] at hstart
  -- All branches for other tokens start with a character that is excluded.
  have htoken : scanToken (c :: tail) = some (.number n, rest) := by
    unfold scanToken
    split <;> simp_all
  exact scanTokens_of_scanToken (by simp [isSpace, hstart]) htoken

/-- A quoted text is read as a token. -/
theorem scanTokens_quote (s : String) :
    scanTokens done (quote s ++ rest) = scanTokens (.string (writtenParts s) :: done) rest := by
  rw [quote, List.cons_append, List.cons_append, List.append_assoc]
  refine scanTokens_of_scanToken (by decide) ?_
  rw [scanToken, List.singleton_append, scanString_flatMap_escapeChar]
  rfl

/-- Blanks, commas and closing brackets end a numeral. -/
theorem ends_cons {c : Char} (h : c ∈ [' ', '\t', '\n', '\r', ',', ']', '\x7d']) :
    Numeral.Ends (c :: rest) := by
  have hall : [' ', '\t', '\n', '\r', ',', ']', '\x7d'].all fun d =>
      !isDigit d && d != '.' && d != 'e' && d != 'E' := by decide
  intro d hd
  obtain rfl : c = d := by simpa using hd
  simpa [and_assoc] using List.all_eq_true.1 hall c h

/-- What ends a numeral also ends it after blanks. -/
theorem ends_blanks_append {blanks : List Char} (h : ∀ c ∈ blanks, isSpace c)
    (hrest : Numeral.Ends rest) : Numeral.Ends (blanks ++ rest) := by
  cases blanks with
  | nil => exact hrest
  | cons c blanks =>
    have hc := h c List.mem_cons_self
    refine ends_cons ?_
    simp only [isSpace, Bool.or_eq_true, beq_iff_eq] at hc
    rcases hc with ((rfl | rfl) | rfl) | rfl <;> simp

/-- The end of a text ends a numeral. -/
theorem ends_nil : Numeral.Ends [] := by
  intro c hc
  cases hc

section Printed

variable {layout : Layout} (hl : layout.IsBlank)

include hl

-- The text goes on with anything that could not be part of a numeral: an item or a value is
-- followed by a comma, or by blanks and a closing bracket.
mutual

/-- The text of a value is read as the tokens of its tree. -/
theorem scanTokens_charsAt (depth : Nat) : ∀ (v : Json) (done : List Token) (rest : List Char),
    (∀ x ∈ v.doubles, x.ReadsBack) → Numeral.Ends rest →
    scanTokens done (charsAt layout depth v ++ rest) =
      scanTokens (v.raw.tokens.reverse ++ done) rest
  | null, _, _, _, _ => scanTokens_of_scanToken (by decide) rfl
  | bool true, _, _, _, _ => scanTokens_of_scanToken (by decide) rfl
  | bool false, _, _, _, _ => scanTokens_of_scanToken (by decide) rfl
  | whole n, _, _, _, hrest => scanTokens_numeral (Numeral.scan_append hrest n.scan_chars)
  | double x, _, _, hdoubles, hrest =>
    -- The only case in which the condition on doubles is used.
    scanTokens_numeral (Numeral.scan_append hrest (hdoubles x (by simp [doubles])).1)
  | string s, _, _, _, _ => scanTokens_quote s
  | array [], _, _, _, _ => by
    rw [charsAt, List.cons_append, scanTokens_of_scanToken (by decide) rfl, List.cons_append,
      scanTokens_of_scanToken (by decide) rfl]
    rfl
  | array (item :: more), done, rest, hdoubles, _ => by
    rw [charsAt, List.cons_append, List.cons_append, List.cons_append,
      scanTokens_of_scanToken (by decide) rfl, List.append_assoc, List.append_assoc,
      List.singleton_append, scanTokens_charsOfItems (depth + 1) (item :: more) _ _ hdoubles
        (ends_blanks_append (hl.lineStart depth) (ends_cons (by simp))),
      scanTokens_blanks (hl.lineStart depth), scanTokens_of_scanToken (by decide) rfl]
    simp [raw, Raw.tokens]
  | object [], _, _, _, _ => by
    rw [charsAt, List.cons_append, scanTokens_of_scanToken (by decide) rfl, List.cons_append,
      scanTokens_of_scanToken (by decide) rfl]
    rfl
  | object (member :: more), done, rest, hdoubles, _ => by
    rw [charsAt, List.cons_append, List.cons_append, List.cons_append,
      scanTokens_of_scanToken (by decide) rfl, List.append_assoc, List.append_assoc,
      List.singleton_append, scanTokens_charsOfMembers (depth + 1) (member :: more) _ _ hdoubles
        (ends_blanks_append (hl.lineStart depth) (ends_cons (by simp))),
      scanTokens_blanks (hl.lineStart depth), scanTokens_of_scanToken (by decide) rfl]
    simp [raw, Raw.tokens]

/-- So is the text of the items of an array. -/
theorem scanTokens_charsOfItems (depth : Nat) :
    ∀ (items : List Json) (done : List Token) (rest : List Char),
    (∀ x ∈ doublesOfItems items, x.ReadsBack) → Numeral.Ends rest →
    scanTokens done (charsOfItems layout depth items ++ rest) =
      scanTokens ((Raw.tokensOfItems (rawItems items)).reverse ++ done) rest
  | [], _, _, _, _ => rfl
  | [item], done, rest, hdoubles, hrest => by
    rw [doublesOfItems, doublesOfItems, List.append_nil] at hdoubles
    rw [charsOfItems, List.isEmpty_nil, if_pos rfl, List.append_nil, List.append_assoc,
      scanTokens_blanks (hl.lineStart depth), scanTokens_charsAt depth item _ _ hdoubles hrest]
    simp [rawItems, Raw.tokensOfItems]
  | item :: next :: more, done, rest, hdoubles, hrest => by
    rw [doublesOfItems, List.forall_mem_append] at hdoubles
    rw [charsOfItems, if_neg (by simp), List.append_assoc, List.append_assoc,
      scanTokens_blanks (hl.lineStart depth), List.cons_append,
      scanTokens_charsAt depth item _ _ hdoubles.1 (ends_cons (by simp)),
      scanTokens_of_scanToken (by decide) rfl,
      scanTokens_charsOfItems depth (next :: more) _ _ hdoubles.2 hrest]
    simp [rawItems, Raw.tokensOfItems]

/-- So is the text of the members of an object. -/
theorem scanTokens_charsOfMembers (depth : Nat) :
    ∀ (members : List (String × Json)) (done : List Token) (rest : List Char),
    (∀ x ∈ doublesOfMembers members, x.ReadsBack) → Numeral.Ends rest →
    scanTokens done (charsOfMembers layout depth members ++ rest) =
      scanTokens ((Raw.tokensOfMembers (rawMembers members)).reverse ++ done) rest
  | [], _, _, _, _ => rfl
  | [(key, value)], done, rest, hdoubles, hrest => by
    rw [doublesOfMembers, doublesOfMembers, List.append_nil] at hdoubles
    rw [charsOfMembers, List.isEmpty_nil, if_pos rfl, List.append_nil, List.append_assoc,
      List.append_assoc, List.append_assoc, scanTokens_blanks (hl.lineStart depth),
      scanTokens_quote, List.cons_append, scanTokens_of_scanToken (by decide) rfl,
      scanTokens_blanks hl.afterColon, scanTokens_charsAt depth value _ _ hdoubles hrest]
    simp [rawMembers, Raw.tokensOfMembers]
  | (key, value) :: next :: more, done, rest, hdoubles, hrest => by
    rw [doublesOfMembers, List.forall_mem_append] at hdoubles
    rw [charsOfMembers, if_neg (by simp), List.append_assoc, List.append_assoc, List.append_assoc,
      List.append_assoc, scanTokens_blanks (hl.lineStart depth), scanTokens_quote,
      List.cons_append, scanTokens_of_scanToken (by decide) rfl, scanTokens_blanks hl.afterColon,
      List.cons_append, scanTokens_charsAt depth value _ _ hdoubles.1 (ends_cons (by simp)),
      scanTokens_of_scanToken (by decide) rfl,
      scanTokens_charsOfMembers depth (next :: more) _ _ hdoubles.2 hrest]
    simp [rawMembers, Raw.tokensOfMembers]

end

end Printed

end Json

end CommandGraph
