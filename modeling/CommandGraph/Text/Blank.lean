/-!
# Blank characters

A character is *blank* when it has the Unicode property `White_Space`. Command parts, dump lines
and numbers typed as text are trimmed of blanks at both ends before they are used.

The class is larger than the four blanks of ASCII text: it holds the no-break space, the line and
paragraph separators and the ideographic space. It does not hold the zero-width space or the byte
order mark, which have no such property.
-/

namespace CommandGraph.Text

/-- Whether a character has the property `White_Space`. -/
def isBlank (c : Char) : Bool :=
  let n := c.toNat
  (0x09 ≤ n && n ≤ 0x0D) || n == 0x20 || n == 0x85 || n == 0xA0 || n == 0x1680
    || (0x2000 ≤ n && n ≤ 0x200A) || n == 0x2028 || n == 0x2029 || n == 0x202F || n == 0x205F
    || n == 0x3000

/-- The characters without the blanks in front. -/
def dropBlanks (cs : List Char) : List Char :=
  cs.dropWhile isBlank

/-- The characters without the blanks at either end. -/
def trimChars (cs : List Char) : List Char :=
  (dropBlanks (dropBlanks cs).reverse).reverse

/-- The text without the blanks at either end. -/
def trim (s : String) : String :=
  String.ofList (trimChars s.toList)

/-- Whether a text holds nothing but blanks. The empty text does. -/
def isBlankText (s : String) : Bool :=
  s.toList.all isBlank

/-- Dropping blanks keeps nothing exactly when there is nothing but blanks. -/
theorem dropBlanks_eq_nil_iff {cs : List Char} :
    dropBlanks cs = [] ↔ ∀ c ∈ cs, isBlank c = true := by
  induction cs with
  | nil => simp [dropBlanks]
  | cons c cs ih =>
    simp only [dropBlanks] at ih
    by_cases h : isBlank c = true <;> simp [dropBlanks, h, ih]

/-- What is left after dropping blanks does not start with one. -/
theorem isBlank_of_dropBlanks_eq_cons {cs rest : List Char} {c : Char}
    (h : dropBlanks cs = c :: rest) : isBlank c = false := by
  induction cs with
  | nil => simp [dropBlanks] at h
  | cons d cs ih =>
    simp only [dropBlanks, List.dropWhile_cons] at h ih
    split at h
    · exact ih h
    · simp_all

/-- Trimming keeps nothing exactly when there is nothing but blanks. -/
theorem trimChars_eq_nil_iff {cs : List Char} :
    trimChars cs = [] ↔ ∀ c ∈ cs, isBlank c = true := by
  rw [← dropBlanks_eq_nil_iff]
  simp only [trimChars, List.reverse_eq_nil_iff, @dropBlanks_eq_nil_iff (dropBlanks cs).reverse,
    List.mem_reverse]
  cases h : dropBlanks cs with
  | nil => simp
  | cons c rest => simp [isBlank_of_dropBlanks_eq_cons h]

/-- A text trims to nothing exactly when it is blank. -/
theorem trim_eq_empty_iff {s : String} : trim s = "" ↔ isBlankText s = true := by
  simp [trim, isBlankText, trimChars_eq_nil_iff]

end CommandGraph.Text
