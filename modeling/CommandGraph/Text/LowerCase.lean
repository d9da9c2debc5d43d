import CommandGraph.Text.CaseTable

/-!
# Lower-casing

The full lower-casing of Unicode text, independent of any locale. Every character goes to its own
lower case, with two exceptions. The capital I with a dot above becomes a small i followed by the
combining dot. The capital sigma becomes a final sigma at the end of a word and a medial one
elsewhere, where a word ends after the sigma when, characters without case apart, a cased
character stands before it and none stands after it.
-/

namespace CommandGraph.Text

/-- The lower case of a single character, out of context. -/
def lowerChar (c : Char) : List Char :=
  -- Most text is ASCII, which needs no table.
  if c.toNat < 0x80 then [c.toLower]
  else if c = 'İ' then ['i', '\u0307']
  else match lowerRuns.find? (·.covers c.toNat) with
    | some run => [Char.ofNat (c.toNat + run.shift).toNat]
    | none => [c]

/-- Whether the first character that counts for case, if there is one, has case. -/
def startsCased (cs : List Char) : Bool :=
  match cs.dropWhile (inRanges ignorableRanges ·.toNat) with
  | [] => false
  | c :: _ => inRanges casedRanges c.toNat

/-- The lower case of the characters that follow `before`, which is given last character first. -/
def lowerChars (before : List Char) : List Char → List Char
  | [] => []
  | c :: cs =>
    let here :=
      if c = 'Σ' then [if startsCased before && !startsCased cs then 'ς' else 'σ']
      else lowerChar c
    here ++ lowerChars (c :: before) cs

/-- The lower case of a text. -/
def lowerCase (s : String) : String :=
  String.ofList (lowerChars [] s.toList)

/-- Whether two texts are equal up to the case of their ASCII letters. -/
def equalsIgnoringAsciiCase (s t : String) : Bool :=
  s.toList.map Char.toLower == t.toList.map Char.toLower

end CommandGraph.Text
