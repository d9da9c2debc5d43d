import CommandGraph.Proofs.Json.Lexing

/-!
# JSON text round trip

The text that is printed for a value is read back as the value's tree (`Json.parse?_print`),
whatever the layout. Where a value is wanted, the tree is read as the value itself, provided that
it nests no deeper than the limit; deeper ones are refused (`Json.ofRaw?_raw`).
-/

namespace CommandGraph

namespace Json

namespace Raw

/-- A value does not start with the bracket that closes an array, so one that comes first in an
array begins as any other. -/
theorem step?_arrayStart_tokens (t : Raw) (outer : Context) (more : List Token) :
    (t.tokens ++ more).foldlM Progress.step? (.arrayStart outer) =
      (t.tokens ++ more).foldlM Progress.step? (.value (.item [] outer)) := by
  cases t <;> rfl

-- A context keeps what was read of the enclosing arrays and objects, with the latest first; hence
-- the reversed lists.
mutual

/-- The tokens of a tree build the tree. -/
theorem foldlM_tokens : ∀ (t : Raw) (context : Context),
    t.tokens.foldlM Progress.step? (.value context) = some (.complete t context)
  | null, _ => rfl
  | bool _, _ => rfl
  | number _, _ => rfl
  | string _, _ => rfl
  | array [], _ => rfl
  | array (item :: rest), context => by
    have hitems := foldlM_tokensOfItems (item :: rest) [] context (by simp)
    rw [tokens, List.cons_append, List.foldlM_cons]
    rw [tokensOfItems, List.append_assoc] at hitems ⊢
    exact (step?_arrayStart_tokens item context _).trans hitems
  | object [], _ => rfl
  | object (member :: rest), context =>
    foldlM_tokensOfMembers (member :: rest) [] context (by simp)

/-- The tokens of the items that are still to come complete an array. -/
theorem foldlM_tokensOfItems : ∀ (items done : List Raw) (outer : Context), items ≠ [] →
    (tokensOfItems items ++ [Token.closeArray]).foldlM Progress.step?
      (.value (.item done outer)) = some (.complete (.array (done.reverse ++ items)) outer)
  | [], _, _, hne => absurd rfl hne
  | [item], done, outer, _ => by
    rw [tokensOfItems, List.isEmpty_nil, if_pos rfl, List.append_nil, List.foldlM_append,
      foldlM_tokens item]
    simp [Progress.step?, Progress.continue?]
  | item :: next :: more, done, outer, _ => by
    have hmore := foldlM_tokensOfItems (next :: more) (item :: done) outer (by simp)
    rw [List.reverse_cons, List.append_assoc] at hmore
    rw [tokensOfItems, if_neg (by simp), List.append_assoc, List.foldlM_append,
      foldlM_tokens item]
    exact hmore

/-- The tokens of the members that are still to come complete an object. -/
theorem foldlM_tokensOfMembers : ∀ (members done : List (List StringPart × Raw)) (outer : Context),
    members ≠ [] → (tokensOfMembers members ++ [Token.closeObject]).foldlM Progress.step?
      (.key done outer) = some (.complete (.object (done.reverse ++ members)) outer)
  | [], _, _, hne => absurd rfl hne
  | [(key, value)], done, outer, _ => by
    rw [tokensOfMembers, List.isEmpty_nil, if_pos rfl, List.append_nil, List.cons_append,
      List.cons_append]
    -- The key and the colon are behind us.
    change (value.tokens ++ [Token.closeObject]).foldlM Progress.step?
      (.value (.member done key outer)) = _
    rw [List.foldlM_append, foldlM_tokens value]
    simp [Progress.step?, Progress.continue?]
  | (key, value) :: next :: more, done, outer, _ => by
    have hmore := foldlM_tokensOfMembers (next :: more) ((key, value) :: done) outer (by simp)
    rw [List.reverse_cons, List.append_assoc] at hmore
    rw [tokensOfMembers, if_neg (by simp), List.append_assoc, List.cons_append, List.cons_append]
    change (value.tokens ++ Token.comma :: (tokensOfMembers (next :: more) ++
      [Token.closeObject])).foldlM Progress.step? (.value (.member done key outer)) = _
    rw [List.foldlM_append, foldlM_tokens value]
    exact hmore

end

end Raw

/-- The text of a value is read as the value's tree, in whatever layout it is printed. -/
theorem parse?_print {layout : Layout} (hl : layout.IsBlank) {v : Json}
    (hdoubles : ∀ x ∈ v.doubles, x.ReadsBack) :
    Raw.parse? (String.ofList (charsAt layout 0 v)) = some v.raw := by
  have htokens := scanTokens_charsAt hl 0 v [] [] hdoubles ends_nil
  rw [List.append_nil, List.append_nil] at htokens
  rw [Raw.parse?, tokens?, String.toList_ofList, htokens, scanTokens, List.reverse_reverse,
    Option.bind_some, Raw.ofTokens?, Raw.foldlM_tokens]

/-! ## Values of trees -/

/-- Members in ascending order are not moved. -/
theorem sorted_of_ascending {members : List (String × Json)} (h : Entries.Ascending members) :
    sorted members = members :=
  congrArg Dictionary.entries (Dictionary.ofList_entries ⟨members, h⟩)

mutual

/-- The tree of a value is read as the value if it does not nest too deep, and else refused. -/
theorem ofRaw?_raw : ∀ (v : Json) (limit : Nat), v.Ordered → (∀ x ∈ v.doubles, x.ReadsBack) →
    ofRaw? limit v.raw = if v.depth ≤ limit then some v else none
  | null, limit, _, _ => by simp [raw, ofRaw?, depth]
  | bool b, limit, _, _ => by simp [raw, ofRaw?, depth]
  | whole n, limit, _, _ => by simp [raw, ofRaw?, depth, n.ofNumeral?_numeral]
  | double x, limit, _, hdoubles => by
    simp [raw, ofRaw?, depth, (hdoubles x (by simp [doubles])).2]
  | string s, limit, _, _ => by simp [raw, ofRaw?, depth, decodeText?_writtenParts]
  | array items, 0, _, _ => by simp [raw, ofRaw?, depth]
  | array items, limit + 1, hordered, hdoubles => by
    rw [raw, ofRaw?, itemsOfRaw?_rawItems items limit hordered hdoubles, depth]
    by_cases h : depthOfItems items ≤ limit <;> simp [h]
  | object members, 0, _, _ => by simp [raw, ofRaw?, depth]
  | object members, limit + 1, hordered, hdoubles => by
    rw [Ordered] at hordered
    rw [raw, ofRaw?, membersOfRaw?_rawMembers members limit hordered.2 hdoubles, depth]
    by_cases h : depthOfMembers members ≤ limit <;> simp [h, sorted_of_ascending hordered.1]

/-- So are the items of an array. -/
theorem itemsOfRaw?_rawItems : ∀ (items : List Json) (limit : Nat), OrderedItems items →
    (∀ x ∈ doublesOfItems items, x.ReadsBack) →
    itemsOfRaw? limit (rawItems items) = if depthOfItems items ≤ limit then some items else none
  | [], limit, _, _ => by simp [rawItems, itemsOfRaw?, depthOfItems]
  | item :: rest, limit, hordered, hdoubles => by
    rw [OrderedItems] at hordered
    rw [doublesOfItems, List.forall_mem_append] at hdoubles
    rw [rawItems, itemsOfRaw?, ofRaw?_raw item limit hordered.1 hdoubles.1,
      itemsOfRaw?_rawItems rest limit hordered.2 hdoubles.2, depthOfItems]
    simp only [Nat.max_le]
    by_cases hitem : item.depth ≤ limit <;> by_cases hrest : depthOfItems rest ≤ limit <;>
      simp [hitem, hrest]

/-- So are the members of an object. -/
theorem membersOfRaw?_rawMembers : ∀ (members : List (String × Json)) (limit : Nat),
    OrderedMembers members → (∀ x ∈ doublesOfMembers members, x.ReadsBack) →
    membersOfRaw? limit (rawMembers members) =
      if depthOfMembers members ≤ limit then some members else none
  | [], limit, _, _ => by simp [rawMembers, membersOfRaw?, depthOfMembers]
  | (key, value) :: rest, limit, hordered, hdoubles => by
    rw [OrderedMembers] at hordered
    rw [doublesOfMembers, List.forall_mem_append] at hdoubles
    rw [rawMembers, membersOfRaw?, decodeText?_writtenParts,
      ofRaw?_raw value limit hordered.1 hdoubles.1,
      membersOfRaw?_rawMembers rest limit hordered.2 hdoubles.2, depthOfMembers]
    simp only [Nat.max_le]
    by_cases hvalue : value.depth ≤ limit <;> by_cases hrest : depthOfMembers rest ≤ limit <;>
      simp [hvalue, hrest]

end

end Json

end CommandGraph
