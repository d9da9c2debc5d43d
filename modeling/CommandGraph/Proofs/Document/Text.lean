import CommandGraph.Document.Format
import CommandGraph.Proofs.Json.Roundtrip

/-!
# Document text round trip

Each record is read back from the tree of its JSON value, and so is a whole document
(`Document.parse_toText`), if its doubles are read back and its property values are ordered. The
reader has a limit on how deep the values may nest, and where one of them nests deeper the text is
refused; the version is looked at last.
-/

namespace CommandGraph

open Json.Raw

/-! ## Fields -/

namespace Json

/-- The members of an object, with their keys as written. -/
def Raw.ofFields (fields : List (String × Raw)) : Raw :=
  .object (fields.map fun field => (writtenParts field.1, field.2))

/-- What is given for a field is found under its name. -/
theorem fields?_ofFields (names : List String) (fields : List (String × Raw)) :
    fields? names (ofFields fields) = names.mapM (fieldOf? fields) := by
  have hkeyed : keyed? (fields.map fun field => (writtenParts field.1, field.2)) = some fields := by
    induction fields with
    | nil => rfl
    | cons field rest ih =>
      rw [keyed?] at ih ⊢
      rw [List.map_cons, List.mapM_cons, decodeText?_writtenParts, ih]
      rfl
  rw [ofFields, fields?, hkeyed]
  rfl

/-- The tree of an object is that of its members. -/
theorem raw_object (members : List (String × Json)) :
    (object members).raw = ofFields (members.map fun member => (member.1, member.2.raw)) := by
  rw [raw, ofFields]
  congr 1
  induction members with
  | nil => rfl
  | cons member rest ih =>
    obtain ⟨key, value⟩ := member
    rw [rawMembers, ih]
    rfl

/-- A text is read back. -/
theorem text?_raw_string (s : String) : text? (string s).raw = some s :=
  decodeText?_writtenParts s

/-- A numeral for a whole number in range is read as an unsigned number. -/
theorem uint32?_number {n : Numeral} {w : Whole} (h : whole? n = some w)
    (hrange : 0 ≤ w.val ∧ w.val < UInt32.size) :
    uint32? (.number n) = some (.ofNat w.val.toNat) := by
  rw [uint32?, h]
  simp only [Option.bind_eq_bind, Option.bind_some, if_pos hrange]

/-- An unsigned number is read back. -/
theorem uint32?_raw_ofUInt32 (n : UInt32) : uint32? (ofUInt32 n).raw = some n := by
  have hval : (Whole.ofUInt32 n).val = n.toNat := rfl
  have hrange : 0 ≤ (Whole.ofUInt32 n).val ∧ (Whole.ofUInt32 n).val < UInt32.size := by
    rw [hval]
    exact ⟨Int.natCast_nonneg _, Int.ofNat_lt.2 n.toNat_lt⟩
  rw [ofUInt32, raw, uint32?_number (Whole.whole?_numeral _) hrange, hval, Int.toNat_natCast,
    UInt32.ofNat_toNat]

end Json

/-- A number is finite, and what is written for it is read back as the same number. -/
def Double.ReadsBack : Double → Prop
  | .finite x => x.ReadsBack
  | _ => False

instance : (x : Double) → Decidable x.ReadsBack
  | .finite x => inferInstanceAs (Decidable x.ReadsBack)
  | .infinite _ | .nan => isFalse id

namespace Json

/-- A double is read back. -/
theorem double?_raw_ofDouble {x : Double} (h : x.ReadsBack) :
    double? (ofDouble x).raw = some x := by
  cases x with
  | finite x => rw [ofDouble, raw, double?, h.2]
  | _ => cases h

/-- The doubles in a double. -/
theorem readsBack_of_mem_doubles_ofDouble {x : Double} (h : x.ReadsBack) :
    ∀ y ∈ (ofDouble x).doubles, y.ReadsBack := by
  cases x with
  | finite x => simpa [ofDouble, doubles, Double.ReadsBack] using h
  | _ => cases h

/-- Property values are read back if none of them nests too deep, and else refused. -/
theorem data?_raw_object {data : Dictionary Json}
    (hordered : ∀ entry ∈ data.entries, entry.2.Ordered)
    (hdoubles : ∀ entry ∈ data.entries, ∀ x ∈ entry.2.doubles, x.ReadsBack) :
    data? (object data.entries).raw =
      if ∀ entry ∈ data.entries, entry.2.depth ≤ valueLimit then some data else none := by
  have hreads : ∀ x ∈ doublesOfMembers data.entries, x.ReadsBack := by
    intro x hx
    obtain ⟨entry, hentry, hx⟩ := mem_doublesOfMembers.1 hx
    exact hdoubles entry hentry x hx
  rw [raw, data?, membersOfRaw?_rawMembers _ _ (orderedMembers_iff.2 hordered) hreads]
  simp only [depthOfMembers_le_iff]
  split
  · rw [Option.map_some, Dictionary.ofList_entries]
  · rfl

/-- A list of records is read back if every record is, and refused if one of them is. -/
theorem list?_raw_array {α : Type} {read : Raw → Option α} {write : α → Json} {P : α → Prop}
    [DecidablePred P] {records : List α}
    (h : ∀ record ∈ records, read (write record).raw = if P record then some record else none) :
    list? read (array (records.map write)).raw =
      if ∀ record ∈ records, P record then some records else none := by
  rw [raw, list?]
  induction records with
  | nil => rfl
  | cons record rest ih =>
    obtain ⟨hrecord, hrest⟩ := List.forall_mem_cons.1 h
    rw [List.map_cons, rawItems, List.mapM_cons, hrecord, ih hrest]
    simp only [List.forall_mem_cons]
    -- Reading stops at the first record that is refused.
    by_cases hfirst : P record
    · by_cases hothers : ∀ other ∈ rest, P other
      · rw [if_pos hfirst, if_pos hothers, if_pos ⟨hfirst, hothers⟩]
        rfl
      · rw [if_pos hfirst, if_neg hothers, if_neg fun hall => hothers hall.2]
        rfl
    · rw [if_neg hfirst, if_neg (c := P record ∧ _) fun hall => hfirst hall.1]
      rfl

end Json

/-! ## Records -/

namespace Viewport

/-- The numbers of a viewport are read back. -/
structure Writable (viewport : Viewport) : Prop where
  /-- The horizontal coordinate. -/
  x : viewport.x.ReadsBack
  /-- The vertical coordinate. -/
  y : viewport.y.ReadsBack
  /-- The magnification. -/
  zoom : viewport.zoom.ReadsBack

/-- The default camera is read back. -/
theorem writable_default : Writable {} :=
  ⟨by decide +kernel, by decide +kernel, by decide +kernel⟩

/-- The numbers in the JSON value of a viewport are read back. -/
theorem Writable.readsBack {viewport : Viewport} (h : viewport.Writable) :
    ∀ x ∈ viewport.toJson.doubles, x.ReadsBack := by
  intro x hx
  rw [toJson, Json.doubles, Json.mem_doublesOfMembers] at hx
  obtain ⟨member, hmember, hx⟩ := hx
  simp only [List.mem_cons, List.not_mem_nil, or_false] at hmember
  rcases hmember with rfl | rfl | rfl
  · exact Json.readsBack_of_mem_doubles_ofDouble h.x x hx
  · exact Json.readsBack_of_mem_doubles_ofDouble h.y x hx
  · exact Json.readsBack_of_mem_doubles_ofDouble h.zoom x hx

/-- A viewport is read field by field. -/
theorem ofRaw?_ofFields {viewport : Viewport} {x y zoom : Json.Raw}
    (hx : double? x = some viewport.x) (hy : double? y = some viewport.y)
    (hzoom : double? zoom = some viewport.zoom) :
    ofRaw? (ofFields [("x", x), ("y", y), ("zoom", zoom)]) = some viewport := by
  rw [ofRaw?, Json.fields?_ofFields]
  simp [fieldOf?, fieldOr, hx, hy, hzoom]

/-- A viewport is read back. -/
theorem ofRaw?_raw_toJson {viewport : Viewport} (h : viewport.Writable) :
    ofRaw? viewport.toJson.raw = some viewport := by
  rw [toJson, Json.raw_object]
  exact ofRaw?_ofFields (Json.double?_raw_ofDouble h.x) (Json.double?_raw_ofDouble h.y)
    (Json.double?_raw_ofDouble h.zoom)

end Viewport

namespace NodeRecord

/-- The numbers of a node record are read back, and its property values are ordered. -/
structure Writable (record : NodeRecord) : Prop where
  /-- The horizontal coordinate. -/
  x : record.x.ReadsBack
  /-- The vertical coordinate. -/
  y : record.y.ReadsBack
  /-- The property values list their members by key. -/
  ordered : ∀ entry ∈ record.data.entries, entry.2.Ordered
  /-- The numbers in the property values. -/
  doubles : ∀ entry ∈ record.data.entries, ∀ x ∈ entry.2.doubles, x.ReadsBack

/-- The numbers in the JSON value of a node record are read back. -/
theorem Writable.readsBack {record : NodeRecord} (h : record.Writable) :
    ∀ x ∈ record.toJson.doubles, x.ReadsBack := by
  intro x hx
  rw [toJson, Json.doubles, Json.mem_doublesOfMembers] at hx
  obtain ⟨member, hmember, hx⟩ := hx
  simp only [List.mem_cons, List.not_mem_nil, or_false] at hmember
  rcases hmember with rfl | rfl | rfl | rfl | rfl
  · cases hx
  · cases hx
  · exact Json.readsBack_of_mem_doubles_ofDouble h.x x hx
  · exact Json.readsBack_of_mem_doubles_ofDouble h.y x hx
  · obtain ⟨entry, hentry, hx⟩ := Json.mem_doublesOfMembers.1 hx
    exact h.doubles entry hentry x hx

/-- A node record is read field by field, and its property values last. -/
theorem ofRaw?_ofFields {record : NodeRecord} {id tag x y data : Json.Raw}
    (hid : uint32? id = some record.id) (htag : text? tag = some record.tag)
    (hx : double? x = some record.x) (hy : double? y = some record.y) :
    ofRaw? (ofFields [("id", id), ("type", tag), ("x", x), ("y", y), ("data", data)]) =
      (data? data).map fun data => { record with data } := by
  rw [ofRaw?, Json.fields?_ofFields]
  cases hdata : data? data <;> simp [fieldOf?, fieldOr, hid, htag, hx, hy, hdata]

/-- A node record is read back if none of its property values nests too deep, and else refused. -/
theorem ofRaw?_raw_toJson {record : NodeRecord} (h : record.Writable) :
    ofRaw? record.toJson.raw =
      if ∀ entry ∈ record.data.entries, entry.2.depth ≤ valueLimit then some record else none := by
  have hfields : ofRaw? record.toJson.raw =
      (data? (Json.object record.data.entries).raw).map fun data => { record with data } := by
    rw [toJson, Json.raw_object]
    exact ofRaw?_ofFields (Json.uint32?_raw_ofUInt32 _) (Json.text?_raw_string _)
      (Json.double?_raw_ofDouble h.x) (Json.double?_raw_ofDouble h.y)
  rw [hfields, Json.data?_raw_object h.ordered h.doubles]
  split <;> rfl

end NodeRecord

namespace ConnectionRecord

/-- A connection record is read field by field. -/
theorem ofRaw?_ofFields {record : ConnectionRecord}
    {source sourcePin target targetPin kind : Json.Raw}
    (hsource : uint32? source = some record.source)
    (hsourcePin : text? sourcePin = some record.sourcePin)
    (htarget : uint32? target = some record.target)
    (htargetPin : text? targetPin = some record.targetPin) (hkind : text? kind = some record.kind) :
    ofRaw? (ofFields [("fromNodeId", source), ("fromPinName", sourcePin), ("toNodeId", target),
      ("toPinName", targetPin), ("type", kind)]) = some record := by
  rw [ofRaw?, Json.fields?_ofFields]
  simp [fieldOf?, fieldOr, hsource, hsourcePin, htarget, htargetPin, hkind]

/-- A connection record is read back. -/
theorem ofRaw?_raw_toJson (record : ConnectionRecord) :
    ofRaw? record.toJson.raw = some record := by
  rw [toJson, Json.raw_object]
  exact ofRaw?_ofFields (Json.uint32?_raw_ofUInt32 _) (Json.text?_raw_string _)
    (Json.uint32?_raw_ofUInt32 _) (Json.text?_raw_string _) (Json.text?_raw_string _)

end ConnectionRecord

/-! ## Documents -/

namespace Document

/-- The numbers of a document are read back, and its property values are ordered. -/
structure Writable (document : Document) : Prop where
  /-- The camera. -/
  viewport : document.viewport.Writable
  /-- The nodes. -/
  nodes : ∀ record ∈ document.nodes, record.Writable

/-- The numbers in the JSON value of a document are read back. -/
theorem Writable.readsBack {document : Document} (h : document.Writable) :
    ∀ x ∈ document.toJson.doubles, x.ReadsBack := by
  intro x hx
  rw [toJson, Json.doubles, Json.mem_doublesOfMembers] at hx
  obtain ⟨member, hmember, hx⟩ := hx
  simp only [List.mem_cons, List.not_mem_nil, or_false] at hmember
  rcases hmember with rfl | rfl | rfl | rfl
  · cases hx
  · exact h.viewport.readsBack x hx
  · obtain ⟨item, hitem, hx⟩ := Json.mem_doublesOfItems.1 hx
    obtain ⟨record, hrecord, rfl⟩ := List.mem_map.1 hitem
    exact (h.nodes record hrecord).readsBack x hx
  · obtain ⟨item, hitem, hx⟩ := Json.mem_doublesOfItems.1 hx
    obtain ⟨record, -, rfl⟩ := List.mem_map.1 hitem
    simp [ConnectionRecord.toJson, Json.doubles, Json.doublesOfMembers, Json.ofUInt32] at hx

/-- A document is read field by field. Where all else is read, the nodes decide. -/
theorem ofRaw?_ofFields {document : Document} {version viewport nodes connections : Json.Raw}
    (hversion : uint32? version = some document.version)
    (hviewport : Viewport.ofRaw? viewport = some document.viewport)
    (hconnections : list? ConnectionRecord.ofRaw? connections = some document.connections) :
    ofRaw? (ofFields [("version", version), ("viewport", viewport), ("nodes", nodes),
      ("connections", connections)]) =
        (list? NodeRecord.ofRaw? nodes).map fun nodes => { document with nodes } := by
  rw [ofRaw?, Json.fields?_ofFields]
  cases hnodes : list? NodeRecord.ofRaw? nodes <;>
    simp [fieldOf?, fieldOr, hversion, hviewport, hconnections, hnodes]

/-- A document is read back from its tree if none of its property values nests too deep, and else
refused. -/
theorem ofRaw?_raw_toJson {document : Document} (h : document.Writable) :
    ofRaw? document.toJson.raw =
      if ∀ record ∈ document.nodes, ∀ entry ∈ record.data.entries, entry.2.depth ≤ valueLimit then
        some document
      else none := by
  have hconnections : list? ConnectionRecord.ofRaw?
      (Json.array (document.connections.map ConnectionRecord.toJson)).raw =
        some document.connections := by
    rw [Json.list?_raw_array (P := fun _ => True) fun record _ => record.ofRaw?_raw_toJson]
    exact if_pos fun _ _ => trivial
  have hfields : ofRaw? document.toJson.raw =
      (list? NodeRecord.ofRaw? (Json.array (document.nodes.map NodeRecord.toJson)).raw).map
        fun nodes => { document with nodes } := by
    rw [toJson, Json.raw_object]
    exact ofRaw?_ofFields (Json.uint32?_raw_ofUInt32 _) (Viewport.ofRaw?_raw_toJson h.viewport)
      hconnections
  rw [hfields, Json.list?_raw_array fun record hrecord =>
    NodeRecord.ofRaw?_raw_toJson (h.nodes record hrecord)]
  split <;> rfl

/-- The text of a document is read as the document, unless a property value nests too deep or the
version is another one. -/
theorem parse_toText {document : Document} (h : document.Writable) :
    parse document.toText =
      if ∀ record ∈ document.nodes, ∀ entry ∈ record.data.entries, entry.2.depth ≤ valueLimit then
        if document.version = documentVersion then .ok document
        else .error (.unsupportedVersion document.version)
      else .error .malformed := by
  have htree : Json.Raw.parse? document.toText = some document.toJson.raw :=
    Json.parse?_print Json.Layout.isBlank_pretty h.readsBack
  rw [parse, htree, Option.bind_some, ofRaw?_raw_toJson h]
  by_cases hdepth : ∀ record ∈ document.nodes, ∀ entry ∈ record.data.entries,
      entry.2.depth ≤ valueLimit
  · rw [if_pos hdepth, if_pos hdepth]
  · rw [if_neg hdepth, if_neg hdepth]

/-- What becomes of a document that is written and read. A document of this version is read as it
was, and another version is refused by its number, if the property values nest no more than 123
levels deep; with a deeper one the text is malformed. All the numbers are finite, each is read back
as it was written, and the objects among the property values list their members by key. -/
theorem parse_toText_outcome (document : Document) (h : document.Writable) :
    ((∀ record ∈ document.nodes, ∀ entry ∈ record.data.entries, entry.2.depth ≤ 123) →
      (document.version = 1 → parse document.toText = .ok document) ∧
      (document.version ≠ 1 →
        parse document.toText = .error (.unsupportedVersion document.version))) ∧
    ((∃ record ∈ document.nodes, ∃ entry ∈ record.data.entries, 123 < entry.2.depth) →
      parse document.toText = .error .malformed) := by
  rw [parse_toText h]
  refine ⟨fun hdepth => ⟨fun hversion => ?_, fun hversion => ?_⟩, ?_⟩
  · exact (if_pos hdepth).trans (if_pos hversion)
  · exact (if_pos hdepth).trans (if_neg hversion)
  · rintro ⟨record, hrecord, entry, hentry, hdeep⟩
    exact if_neg fun hall => Nat.not_le.2 hdeep (hall record hrecord entry hentry)

end Document

/-- One half. -/
def Double.Finite.half : Finite := ⟨false, leastFull, -53, by decide⟩

/-- An object with a number in it, inside of so many arrays. -/
def Json.nested : Nat → Json
  | 0 => .object [("\"é\n", .double .half), ("κ", .whole (.ofInt64 (-5)))]
  | levels + 1 => .array [.null, nested levels, .string "\\u0041\x7f"]

namespace Json

theorem depth_nested (levels : Nat) : (nested levels).depth = levels + 1 := by
  induction levels with
  | zero => rfl
  | succ levels ih => simp [nested, depth, depthOfItems, ih]

theorem ordered_nested (levels : Nat) : (nested levels).Ordered := by
  induction levels with
  | zero => exact ⟨List.pairwise_pair.2 (by decide), trivial, trivial, trivial⟩
  | succ levels ih => exact ⟨trivial, ih, trivial, trivial⟩

theorem doubles_nested (levels : Nat) : (nested levels).doubles = [.half] := by
  induction levels with
  | zero => rfl
  | succ levels ih => simp [nested, doubles, doublesOfItems, ih]

end Json

namespace Document

/-- A document whose one node, of no type, has a value inside of so many arrays, and is connected
with nodes that are not there. -/
def ofNested (version : UInt32) (levels : Nat) : Document where
  version := version
  viewport := { x := .finite .half }
  nodes := [⟨7, "\t\"say\"", .zero, .finite .half,
    ⟨[("", .nested levels)], List.pairwise_singleton _ _⟩⟩]
  connections := [⟨9, "Exec", 7, "\u2028", "anything"⟩]

theorem writable_ofNested (version : UInt32) (levels : Nat) :
    (ofNested version levels).Writable := by
  have hhalf : Double.Finite.half.ReadsBack := by decide +kernel
  have hzero : Double.ReadsBack .zero := by decide +kernel
  have hone : Double.ReadsBack .one := by decide +kernel
  refine ⟨⟨hhalf, hzero, hone⟩, ?_⟩
  simp only [ofNested, List.forall_mem_singleton]
  exact ⟨hzero, hhalf, by simpa using Json.ordered_nested levels,
    by simpa [Json.doubles_nested] using hhalf⟩

/-- A value of 123 levels is read back, in a document of this version, and one of 124 levels is
not. -/
theorem parse_toText_ofNested :
    (∀ version levels, (ofNested version levels).Writable) ∧
      parse (ofNested 1 122).toText = .ok (ofNested 1 122) ∧
      parse (ofNested 2 122).toText = .error (.unsupportedVersion 2) ∧
      parse (ofNested 1 123).toText = .error .malformed := by
  have hdepth : ∀ version, ∀ record ∈ (ofNested version 122).nodes,
      ∀ entry ∈ record.data.entries, entry.2.depth ≤ 123 := by
    simp [ofNested, Json.depth_nested]
  obtain ⟨hthis, -⟩ := parse_toText_outcome (ofNested 1 122) (writable_ofNested 1 122)
  obtain ⟨hnext, -⟩ := parse_toText_outcome (ofNested 2 122) (writable_ofNested 2 122)
  obtain ⟨-, hdeep⟩ := parse_toText_outcome (ofNested 1 123) (writable_ofNested 1 123)
  refine ⟨writable_ofNested, (hthis (hdepth 1)).1 rfl, (hnext (hdepth 2)).2 (by decide), hdeep ?_⟩
  refine ⟨_, List.mem_singleton_self _, _, List.mem_singleton_self _, ?_⟩
  rw [Json.depth_nested]
  decide

end Document

end CommandGraph
