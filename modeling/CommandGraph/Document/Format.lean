import CommandGraph.Document.Basic
import CommandGraph.Json.Printer
import CommandGraph.Json.Reader

/-!
# The text of a document

A document is written as JSON on indented lines, with the fields of each record in the order of
their declaration. It is read back strictly. A record may be given as an object or as the array of
its fields in order. In an object, fields that nobody knows are passed over, but a known field must
not come twice. A field with a default may be left out of an object, and off the end of an array; a
field without one may not, and null stands for nothing.

The version is looked at last, so a text that is no document at all is malformed whatever version it
states.
-/

namespace CommandGraph

/-! ## Writing -/

namespace Viewport

/-- A viewport as JSON. -/
def toJson (viewport : Viewport) : Json :=
  .object [("x", .ofDouble viewport.x), ("y", .ofDouble viewport.y),
    ("zoom", .ofDouble viewport.zoom)]

end Viewport

/-- An unsigned 32-bit number as JSON. -/
def Json.ofUInt32 (n : UInt32) : Json :=
  .whole (.ofUInt32 n)

namespace NodeRecord

/-- A node record as JSON. -/
def toJson (record : NodeRecord) : Json :=
  .object [("id", .ofUInt32 record.id), ("type", .string record.tag),
    ("x", .ofDouble record.x), ("y", .ofDouble record.y), ("data", .object record.data.entries)]

end NodeRecord

namespace ConnectionRecord

/-- A connection record as JSON. -/
def toJson (record : ConnectionRecord) : Json :=
  .object [("fromNodeId", .ofUInt32 record.source), ("fromPinName", .string record.sourcePin),
    ("toNodeId", .ofUInt32 record.target), ("toPinName", .string record.targetPin),
    ("type", .string record.kind)]

end ConnectionRecord

namespace Document

/-- A document as JSON. -/
def toJson (document : Document) : Json :=
  .object [("version", .ofUInt32 document.version), ("viewport", document.viewport.toJson),
    ("nodes", .array (document.nodes.map NodeRecord.toJson)),
    ("connections", .array (document.connections.map ConnectionRecord.toJson))]

/-- The text of a document. -/
def toText (document : Document) : String :=
  document.toJson.pretty

end Document

/-! ## Reading -/

namespace Json.Raw

/-- How deep the arrays and objects of a text may nest where they are read at all. -/
def nestingLimit : Nat := 127

/-- How deep a property value may nest: it stands in the data, which stands in a node, which stands
in the list of nodes, which stands in the document. -/
def valueLimit : Nat := nestingLimit - 4

/-- The members of an object with their keys as text. -/
def keyed? (members : List (List StringPart × Raw)) : Option (List (String × Raw)) :=
  members.mapM fun member => (decodeText? member.1).map fun key => (key, member.2)

/-- What is given for the field with a name, if anything; giving it twice is refused. -/
def fieldOf? (members : List (String × Raw)) (name : String) : Option (Option Raw) :=
  match members.filter (·.1 == name) with
  | [] => some none
  | [member] => some (some member.2)
  | _ => none

/-- What is given for each of the named fields of a record. -/
def fields? (names : List String) : Raw → Option (List (Option Raw))
  | array items =>
    if items.length ≤ names.length then
      some (items.map some ++ List.replicate (names.length - items.length) none)
    else none
  | object members => do
    -- Every key has to be text, also that of a field nobody knows.
    let members ← keyed? members
    names.mapM (fieldOf? members)
  | _ => none

/-- A text. -/
def text? : Raw → Option String
  | string parts => decodeText? parts
  | _ => none

/-- A number of any sort. -/
def double? : Raw → Option Double
  | number n =>
    match ofNumeral? n with
    | some (.whole w) => some w.toDouble
    | some (.double x) => some (.finite x)
    | _ => none
  | _ => none

/-- An unsigned 32-bit number, written as an integer. -/
def uint32? : Raw → Option UInt32
  | number n => do
    let w ← whole? n
    if 0 ≤ w.val ∧ w.val < UInt32.size then some (.ofNat w.val.toNat) else none
  | _ => none

/-- A list of records. -/
def list? {α : Type} (read : Raw → Option α) : Raw → Option (List α)
  | array items => items.mapM read
  | _ => none

/-- Property values. -/
def data? : Raw → Option (Dictionary Json)
  | object members => (membersOfRaw? valueLimit members).map Dictionary.ofList
  | _ => none

/-- A field that may be left out. -/
def fieldOr {α : Type} (default : α) (read : Raw → Option α) : Option Raw → Option α
  | none => some default
  | some raw => read raw

end Json.Raw

open Json.Raw

namespace Viewport

/-- Reads a viewport. -/
def ofRaw? (raw : Json.Raw) : Option Viewport := do
  match ← fields? ["x", "y", "zoom"] raw with
  | [x, y, zoom] => do
    let x ← (← x).double?
    let y ← (← y).double?
    let zoom ← fieldOr .one double? zoom
    return { x, y, zoom }
  | _ => none

end Viewport

namespace NodeRecord

/-- Reads a node record. -/
def ofRaw? (raw : Json.Raw) : Option NodeRecord := do
  match ← fields? ["id", "type", "x", "y", "data"] raw with
  | [id, tag, x, y, data] => do
    let id ← (← id).uint32?
    let tag ← (← tag).text?
    let x ← (← x).double?
    let y ← (← y).double?
    let data ← fieldOr .empty data? data
    return { id, tag, x, y, data }
  | _ => none

end NodeRecord

namespace ConnectionRecord

/-- Reads a connection record. -/
def ofRaw? (raw : Json.Raw) : Option ConnectionRecord := do
  match ← fields? ["fromNodeId", "fromPinName", "toNodeId", "toPinName", "type"] raw with
  | [source, sourcePin, target, targetPin, kind] => do
    let source ← (← source).uint32?
    let sourcePin ← (← sourcePin).text?
    let target ← (← target).uint32?
    let targetPin ← (← targetPin).text?
    let kind ← fieldOr "" text? kind
    return { source, sourcePin, target, targetPin, kind }
  | _ => none

end ConnectionRecord

namespace Document

/-- Reads a document of any version. -/
def ofRaw? (raw : Json.Raw) : Option Document := do
  match ← fields? ["version", "viewport", "nodes", "connections"] raw with
  | [version, viewport, nodes, connections] => do
    let version ← (← version).uint32?
    let viewport ← fieldOr {} Viewport.ofRaw? viewport
    let nodes ← fieldOr [] (list? NodeRecord.ofRaw?) nodes
    let connections ← fieldOr [] (list? ConnectionRecord.ofRaw?) connections
    return { version, viewport, nodes, connections }
  | _ => none

/-- Reads the text of a document. -/
def parse (text : String) : Except DocumentError Document :=
  match (Json.Raw.parse? text).bind ofRaw? with
  | none => .error .malformed
  | some document =>
    if document.version = documentVersion then .ok document
    else .error (.unsupportedVersion document.version)

/-- Reads a document from a file. -/
def load {m : Type → Type} [Monad m] (files : FileAccess m) (path : String) :
    m (Except DocumentError Document) := do
  match ← files.read path with
  | .ok text => return parse text
  | .error cause => return .error (.file path cause)

/-- Writes a document to a file. -/
def save {m : Type → Type} [Monad m] (files : FileAccess m) (path : String) (document : Document) :
    m (Except DocumentError Unit) := do
  match ← files.write path document.toText with
  | .ok () => return .ok ()
  | .error cause => return .error (.file path cause)

end Document

end CommandGraph
