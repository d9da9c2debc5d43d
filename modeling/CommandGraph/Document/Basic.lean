import CommandGraph.Graph.Edit
import CommandGraph.Storage.File

/-!
# Save documents

A document is what a graph is saved as: its nodes and connections in records of plain data, and
where the editor's camera was. In a document a node is known by its place in the list of nodes,
which is independent of its identity in the graph.
-/

namespace CommandGraph

/-- The version of the documents that are written and read. -/
def documentVersion : UInt32 := 1

/-- Where the editor's camera is. -/
structure Viewport where
  /-- The horizontal coordinate. -/
  x : Double := .zero
  /-- The vertical coordinate. -/
  y : Double := .zero
  /-- The magnification. -/
  zoom : Double := .one
deriving DecidableEq

/-- A saved node. -/
structure NodeRecord where
  /-- The number by which connections refer to the node. -/
  id : UInt32
  /-- The tag of the node's type. -/
  tag : String
  /-- The horizontal coordinate. -/
  x : Double
  /-- The vertical coordinate. -/
  y : Double
  /-- The property values. -/
  data : Dictionary Json

/-- A saved connection. -/
structure ConnectionRecord where
  /-- The number of the node that it leaves. -/
  source : UInt32
  /-- The output pin that it leaves. -/
  sourcePin : String
  /-- The number of the node that it enters. -/
  target : UInt32
  /-- The input pin that it enters. -/
  targetPin : String
  /-- The name of the kind. It is for readers only: loading decides the kind anew. -/
  kind : String
deriving DecidableEq

/-- A saved graph. -/
structure Document where
  /-- The version of the format. -/
  version : UInt32
  /-- The camera. -/
  viewport : Viewport := {}
  /-- The nodes. -/
  nodes : List NodeRecord := []
  /-- The connections. -/
  connections : List ConnectionRecord := []

/-- Why a document could not be read or written. -/
inductive DocumentError where
  /-- The text is not that of a document. -/
  | malformed
  /-- The document has another version. -/
  | unsupportedVersion (found : UInt32)
  /-- The file could not be read or written. -/
  | file (path : String) (cause : FileError)
deriving DecidableEq

namespace DocumentError

/-- What every message about a malformed text starts with. -/
def malformedLead : String := "Failed to parse graph document JSON:"

/-- A failure in words. -/
def message : DocumentError → String
  | malformed => malformedLead ++ " the text is not a graph document"
  | unsupportedVersion found =>
    s!"Graph document version {found} is not supported (expected {documentVersion})"
  | file path cause => s!"Graph document I/O failed for '{path}': {cause.message}"

end DocumentError

end CommandGraph
