import CommandGraph.Json.Basic

/-!
# Catalogs of node types

A node type declares its pins, by which nodes are connected, its properties with their default
values, and its role. A catalog is a list of node types; where a tag occurs more than once, the last
type with it is the one that look-ups find. The palette lists the types of a catalog by category.
-/

namespace CommandGraph

/-- What flows through a pin: control, or data of one kind. -/
inductive PinKind where
  /-- Control. -/
  | exec
  /-- Text. -/
  | string
  /-- A number. -/
  | number
  /-- An entity selector. -/
  | selector
  /-- A position in the world. -/
  | position
  /-- An item. -/
  | item
  /-- Compound data. -/
  | nbt
deriving DecidableEq

namespace PinKind

/-- All kinds. -/
def all : List PinKind :=
  [exec, string, number, selector, position, item, nbt]

/-- The name of a kind. -/
def name : PinKind → String
  | exec => "exec"
  | string => "string"
  | number => "number"
  | selector => "selector"
  | position => "position"
  | item => "item"
  | nbt => "nbt"

/-- The kind with a name. -/
def ofName? (name : String) : Option PinKind :=
  all.find? (·.name == name)

/-- Whether control flows through the pin. -/
def isExec (kind : PinKind) : Bool :=
  kind = exec

end PinKind

/-- A group of the palette. -/
inductive Category where
  /-- Where execution starts and how it is ordered. -/
  | execution
  /-- Commands. -/
  | command
  /-- Selectors. -/
  | selector
  /-- Other data. -/
  | data
  /-- Branches, loops and variables. -/
  | logic
deriving DecidableEq

namespace Category

/-- All categories, in the order of the palette. -/
def all : List Category :=
  [execution, command, selector, data, logic]

/-- The name of a category. -/
def name : Category → String
  | execution => "execution"
  | command => "command"
  | selector => "selector"
  | data => "data"
  | logic => "logic"

/-- The category with a name. -/
def ofName? (name : String) : Option Category :=
  all.find? (·.name == name)

/-- The heading of a category in the palette. -/
def label : Category → String
  | execution => "Execution"
  | command => "Commands"
  | selector => "Selectors"
  | data => "Data"
  | logic => "Logic"

end Category

/-- A named point of a node type to which a connection is attached. -/
structure Pin where
  /-- The name. -/
  name : String
  /-- What flows through it. -/
  kind : PinKind
deriving DecidableEq

/-- How a property is edited. -/
inductive PropertyKind where
  /-- One line of text. -/
  | text
  /-- Several lines of text. -/
  | textArea
  /-- A number, perhaps between bounds, which belong to the range. -/
  | number (min max : Option Int64)
  /-- A check box. -/
  | checkbox
  /-- One of several texts. -/
  | select (options : List String)
  /-- An item, picked from the known ones. -/
  | item
  /-- A block, picked from the known ones. -/
  | block
  /-- An entity, picked from the known ones. -/
  | entity
  /-- An attribute of entities, picked from the known ones. -/
  | entityAttribute
deriving DecidableEq

/-- A property that a node type declares. -/
structure Property where
  /-- The name under which a node holds the value. -/
  name : String
  /-- The label that the editor shows. -/
  label : String
  /-- How it is edited. -/
  kind : PropertyKind
  /-- The value of a new node. -/
  default : Json

namespace Property

/-- A property edited as one line of text. -/
def text (name label default : String) : Property :=
  { name, label, kind := .text, default := .string default }

/-- A property edited as several lines of text. -/
def textArea (name label default : String) : Property :=
  { name, label, kind := .textArea, default := .string default }

/-- A property edited as a number without bounds. -/
def number (name label : String) (default : Int64) : Property :=
  { name, label, kind := .number none none, default := .ofInt64 default }

/-- A property edited as a check box. -/
def checkbox (name label : String) (default : Bool) : Property :=
  { name, label, kind := .checkbox, default := .bool default }

/-- A property chosen from several texts. -/
def select (name label : String) (options : List String) (default : String) : Property :=
  { name, label, kind := .select options, default := .string default }

/-- A text property picked from the editor's lists, of the given kind. -/
def asset (name label : String) (kind : PropertyKind) (default : String) : Property :=
  { name, label, kind, default := .string default }

/-- Gives a number property bounds; any other property stays as it is. -/
def range (property : Property) (min max : Int64) : Property :=
  match property.kind with
  | .number .. => { property with kind := .number (some min) (some max) }
  | _ => property

end Property

/-- A type of nodes. -/
structure NodeType where
  /-- The tag that names the type. -/
  tag : String
  /-- The title that the editor shows. -/
  title : String
  /-- A short description. -/
  description : String := ""
  /-- The group of the palette. -/
  category : Category
  /-- Whether execution starts here when nothing drives the node. -/
  entry : Bool := false
  /-- The input pins. -/
  inputs : List Pin := []
  /-- The output pins. -/
  outputs : List Pin := []
  /-- The properties. -/
  properties : List Property := []
  /-- The output pin that hands out the node's own command. -/
  valueOutput : Option String := none

namespace NodeType

/-- The input pin with a name. -/
def input? (type : NodeType) (name : String) : Option Pin :=
  type.inputs.find? (·.name == name)

/-- The output pin with a name. -/
def output? (type : NodeType) (name : String) : Option Pin :=
  type.outputs.find? (·.name == name)

/-- The property with a name. -/
def property? (type : NodeType) (name : String) : Option Property :=
  type.properties.find? (·.name == name)

/-- The property values of a new node. -/
def defaults (type : NodeType) : Dictionary Json :=
  .ofList (type.properties.map fun property => (property.name, property.default))

/-- Whether the type is a command. -/
def isCommand (type : NodeType) : Bool :=
  type.category = .command

/-- The output pins through which control leaves, in the order of their declaration. -/
def execOutputs (type : NodeType) : List Pin :=
  type.outputs.filter (·.kind.isExec)

end NodeType

/-- A group of the palette with the types in it. -/
structure PaletteGroup where
  /-- The category. -/
  category : Category
  /-- The types, in the order of the catalog. -/
  types : List NodeType

/-- A list of node types. -/
structure Catalog where
  /-- The types, in order. -/
  types : List NodeType

namespace Catalog

/-- The type with a tag, the last one if there are several. -/
def find? (catalog : Catalog) (tag : String) : Option NodeType :=
  catalog.types.reverse.find? (·.tag == tag)

/-- Whether there is a type with a tag. -/
def contains (catalog : Catalog) (tag : String) : Bool :=
  (catalog.find? tag).isSome

/-- The types by category, without the categories that have none. -/
def palette (catalog : Catalog) : List PaletteGroup :=
  (Category.all.map fun category =>
    { category, types := catalog.types.filter (·.category == category) }).filter
      (!·.types.isEmpty)

end Catalog

end CommandGraph
