import CommandGraph.Dump.Command
import CommandGraph.Json.Basic

/-!
# Changes between two dumps

Two dumps are compared command by command. If they have equally many commands and each keeps its
shape, only values have changed, and a graph can take the new text over in place; otherwise its
nodes have to be built anew.
-/

namespace CommandGraph

/-- How much of a dump has changed. -/
inductive ChangeKind where
  /-- The texts are equal. -/
  | none
  /-- Commands have come, gone or changed their shape. -/
  | structural
  /-- The commands are the same up to their values. -/
  | valueOnly
deriving DecidableEq

namespace ChangeKind

/-- The name of a kind. -/
def name : ChangeKind → String
  | none => "none"
  | structural => "structural"
  | valueOnly => "value_only"

end ChangeKind

/-- One thing that has changed. -/
inductive Change where
  /-- The dumps have different numbers of commands. -/
  | count (old new : Nat)
  /-- The command at an index has another shape. -/
  | shape (index : Nat) (old new : String)
  /-- The command at an index has other values. -/
  | values (index : Nat) (old new : Dictionary String)

namespace Change

/-- A field whose value has changed, with both values. -/
def describeField (old : Dictionary String) (field : String × String) : String :=
  let before := (old.find? field.1).getD ""
  if before = field.2 then "" else s!" {field.1}: '{before}' -> '{field.2}'"

/-- A change in words. -/
def describe : Change → String
  | count old new => s!"command count changed: {old} -> {new}"
  | shape index old new => s!"#{index} structure changed: {old} -> {new}"
  | values index old new =>
    s!"#{index} values changed:" ++ String.join (new.entries.map (describeField old))

end Change

/-- The comparison of two dumps. -/
structure Analysis where
  /-- How much has changed. -/
  kind : ChangeKind
  /-- What has changed, in the order of the commands. -/
  changes : List Change

namespace Analysis

/-- What has changed between two commands at one index. -/
def compareAt (index : Nat) (old new : Command) : Option Change :=
  if old.fingerprint ≠ new.fingerprint then some (.shape index old.fingerprint new.fingerprint)
  else if old.raw ≠ new.raw then some (.values index old.values new.values)
  else none

/-- What has changed between two lists of commands, from an index on, as far as both go. -/
def compareFrom (index : Nat) : List Command → List Command → List Change
  | old :: olds, new :: news =>
    (compareAt index old new).toList ++ compareFrom (index + 1) olds news
  | _, _ => []

/-- Whether a change is one of shape. -/
def isShape : Change → Bool
  | .shape .. => true
  | _ => false

/-- The comparison of an old and a new dump. -/
def between (old new : String) : Analysis :=
  if old = new then { kind := .none, changes := [] }
  else
    let olds := Dump.parse old
    let news := Dump.parse new
    if olds.length ≠ news.length then
      { kind := .structural, changes := [.count olds.length news.length] }
    else
      -- Here both lists are equally long, so no command is left out of the comparison.
      let changes := compareFrom 0 olds news
      { kind := if changes.any isShape then .structural else .valueOnly, changes }

/-- Whether taking the new dump over would build the graph's nodes anew. -/
def requiresRebuild (old new : String) : Bool :=
  (between old new).kind = .structural

end Analysis

/-! ## As JSON -/

/-- Field values as a JSON object. -/
def Json.ofValues (values : Dictionary String) : Json :=
  .object (values.entries.map fun entry => (entry.1, .string entry.2))

/-- A change as a JSON object, tagged by its reason. -/
def Change.toJson : Change → Json
  | count old new =>
    .object [("reason", .string "command_count_changed"), ("old_count", .ofNat old),
      ("new_count", .ofNat new)]
  | shape index old new =>
    .object [("reason", .string "structure_changed"), ("index", .ofNat index),
      ("old", .string old), ("new", .string new)]
  | values index old new =>
    .object [("reason", .string "values_changed"), ("index", .ofNat index),
      ("old_values", .ofValues old), ("new_values", .ofValues new)]

/-- A comparison as a JSON object. -/
def Analysis.toJson (analysis : Analysis) : Json :=
  .object [("kind", .string analysis.kind.name),
    ("changes", .array (analysis.changes.map Change.toJson))]

end CommandGraph
