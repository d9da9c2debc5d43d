import CommandGraph.Catalog.Basic

/-!
# The standard catalog

The node types that an editor can place, in the order of the palette.
-/

namespace CommandGraph

namespace Catalog

/-- A command type. Every one of them is driven and drives on through a pin named `Exec`, and hands
out its own command on a pin named `Command`. -/
def command (tag title description : String) (inputs : List Pin) (properties : List Property) :
    NodeType where
  tag := tag
  title := title
  description := description
  category := .command
  inputs := ⟨"Exec", .exec⟩ :: inputs
  outputs := [⟨"Exec", .exec⟩, ⟨"Command", .string⟩]
  properties := properties
  valueOutput := some "Command"

/-- The types that start and order execution. -/
def executionTypes : List NodeType :=
  [{ tag := "command_block"
     title := "Command Block"
     description := "Creates a command block entry"
     category := .execution
     entry := true
     inputs := [⟨"Exec", .exec⟩, ⟨"Command", .string⟩]
     outputs := [⟨"Exec", .exec⟩, ⟨"Output", .string⟩]
     properties :=
      [.textArea "command" "Command" "",
       .select "blockType" "Block Type" ["Repeating", "Chain", "Impulse"] "Repeating",
       .checkbox "conditional" "Conditional" false,
       .checkbox "needsRedstone" "Needs Redstone" false] },
   { tag := "chat_command"
     title := "Chat Command"
     description := "Command to run in chat"
     category := .execution
     entry := true
     inputs := [⟨"Exec", .exec⟩, ⟨"Command", .string⟩]
     outputs := [⟨"Exec", .exec⟩]
     properties := [.textArea "command" "Command" ""] },
   { tag := "sequence"
     title := "Sequence"
     description := "Execute multiple commands in order"
     category := .execution
     inputs := [⟨"Exec", .exec⟩]
     outputs := [⟨"Then 0", .exec⟩, ⟨"Then 1", .exec⟩, ⟨"Then 2", .exec⟩] }]

/-- The commands. -/
def commandTypes : List NodeType :=
  [command "give" "Give" "/give command"
    [⟨"Target", .selector⟩, ⟨"Item", .item⟩, ⟨"Count", .number⟩]
    [.asset "item" "Item ID" .item "minecraft:diamond",
     (Property.number "count" "Count" 1).range 1 64],
   command "summon" "Summon" "/summon command"
    [⟨"Position", .position⟩, ⟨"NBT", .nbt⟩]
    [.asset "entity" "Entity Type" .entity "minecraft:pig"],
   command "execute" "Execute" "/execute command with conditions"
    [⟨"As", .selector⟩, ⟨"At", .selector⟩, ⟨"Run", .string⟩]
    [.text "positioned" "Positioned" "",
     .text "rotated" "Rotated" ""],
   command "say" "Say" "/say command"
    [⟨"Message", .string⟩]
    [.text "message" "Message" "Hello World!"],
   command "tellraw" "Tellraw" "/tellraw with JSON text"
    [⟨"Target", .selector⟩, ⟨"Text", .string⟩]
    [.textArea "text" "Text" "\x7b\"text\":\"Hello!\",\"color\":\"gold\"\x7d"],
   command "effect" "Effect" "/effect give/clear"
    [⟨"Target", .selector⟩]
    [.select "action" "Action" ["give", "clear"] "give",
     .text "effect" "Effect" "minecraft:speed",
     .number "duration" "Duration" 30,
     .number "amplifier" "Amplifier" 0],
   command "teleport" "Teleport" "/tp command"
    [⟨"Target", .selector⟩, ⟨"Destination", .position⟩]
    [.text "x" "X" "~",
     .text "y" "Y" "~",
     .text "z" "Z" "~"],
   command "setblock" "Setblock" "/setblock command"
    [⟨"Position", .position⟩]
    [.asset "block" "Block" .block "minecraft:stone",
     .select "mode" "Mode" ["replace", "destroy", "keep"] "replace"],
   command "fill" "Fill" "/fill command"
    [⟨"From", .position⟩, ⟨"To", .position⟩]
    [.asset "block" "Block" .block "minecraft:stone",
     .select "mode" "Mode" ["replace", "destroy", "keep", "hollow", "outline"] "replace",
     .asset "replaceBlock" "Replace Filter" .block "minecraft:air"],
   command "kill" "Kill" "/kill command"
    [⟨"Target", .selector⟩]
    [],
   command "custom" "Custom Command" "Write any command"
    []
    [.textArea "command" "Command" "say Hello"],
   command "gamemode" "Gamemode" "Set player game mode"
    [⟨"Target", .selector⟩]
    [.select "mode" "Mode" ["survival", "creative", "adventure", "spectator"] "creative"],
   command "time" "Time" "Set or query world time"
    []
    [.select "action" "Action" ["set", "add", "query"] "set",
     .text "value" "Value" "day"],
   command "weather" "Weather" "Set world weather"
    []
    [.select "type" "Type" ["clear", "rain", "thunder"] "clear",
     .number "duration" "Duration (ticks)" 0],
   command "tick" "Tick" "Control game tick rate"
    []
    [.select "action" "Action" ["freeze", "unfreeze", "rate", "sprint"] "freeze",
     .text "value" "Value/Time" ""],
   command "ride" "Ride" "Make entities ride others"
    [⟨"Target", .selector⟩, ⟨"Vehicle", .selector⟩]
    [.select "action" "Action" ["mount", "dismount"] "mount"],
   command "damage" "Damage" "Inflict damage on entities"
    [⟨"Target", .selector⟩]
    [.number "amount" "Amount" 1,
     .text "damageType" "Type" "minecraft:generic",
     .text "attacker" "Attacker (opt)" ""],
   command "attribute" "Attribute" "Modify entity attributes"
    [⟨"Target", .selector⟩]
    [.asset "attribute" "Attribute" .entityAttribute "generic.max_health",
     .select "action" "Action"
      ["get", "base_get", "base_set", "modifier_add", "modifier_remove", "modifier_value_get"]
      "base_get",
     .number "value" "Value (Amount)" 0,
     .select "operation" "Operation (Mod)" ["add", "multiply", "multiply_base"] "add",
     .text "uuid" "UUID (Mod)" "",
     .text "name" "Name (Mod)" ""]]

/-- The types that hand out selectors and other data. -/
def dataTypes : List NodeType :=
  [{ tag := "selector"
     title := "Selector"
     description := "Entity selector (@a, @p, @e, etc)"
     category := .selector
     outputs := [⟨"Selector", .selector⟩]
     properties :=
      [.select "base" "Base" ["@a", "@p", "@e", "@r", "@s", "@n"] "@a",
       .text "type" "Type" "",
       .text "tag" "Tag" "",
       .text "name" "Name" "",
       .number "limit" "Limit" 0,
       .text "distance" "Distance" ""] },
   { tag := "position"
     title := "Position"
     description := "3D coordinates"
     category := .data
     outputs := [⟨"Position", .position⟩]
     properties :=
      [.text "x" "X" "~",
       .text "y" "Y" "~",
       .text "z" "Z" "~",
       .select "type" "Type" ["Absolute", "Relative (~)", "Local (^)"] "Relative (~)"] },
   { tag := "nbt"
     title := "NBT Data"
     description := "NBT compound data"
     category := .data
     outputs := [⟨"NBT", .nbt⟩]
     properties := [.textArea "data" "NBT Data" "\x7b\x7d"] },
   { tag := "item_stack"
     title := "Item Stack"
     description := "Item with components"
     category := .data
     inputs := [⟨"NBT", .nbt⟩]
     outputs := [⟨"Item", .item⟩]
     properties :=
      [.asset "item" "Item ID" .item "minecraft:diamond",
       .number "count" "Count" 1,
       .textArea "components" "Components" ""] },
   { tag := "text"
     title := "Text"
     description := "String value"
     category := .data
     outputs := [⟨"String", .string⟩]
     properties := [.text "value" "Value" ""] },
   { tag := "number"
     title := "Number"
     description := "Numeric value"
     category := .data
     outputs := [⟨"Number", .number⟩]
     properties := [.number "value" "Value" 0] }]

/-- The types that branch, repeat and remember. -/
def logicTypes : List NodeType :=
  [{ tag := "if_condition"
     title := "If Condition"
     description := "Conditional branch"
     category := .logic
     inputs := [⟨"Exec", .exec⟩, ⟨"Condition", .string⟩]
     outputs := [⟨"True", .exec⟩, ⟨"False", .exec⟩]
     properties :=
      [.select "conditionType" "Type"
        ["if block", "if entity", "if score", "unless block", "unless entity"] "if entity",
       .text "condition" "Condition" "@s"] },
   { tag := "loop"
     title := "Loop"
     description := "Repeat actions multiple times"
     category := .logic
     inputs := [⟨"Exec", .exec⟩, ⟨"Count", .number⟩]
     outputs := [⟨"Loop Body", .exec⟩, ⟨"Completed", .exec⟩]
     properties := [(Property.number "iterations" "Iterations" 5).range 1 100] },
   { tag := "variable_get"
     title := "Get Variable"
     description := "Get a stored value"
     category := .logic
     outputs := [⟨"Value", .string⟩]
     properties := [.text "name" "Variable Name" "myVar"] },
   { tag := "variable_set"
     title := "Set Variable"
     description := "Store a value"
     category := .logic
     inputs := [⟨"Exec", .exec⟩, ⟨"Value", .string⟩]
     outputs := [⟨"Exec", .exec⟩]
     properties := [.text "name" "Variable Name" "myVar"] }]

/-- The standard catalog. -/
def standard : Catalog where
  types := executionTypes ++ commandTypes ++ dataTypes ++ logicTypes

end Catalog

end CommandGraph
