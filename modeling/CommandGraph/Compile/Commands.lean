import CommandGraph.Compile.Script

/-!
# How the standard types write their commands

A command is a list of parts. Blank parts are left out, the others are trimmed, and a single space
stands between them. Where a field has a default, the default stands in for an empty value only: a
value of blanks is left out like any other blank part.
-/

namespace CommandGraph

namespace Commands

/-- Puts the parts of a command together. -/
def joinParts (parts : List String) : String :=
  " ".intercalate ((parts.filter (!Text.isBlankText ·)).map Text.trim)

/-- A comment line and, below it, the command, if there is one. -/
def anchored (comment command : String) : String :=
  if command.isEmpty then comment else comment ++ "\n" ++ command

/-- The letter for the kind of a command block. A driven block belongs to a chain; any other block
has the first letter of its kind. -/
def blockLetter (view : NodeView) : Char :=
  if view.driven then 'C'
  else match (view.property "blockType").toList.head? with
    | some c => c.toUpper
    | none => 'R'

/-- The settings of a command block. -/
def blockSettings (view : NodeView) : String :=
  String.ofList
    ['[', blockLetter view, if view.flag "conditional" then 'C' else 'U',
     if view.flag "needsRedstone" then 'N' else 'A', ']']

/-- A command block. -/
def commandBlock : Synthesizer := fun view => do
  return anchored "# Command block" (joinParts [blockSettings view, ← view.input "Command"])

/-- A command for the chat. -/
def chatCommand : Synthesizer := fun view => do
  return anchored "# In chat" (Text.trim (← view.input "Command"))

/-- The `give` command. -/
def give : Synthesizer := fun view => do
  return joinParts
    ["give", ← view.inputOr "Target" "@p", ← view.input "Item", ← view.input "Count"]

/-- The `summon` command. -/
def summon : Synthesizer := fun view => do
  return joinParts
    ["summon", view.property "entity", ← view.inputOr "Position" "~ ~ ~", ← view.input "NBT"]

/-- A clause of the `execute` command; one without a value is left out. -/
def clause (keyword value : String) : List String :=
  if Text.isBlankText value then [] else [keyword, value]

/-- The `execute` command, which is nothing if there is nothing to run. -/
def execute : Synthesizer := fun view => do
  -- The clauses are asked for only if there is something to run.
  let run ← view.input "Run"
  if Text.isBlankText run then return ""
  else
    let clauses := clause "as" (← view.input "As") ++ clause "at" (← view.input "At")
      ++ clause "positioned" (view.property "positioned")
      ++ clause "rotated" (view.property "rotated")
    return joinParts (["execute"] ++ clauses ++ ["run", run])

/-- The `say` command. -/
def say : Synthesizer := fun view => do
  return joinParts ["say", ← view.input "Message"]

/-- The `tellraw` command. -/
def tellraw : Synthesizer := fun view => do
  return joinParts ["tellraw", ← view.inputOr "Target" "@a", ← view.input "Text"]

/-- The `effect` command. Clearing an effect takes neither duration nor strength. -/
def effect : Synthesizer := fun view => do
  let target ← view.inputOr "Target" "@s"
  if view.property "action" = "clear" then
    return joinParts ["effect", "clear", target, view.property "effect"]
  else
    return joinParts
      ["effect", "give", target, view.property "effect", view.property "duration",
       view.property "amplifier"]

/-- The `tp` command. An empty destination stands for the node's own coordinates. -/
def teleport : Synthesizer := fun view => do
  let coordinates := joinParts [view.property "x", view.property "y", view.property "z"]
  let destination ← view.inputOr "Destination" coordinates
  return joinParts ["tp", ← view.inputOr "Target" "@s", destination]

/-- The `setblock` command. -/
def setblock : Synthesizer := fun view => do
  return joinParts
    ["setblock", ← view.inputOr "Position" "~ ~ ~", view.property "block", view.property "mode"]

/-- The `fill` command. Only replacing takes a filter. -/
def fill : Synthesizer := fun view => do
  let mode := view.property "mode"
  let filter := if mode = "replace" then view.property "replaceBlock" else ""
  return joinParts
    ["fill", ← view.input "From", ← view.input "To", view.property "block", mode, filter]

/-- The `kill` command. -/
def kill : Synthesizer := fun view => do
  return joinParts ["kill", ← view.inputOr "Target" "@e"]

/-- A command written out by hand, taken as it is. -/
def custom : Synthesizer := fun view => do
  return view.property "command"

/-- The `gamemode` command. -/
def gamemode : Synthesizer := fun view => do
  return joinParts ["gamemode", view.property "mode", ← view.inputOr "Target" "@s"]

/-- The `time` command. A query may do without a value. -/
def time : Synthesizer := fun view => do
  let action := view.property "action"
  let value := if action = "query" then view.property "value" else view.propertyOr "value" "1000"
  return joinParts ["time", action, value]

/-- The `weather` command. Only a positive duration is written. -/
def weather : Synthesizer := fun view => do
  let lasts := (view.number? "duration").any Double.isPositive
  return joinParts
    ["weather", view.property "type", if lasts then view.property "duration" else ""]

/-- The `tick` command. Only setting a rate and sprinting take a value. -/
def tick : Synthesizer := fun view => do
  let action := view.property "action"
  let value := if action = "rate" ∨ action = "sprint" then view.property "value" else ""
  return joinParts ["tick", action, value]

/-- The vehicle that is mounted where none is given. -/
def nearestVehicle : String := "@e[limit=1,sort=nearest]"

/-- The `ride` command. Dismounting takes no vehicle. -/
def ride : Synthesizer := fun view => do
  let target ← view.inputOr "Target" "@s"
  let action := view.property "action"
  if action = "dismount" then return joinParts ["ride", target, action]
  else return joinParts ["ride", target, action, ← view.inputOr "Vehicle" nearestVehicle]

/-- The `damage` command. -/
def damage : Synthesizer := fun view => do
  let attacker := view.property "attacker"
  let link := if Text.isBlankText attacker then "" else "by"
  return joinParts
    ["damage", ← view.inputOr "Target" "@s", view.property "amount", view.property "damageType",
     link, attacker]

/-- The modifier that an attribute change names where none is given. -/
def modifierUuid : String := "0-0-0-0-0"

/-- The name of a new modifier where none is given. -/
def modifierName : String := "modification"

/-- What an `attribute` command does, by the node's action; nothing if the action is not known. -/
def attributeAction? (view : NodeView) : Option (List String) :=
  let uuid := view.propertyOr "uuid" modifierUuid
  match view.property "action" with
  | "get" => some ["get"]
  | "base_get" => some ["base", "get"]
  | "base_set" => some ["base", "set", view.property "value"]
  | "modifier_add" =>
    some ["modifier", "add", uuid, view.propertyOr "name" modifierName, view.property "value",
      view.property "operation"]
  | "modifier_remove" => some ["modifier", "remove", uuid]
  | "modifier_value_get" => some ["modifier", "value", "get", uuid]
  | _ => none

/-- The `attribute` command. -/
def attributeChange : Synthesizer := fun view => do
  let target ← view.inputOr "Target" "@s"
  match attributeAction? view with
  | none => return ""
  | some action => return joinParts (["attribute", target, view.property "attribute"] ++ action)

end Commands

/-- How the standard types write their commands. -/
def Compiler.standardSynthesizers : List (String × Synthesizer) :=
  [("command_block", Commands.commandBlock),
   ("chat_command", Commands.chatCommand),
   ("give", Commands.give),
   ("summon", Commands.summon),
   ("execute", Commands.execute),
   ("say", Commands.say),
   ("tellraw", Commands.tellraw),
   ("effect", Commands.effect),
   ("teleport", Commands.teleport),
   ("setblock", Commands.setblock),
   ("fill", Commands.fill),
   ("kill", Commands.kill),
   ("custom", Commands.custom),
   ("gamemode", Commands.gamemode),
   ("time", Commands.time),
   ("weather", Commands.weather),
   ("tick", Commands.tick),
   ("ride", Commands.ride),
   ("damage", Commands.damage),
   ("attribute", Commands.attributeChange)]

end CommandGraph
