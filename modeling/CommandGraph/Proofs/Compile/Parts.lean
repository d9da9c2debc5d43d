import CommandGraph.Proofs.Compile.Wording

/-!
# The texts that commands are joined from

A script of a standard type asks for the values of some input pins, one after the other, and joins
them with words, properties and defaults to a command. `NodeView.texts?` gives the texts that are
joined, with the values of all input pins at hand, and `Compiler.synthesize_of_texts?` says that
these make the command. Nothing else has to be known of a script to tell what its command is like:
both the defaults of fields and the outlines of commands are matched with the texts.

Anchors, which write comments, and commands that are given by hand are not joined from texts.
-/

namespace CommandGraph

open Commands

/-- The texts that the command of a node is joined from, by the values of its input pins. There are
none if the node's type joins its command in another way or writes none. -/
def NodeView.texts? (view : NodeView) (input : String → String) : Option (List String) :=
  let inputOr pin default := orDefault (input pin) default
  let property := view.property
  match view.node.tag with
  | "give" => some ["give", inputOr "Target" "@p", input "Item", input "Count"]
  | "summon" => some ["summon", property "entity", inputOr "Position" "~ ~ ~", input "NBT"]
  | "execute" =>
    let clauses := clause "as" (input "As") ++ clause "at" (input "At")
      ++ clause "positioned" (property "positioned") ++ clause "rotated" (property "rotated")
    -- Without anything to run there is no command.
    some (if Text.isBlankText (input "Run") then []
      else ["execute"] ++ clauses ++ ["run", input "Run"])
  | "say" => some ["say", input "Message"]
  | "tellraw" => some ["tellraw", inputOr "Target" "@a", input "Text"]
  | "effect" =>
    let subject := [inputOr "Target" "@s", property "effect"]
    some (if property "action" = "clear" then ["effect", "clear"] ++ subject
      else ["effect", "give"] ++ subject ++ [property "duration", property "amplifier"])
  | "teleport" =>
    let coordinates := joinParts [property "x", property "y", property "z"]
    some ["tp", inputOr "Target" "@s", inputOr "Destination" coordinates]
  | "setblock" =>
    some ["setblock", inputOr "Position" "~ ~ ~", property "block", property "mode"]
  | "fill" =>
    let filter := if property "mode" = "replace" then property "replaceBlock" else ""
    some ["fill", input "From", input "To", property "block", property "mode", filter]
  | "kill" => some ["kill", inputOr "Target" "@e"]
  | "gamemode" => some ["gamemode", property "mode", inputOr "Target" "@s"]
  | "time" =>
    let value :=
      if property "action" = "query" then property "value" else view.propertyOr "value" "1000"
    some ["time", property "action", value]
  | "weather" =>
    let lasts := (view.number? "duration").any Double.isPositive
    some ["weather", property "type", if lasts then property "duration" else ""]
  | "tick" =>
    let action := property "action"
    some ["tick", action, if action = "rate" ∨ action = "sprint" then property "value" else ""]
  | "ride" =>
    let rider := ["ride", inputOr "Target" "@s", property "action"]
    some (if property "action" = "dismount" then rider
      else rider ++ [inputOr "Vehicle" nearestVehicle])
  | "damage" =>
    let attacker := property "attacker"
    let link := if Text.isBlankText attacker then "" else "by"
    some ["damage", inputOr "Target" "@s", property "amount", property "damageType", link, attacker]
  | "attribute" =>
    let subject := ["attribute", inputOr "Target" "@s", property "attribute"]
    some (((attributeAction? view).map (subject ++ ·)).getD [])
  | _ => none

namespace Compiler

/-- A node with texts has a script, and this joins them, whatever answers it gets. -/
theorem exists_synthesizer_of_texts? {view : NodeView} (value : Query → String)
    {texts : List String}
    (h : view.texts? (fun pin => value (.resolve view.node.id pin)) = some texts) :
    ∃ script, standard.synthesizer? view.node.tag = some script ∧
      (script view).run (m := Id) value = joinParts texts := by
  unfold NodeView.texts? at h
  dsimp only at h
  split at h
  case h_18 => cases h
  all_goals
    rename_i htag
    cases h
    refine ⟨_, (congrArg standard.synthesizer? htag).trans rfl, ?_⟩
  -- `execute` asks for its clauses only if there is something to run.
  case h_3 =>
    rw [execute, Script.run_bind, NodeView.run_input]
    by_cases hrun : Text.isBlankText (value (.resolve view.node.id "Run")) = true
    · rw [if_pos hrun, if_pos hrun]
      rfl
    · rw [if_neg hrun, if_neg hrun]
      simp only [Script.run_bind, Script.run_pure, NodeView.run_input]
  -- `effect` and `ride` have two forms each, by the action.
  case h_6 =>
    simp only [effect, Script.run_bind, NodeView.run_inputOr]
    split <;> rfl
  case h_15 =>
    simp only [ride, Script.run_bind, NodeView.run_inputOr]
    split
    · rfl
    · simp only [Script.run_bind, Script.run_pure, NodeView.run_inputOr]
      rfl
  -- `attribute` writes nothing for an action that is not known.
  case h_17 =>
    simp only [attributeChange, Script.run_bind, NodeView.run_inputOr]
    cases attributeAction? view <;> rfl
  -- All others ask for their values and join them.
  all_goals simp only [give, summon, say, tellraw, teleport, setblock, fill, kill, gamemode, time,
    weather, tick, damage, Script.run_bind, Script.run_pure, NodeView.run_input,
    NodeView.run_inputOr]

/-- A node writes the command that its texts make. -/
theorem synthesize_of_texts? {g : Graph} {id : NodeId} {node : Node} {texts : List String}
    (hnode : g.node? id = some node)
    (h : ((standard.resolver g).view node).texts? ((standard.resolver g).ownInput id) =
      some texts) :
    (standard.resolver g).synthesize id = joinParts texts := by
  obtain rfl : node.id = id := (Graph.node?_eq_some hnode).2
  obtain ⟨script, hscript, hrun⟩ := exists_synthesizer_of_texts?
    (fun q => (((standard.resolver g).ask q).run [node.id]).1) h
  rw [← hrun]
  exact Resolver.synthesize_eq_run hnode hscript

end Compiler

end CommandGraph
