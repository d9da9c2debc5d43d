/-!
# Arguments of the command line

There are three commands: `compile` takes the path of a saved graph and perhaps a file to write to,
`diff` takes the paths of two dumps and perhaps a flag for JSON, and `catalog` takes nothing.
Options may stand before, between and after the operands. The option `-v` is known everywhere and
may be repeated.

An argument that starts with a dash, other than the dash alone, is an option; two dashes by
themselves make every argument after them an operand. A short option takes its value from the rest
of its argument, after an equals sign or without one, or else from the next argument; a long option
takes it from behind an equals sign or from the next argument. Any other usage is refused.
-/

namespace CommandGraph.Cli

/-- What is to be done. -/
inductive Action where
  /-- Compile the saved graph at a path, and write the commands to a file or print them. -/
  | compile (path : String) (output : Option String)
  /-- Compare the dumps at two paths, and print the comparison in words or as JSON. -/
  | diff (old new : String) (json : Bool)
  /-- List the node types. -/
  | catalog
deriving DecidableEq

/-- The commands. -/
inductive Name where
  /-- The command that compiles. -/
  | compile
  /-- The command that compares. -/
  | diff
  /-- The command that lists. -/
  | catalog
deriving DecidableEq

namespace Name

/-- The command with a name. -/
def ofText? : String → Option Name
  | "compile" => some compile
  | "diff" => some diff
  | "catalog" => some catalog
  | _ => none

end Name

/-- The arguments of a command that have been read. -/
structure Options where
  /-- The operands, in order. -/
  operands : List String := []
  /-- The file to write to. -/
  output : Option String := none
  /-- Whether JSON is asked for. -/
  json : Bool := false
  /-- Whether the next argument is the file to write to. -/
  awaitsOutput : Bool := false
  /-- Whether all further arguments are operands. -/
  literal : Bool := false
deriving DecidableEq

namespace Options

/-- Takes the file to write to, unless there is one already. -/
def setOutput? (o : Options) (path : String) : Option Options :=
  if o.output.isSome then none else some { o with output := some path, awaitsOutput := false }

/-- Asks for JSON, unless that has been done already. -/
def setJson? (o : Options) : Option Options :=
  if o.json then none else some { o with json := true }

/-- Awaits the file to write to. -/
def awaitOutput? (o : Options) : Option Options :=
  if o.output.isSome then none else some { o with awaitsOutput := true }

/-- Takes a long option, of which `body` is what follows the dashes. -/
def long? (name : Name) (o : Options) (body : List Char) : Option Options :=
  let key := String.ofList (body.takeWhile (· != '='))
  match body.dropWhile (· != '=') with
  | _ :: value =>
    if key = "output" ∧ name = .compile then o.setOutput? (String.ofList value) else none
  | [] =>
    if key = "verbose" then some o
    else if key = "json" ∧ name = .diff then o.setJson?
    else if key = "output" ∧ name = .compile then o.awaitOutput?
    else none

/-- Takes short options written together, behind one dash. -/
def short? (name : Name) (o : Options) : List Char → Option Options
  | [] => some o
  | 'v' :: rest => short? name o rest
  | 'o' :: rest =>
    if name = .compile then
      match rest with
      | [] => o.awaitOutput?
      -- One equals sign is not part of the value.
      | '=' :: value => o.setOutput? (String.ofList value)
      | value => o.setOutput? (String.ofList value)
    else none
  | _ => none

/-- Takes one more argument of a command. -/
def add? (name : Name) (o : Options) (arg : String) : Option Options :=
  if o.literal then some { o with operands := o.operands ++ [arg] }
  else match arg.toList with
    -- An option never is the value of another, so an option that awaits one is then incomplete.
    | '-' :: '-' :: body =>
      if o.awaitsOutput then none
      else if body.isEmpty then some { o with literal := true }
      else long? name o body
    | '-' :: c :: rest => if o.awaitsOutput then none else short? name o (c :: rest)
    | _ =>
      if o.awaitsOutput then o.setOutput? arg
      else some { o with operands := o.operands ++ [arg] }

/-- What a command is to do with its arguments. -/
def action? (name : Name) (o : Options) : Option Action :=
  if o.awaitsOutput then none
  else match name, o.operands with
    | .compile, [path] => some (.compile path o.output)
    | .diff, [old, new] => some (.diff old new o.json)
    | .catalog, [] => some .catalog
    | _, _ => none

end Options

/-- Whether an argument in front of the command only asks for more messages. -/
def isVerbose (arg : String) : Bool :=
  match arg.toList with
  | '-' :: 'v' :: rest => rest.all (· == 'v')
  | _ => arg == "--verbose"

/-- What the arguments of the program ask for; nothing if they are used wrongly. -/
def parse? (args : List String) : Option Action :=
  match args.dropWhile isVerbose with
  | [] => none
  | first :: rest => do
    let name ← Name.ofText? first
    let options ← rest.foldlM (Options.add? name) {}
    options.action? name

end CommandGraph.Cli
