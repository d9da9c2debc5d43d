import CommandGraph.Cli.Run

/-!
# The executable

Connects the program to the real file system, the standard output and the standard error.
-/

namespace CommandGraph

/-- A failure of the file system. Where one error stands for several failures its code tells them
apart; some calls give the code with a minus sign. -/
def FileError.ofSystem : IO.Error → FileError
  | .noFileOrDirectory .. => .notFound
  | .inappropriateType _ code _ => if code = 21 then .isDirectory else .notDirectory
  | .invalidArgument _ code details =>
    if code = 36 ∨ code = -36 then .nameTooLong
    else if code = 22 then .endInName
    else .other details
  | e => .other (toString e)

/-- The real file system. -/
def systemFiles : FileAccess IO where
  read path := do
    try
      match String.fromUTF8? (← IO.FS.readBinFile path) with
      | some text => return .ok text
      | none => return .error .notText
    catch e => return .error (.ofSystem e)
  write path text := do
    try
      IO.FS.writeFile path text
      return .ok ()
    catch e => return .error (.ofSystem e)

end CommandGraph

/-- Runs the program. -/
def main (args : List String) : IO UInt32 := do
  let outcome ← CommandGraph.Cli.run CommandGraph.systemFiles args
  IO.print outcome.printed
  match outcome.error with
  | some message => IO.eprintln ("\nError: " ++ message)
  | none => pure ()
  return outcome.exit.toUInt32
