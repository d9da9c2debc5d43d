/-!
# Files

What can go wrong with a file, and the two things that a program does with files: read one as text,
and write one. `FileAccess` leaves open how that is done, so a program over files can be run on the
real file system or on files held in memory.
-/

namespace CommandGraph

/-- Why a file could not be read or written. -/
inductive FileError where
  /-- There is no such file, or no such directory to put it in. -/
  | notFound
  /-- What is taken for a directory is a file. -/
  | notDirectory
  /-- What is taken for a file is a directory. -/
  | isDirectory
  /-- The path or a name in it is longer than the system takes. -/
  | nameTooLong
  /-- The path holds the character that ends a path. -/
  | endInName
  /-- The bytes of the file are no text. -/
  | notText
  /-- Anything else, in the system's words. -/
  | other (message : String)
deriving DecidableEq

namespace FileError

/-- A failure in the system's words. -/
def message : FileError → String
  | notFound => "No such file or directory (os error 2)"
  | notDirectory => "Not a directory (os error 20)"
  | isDirectory => "Is a directory (os error 21)"
  | nameTooLong => "File name too long (os error 36)"
  | endInName => "file name contained an unexpected NUL byte"
  | notText => "stream did not contain valid UTF-8"
  | other message => message

end FileError

/-- Access to files. -/
structure FileAccess (m : Type → Type) where
  /-- Reads the file at a path as text. -/
  read : String → m (Except FileError String)
  /-- Writes a text to the file at a path, which need not be there before. -/
  write : String → String → m (Except FileError Unit)

end CommandGraph
