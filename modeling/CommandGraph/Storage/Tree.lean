import CommandGraph.Storage.File

/-!
# A file tree in memory

Files as a program sees them that runs in a working directory. A path is followed name by name, from
the root or from the working directory: the name `.` stays where it is, the name `..` goes to the
directory around it, which for the root is the root itself, and any other name is looked for in the
directory that has been reached.

The directories are those that the root of every system has and the working directory, which lies
in the one for temporary files under a name that no path can spell. The one thing in them from the
start, besides the files of the working directory, is the null device: it is empty to readers and
keeps nothing of what is written.
-/

namespace CommandGraph

/-- A place in the tree, as the names that lead to it from the root. -/
abbrev Location := List String

/-- A tree of files. -/
structure FileTree where
  /-- The bytes of each file, those written last first. -/
  files : List (Location × ByteArray)

namespace FileTree

/-- The working directory. Its own name is empty, as no name in a path is. -/
def workplace : Location := ["tmp", ""]

/-- The null device. -/
def nullDevice : Location := ["dev", "null"]

/-- The directories in the root. -/
def rootNames : List String :=
  ["bin", "boot", "dev", "etc", "home", "lib", "media", "mnt", "opt", "proc", "root", "run", "sbin",
   "srv", "sys", "tmp", "usr", "var"]

/-- Whether there is a directory at a place. -/
def isDirectory (place : Location) : Bool :=
  place == [] || place == workplace || rootNames.any (place == [·])

/-- The tree whose working directory holds files with the given names. -/
def ofFiles (files : List (String × ByteArray)) : FileTree where
  files := files.map fun file => (workplace ++ [file.1], file.2)

/-- The tree whose working directory is empty. -/
def empty : FileTree := ofFiles []

/-- What a path leads to. -/
inductive Target where
  /-- A directory. -/
  | directory (place : Location)
  /-- A file that is there. -/
  | file (place : Location) (bytes : ByteArray)
  /-- The null device. -/
  | nullDevice
  /-- A name in a directory that nothing has. -/
  | free (place : Location)

/-- A path has fewer bytes than this. -/
def pathLimit : Nat := 4096

/-- A name in a path has at most this many bytes. -/
def nameLimit : Nat := 255

/-- The names in a path, without the empty ones. -/
def names (path : String) : List String :=
  (path.splitOn "/").filter (!·.isEmpty)

/-- Where a path starts. -/
def start (path : String) : Target :=
  .directory (if path.toList.head? = some '/' then [] else workplace)

/-- Whether a path ends with a slash, and so can only mean a directory. -/
def meansDirectory (path : String) : Bool :=
  path.toList.getLast? == some '/'

/-- Refuses a path that is none, whatever files there are. -/
def checkPath (path : String) : Except FileError Unit :=
  if path.toList.contains '\x00' then .error .endInName
  else if path.isEmpty then .error .notFound
  else if pathLimit ≤ path.utf8ByteSize then .error .nameTooLong
  else .ok ()

/-- The directory from which a path goes on. -/
def Target.enter : Target → Except FileError Location
  | directory place => .ok place
  | file .. | nullDevice => .error .notDirectory
  | free _ => .error .notFound

/-- What is at a place. -/
def targetAt (tree : FileTree) (place : Location) : Target :=
  if isDirectory place then .directory place
  else if place = nullDevice then .nullDevice
  else match tree.files.lookup place with
    | some bytes => .file place bytes
    | none => .free place

/-- Goes on by one name. -/
def step (tree : FileTree) (target : Target) (name : String) : Except FileError Target := do
  let place ← target.enter
  if nameLimit < name.utf8ByteSize then throw .nameTooLong
  else if name = "." then return .directory place
  else if name = ".." then return .directory place.dropLast
  else return tree.targetAt (place ++ [name])

/-- Follows names from where a path starts. -/
def follow (tree : FileTree) (path : String) (names : List String) : Except FileError Target :=
  names.foldlM tree.step (start path)

/-- Reads the file at a path as text. -/
def read (tree : FileTree) (path : String) : Except FileError String := do
  checkPath path
  let target ← tree.follow path (names path)
  match target with
  | .directory _ => throw .isDirectory
  | .free _ => throw .notFound
  | .nullDevice => if meansDirectory path then throw .notDirectory else return ""
  | .file _ bytes =>
    if meansDirectory path then throw .notDirectory
    else match String.fromUTF8? bytes with
      | some text => return text
      | none => throw .notText

/-- Writes a text to the file at a path. -/
def write (tree : FileTree) (path text : String) : Except FileError FileTree := do
  checkPath path
  if meansDirectory path then
    -- The last name is not looked for: whatever it is, a directory cannot be written to.
    let parent ← tree.follow path (names path).dropLast
    let _ ← parent.enter
    throw .isDirectory
  else
    let target ← tree.follow path (names path)
    match target with
    | .directory _ => throw .isDirectory
    | .nullDevice => return tree
    | .file place _ | .free place => return ⟨(place, text.toUTF8) :: tree.files⟩

/-- Access to the files of a tree in memory. -/
def access : FileAccess (StateM FileTree) where
  read path := return (← get).read path
  write path text := do
    match (← get).write path text with
    | .ok tree => set tree; return .ok ()
    | .error e => return .error e

end FileTree

end CommandGraph
