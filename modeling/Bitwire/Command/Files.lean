import Bitwire.Bytes

/-! Files as the commands use them: whole files are read and written under a path. `Disk` is such
a store held in memory. -/
namespace Bitwire.Command

inductive FileCause
  | notFound
  | isDirectory
  | notDirectory
  | noSpace
  | other (text : Bytes)
  deriving DecidableEq, Repr

def FileCause.message : FileCause → Bytes
  | notFound => utf8 "no such file or directory"
  | isDirectory => utf8 "is a directory"
  | notDirectory => utf8 "not a directory"
  | noSpace => utf8 "no space left on device"
  | other text => text

/-- A directory can be opened for reading, and a file that there is no room for can be opened for
writing, so that they are refused only later. -/
inductive FileAction
  | opening | reading | writing | closing
  deriving DecidableEq, Repr

structure FileError where
  action : FileAction
  path : Bytes
  cause : FileCause
  deriving DecidableEq, Repr

def FileError.message (e : FileError) : Bytes :=
  (match e.action with
    | .opening => utf8 "open "
    | .reading => utf8 "read "
    | .writing => utf8 "write "
    | .closing => utf8 "close ") ++ e.path ++ utf8 ": " ++ e.cause.message

class FileStore (m : Type → Type) where
  readFile : Bytes → m (Except FileError Bytes)
  /-- Creates the file, or empties it, and then writes to it. -/
  writeFile : (path content : Bytes) → m (Except FileError Unit)

/-- The names on the way from the root. -/
abbrev Path := List Bytes

/-- The directories of a disk are those on the way to a file, to the working directory or to its one
device. -/
structure Disk where
  workingDirectory : Path
  files : List (Path × Bytes)
  deriving DecidableEq, Repr

inductive Entry
  | nothing
  | directory
  | file (content : Bytes)
  | device
  deriving DecidableEq, Repr

def slash : UInt8 := 0x2F

namespace Disk

/-- The place of the device. It can be opened, but there is no room on it for anything. -/
def fullDevice : Path := [utf8 "dev", utf8 "full"]

def entry (d : Disk) (path : Path) : Entry :=
  if path = fullDevice then .device
  else
    match d.files.lookup path with
    | some content => .file content
    | none =>
      if path.isPrefixOf fullDevice ∨ path.isPrefixOf d.workingDirectory ∨
          d.files.any (fun file => path.isPrefixOf file.1) then .directory
      else .nothing

/-- Follows names from a directory. Every name but the last has to lead to a directory. -/
def follow (d : Disk) (directory : Path) : List Bytes → Except FileCause Path
  | [] => .ok directory
  | name :: rest =>
    if name = [] ∨ name = utf8 "." then d.follow directory rest
    else if name = utf8 ".." then d.follow directory.dropLast rest
    else if rest = [] then .ok (directory ++ [name])
    else
      match d.entry (directory ++ [name]) with
      | .directory => d.follow (directory ++ [name]) rest
      | .file _ | .device => .error .notDirectory
      | .nothing => .error .notFound

def resolve (d : Disk) (path : Bytes) : Except FileCause Path :=
  if path = [] then .error .notFound
  else if path.head? = some slash then d.follow [] (path.splitOn slash)
  else d.follow d.workingDirectory (path.splitOn slash)

def read (d : Disk) (path : Bytes) : Except FileError Bytes :=
  match d.resolve path with
  | .error cause => .error ⟨.opening, path, cause⟩
  | .ok place =>
    match d.entry place with
    | .file content => .ok content
    | .directory => .error ⟨.reading, path, .isDirectory⟩
    -- zeros come from the device without end, more than memory can hold
    | .device => .error ⟨.reading, path, .other (utf8 "cannot allocate memory")⟩
    | .nothing => .error ⟨.opening, path, .notFound⟩

def put (d : Disk) (place : Path) (content : Bytes) : Disk :=
  if d.files.any (·.1 == place) then
    { d with files := d.files.map fun file => if file.1 = place then (place, content) else file }
  else { d with files := d.files ++ [(place, content)] }

/-- Writes a file. A path that ends in a slash names a directory, whatever is there. -/
def write (d : Disk) (path content : Bytes) : Except FileError Disk :=
  let named := dropTrailing slash path
  match d.resolve (if named = [] then path else named) with
  | .error cause => .error ⟨.opening, path, cause⟩
  | .ok place =>
    if named ≠ path ∨ d.entry place = .directory then .error ⟨.opening, path, .isDirectory⟩
    else if d.entry place = .device then .error ⟨.writing, path, .noSpace⟩
    else .ok (d.put place content)

/-- The files below the working directory that another disk does not hold as they are here, with
their paths from there. -/
def changesFrom (d before : Disk) : List (Path × Bytes) :=
  d.files.filterMap fun file =>
    if d.workingDirectory.isPrefixOf file.1 ∧ before.files.lookup file.1 ≠ some file.2 then
      some (file.1.drop d.workingDirectory.length, file.2)
    else none

end Disk

instance Disk.fileStore : FileStore (StateM Disk) where
  readFile path := do return (← get).read path
  writeFile path content := do
    match (← get).write path content with
    | .ok disk => set disk; return .ok ()
    | .error e => return .error e

end Bitwire.Command
