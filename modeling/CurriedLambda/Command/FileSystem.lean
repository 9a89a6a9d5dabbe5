/-!
A file system of files and directories, as far as a program can see it that names files
by paths, reads them whole and writes them whole. Every name on the way to a file must
be that of a directory, and neither a name nor a path may take too many bytes.
-/
namespace CurriedLambda.Command

/-- An error that the operating system reports. -/
structure SystemError where
  description : String
  number : Nat
  deriving DecidableEq

namespace SystemError

def notFound : SystemError := ⟨"No such file or directory", 2⟩

def notDirectory : SystemError := ⟨"Not a directory", 20⟩

def isDirectory : SystemError := ⟨"Is a directory", 21⟩

def nameTooLong : SystemError := ⟨"File name too long", 36⟩

def render (error : SystemError) : String :=
  error.description ++ " (os error " ++ toString error.number ++ ")"

end SystemError

/-- The names on the way from the root. -/
abbrev Location := List String

inductive Entry
  | file (content : ByteArray)
  | directory

/-- A path as it is walked, without the empty names between neighbouring slashes. -/
structure Path where
  absolute : Bool
  names : List String
  /-- Whether a slash at the end says that a directory is meant. -/
  directory : Bool
  deriving DecidableEq

/-- The names between the slashes of a path. -/
def Path.split : List Char → List (List Char)
  | [] => [[]]
  | c :: rest =>
    if c = '/' then [] :: split rest
    else
      match split rest with
      | [] => [[c]]
      | name :: more => (c :: name) :: more

/-- The most bytes that a path may take. -/
def Path.maxSize : Nat := 4095

/-- The most bytes that one name may take. -/
def Path.maxNameSize : Nat := 255

/-- The path that a text spells. The empty text names nothing. -/
def Path.ofString (text : String) : Except SystemError Path :=
  if text = "" then .error .notFound
  else if Path.maxSize < text.utf8ByteSize then .error .nameTooLong
  else .ok
    { absolute := text.toList.head? = some '/'
      names := ((Path.split text.toList).filter (· ≠ [])).map String.ofList
      directory := text.toList.getLast? = some '/' }

structure FileSystem where
  entries : Location → Option Entry
  workingDirectory : Location

namespace FileSystem

/-- What is at a location. The root is a directory. -/
def entry? (system : FileSystem) : Location → Option Entry
  | [] => some .directory
  | location => system.entries location

/-- Fails unless the location is a directory. -/
def enter (system : FileSystem) (location : Location) : Except SystemError Unit :=
  match system.entry? location with
  | some .directory => .ok ()
  | some (.file _) => .error .notDirectory
  | none => .error .notFound

/-- Where a name leads from a directory. -/
def descend (location : Location) (name : String) : Location :=
  if name = "." then location
  else if name = ".." then location.dropLast
  else location ++ [name]

/-- Looks a name up in a location, which must be a directory. Nothing need be there. -/
def lookup (system : FileSystem) (location : Location) (name : String) :
    Except SystemError Location := do
  system.enter location
  if Path.maxNameSize < name.utf8ByteSize then .error .nameTooLong
  else .ok (descend location name)

/-- Follows names from a location on. Each one but the last must lead to a directory. -/
def walk (system : FileSystem) (location : Location) : List String → Except SystemError Location
  | [] => .ok location
  | name :: rest =>
    match system.lookup location name with
    | .ok next => system.walk next rest
    | .error error => .error error

/-- Where relative and absolute paths start. -/
def origin (system : FileSystem) (path : Path) : Location :=
  if path.absolute then [] else system.workingDirectory

/-- The content of the file that a path names. -/
def read (system : FileSystem) (path : String) : Except SystemError ByteArray := do
  let path ← Path.ofString path
  let location ← system.walk (system.origin path) path.names
  match system.entry? location with
  | none => .error .notFound
  | some .directory => .error .isDirectory
  | some (.file content) => if path.directory then .error .notDirectory else .ok content

/-- Where the file lies, or would lie, that is written under a path. -/
def target (system : FileSystem) (path : String) : Except SystemError Location := do
  let path ← Path.ofString path
  match path.names.getLast? with
  | none => .error .isDirectory
  | some name =>
    let parent ← system.walk (system.origin path) path.names.dropLast
    system.enter parent
    if path.directory || name = "." || name = ".." then .error .isDirectory
    else do
      let location ← system.lookup parent name
      match system.entry? location with
      | some .directory => .error .isDirectory
      | _ => .ok location

/-- The file system with this entry put at a location. -/
def put (system : FileSystem) (location : Location) (entry : Entry) : FileSystem :=
  { system with
    entries := fun other => if other = location then some entry else system.entries other }

/-- Writes a file, which need not exist before. -/
def write (system : FileSystem) (path : String) (content : ByteArray) :
    Except SystemError FileSystem := do
  let location ← system.target path
  return system.put location (.file content)

end FileSystem

end CurriedLambda.Command
