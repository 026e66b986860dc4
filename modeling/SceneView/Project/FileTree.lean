import SceneView.Project.Path

/-!
# Files

What the commands need of a file system, and a file system that is a value: directories and files by
their names from the root, and the directory that relative paths start from.
-/

namespace SceneView

inductive FileError where
  | notFound | alreadyExists | notDirectory | isDirectory | nameTooLong | nulByte
  | described (text : String)
deriving DecidableEq, Repr

def FileError.message : FileError → String
  | notFound => "No such file or directory (os error 2)"
  | alreadyExists => "File exists (os error 17)"
  | notDirectory => "Not a directory (os error 20)"
  | isDirectory => "Is a directory (os error 21)"
  | nameTooLong => "File name too long (os error 36)"
  | nulByte => "file name contained an unexpected NUL byte"
  | described text => text

class FileAccess (m : Type → Type) where
  workingDirectory : m Path
  isFile : Path → m Bool
  isDirectory : Path → m Bool
  read : Path → m (Except FileError String)
  write : Path → String → m (Except FileError Unit)
  createDirectories : Path → m (Except FileError Unit)
  remove : Path → m Unit
  filesUnder : Path → m (List Path)

/-- A place from the root: the names on the way to it. -/
abbrev Place := List String

structure FileTree where
  directories : List Place := []
  files : List (Place × String) := []
  workingDirectory : Place := []
deriving DecidableEq, Repr

namespace FileTree

/-- The longest name in bytes. -/
def maxName : Nat := 255

/-- Whether a place is a directory; the root always is. -/
def isDirectoryAt (t : FileTree) (place : Place) : Bool :=
  place.isEmpty || t.directories.contains place

def fileAt? (t : FileTree) (place : Place) : Option String :=
  t.files.lookup place

def notDirectoryAt (t : FileTree) (place : Place) : FileError :=
  if (t.fileAt? place).isSome then .notDirectory else .notFound

/-- Follows pieces of a path from a place. Every place that is left must be a directory. -/
def follow (t : FileTree) : Place → List String → Except FileError Place
  | place, [] => .ok place
  | place, piece :: rest =>
    if t.isDirectoryAt place then
      if piece = "" || piece = "." then follow t place rest
      else if piece = ".." then follow t place.dropLast rest
      else if piece.utf8ByteSize > maxName then .error .nameTooLong
      else follow t (place ++ [piece]) rest
    else .error (t.notDirectoryAt place)

/-- The pieces of a path and the place they start from. -/
def start (t : FileTree) (p : Path) : Except FileError (Place × List String) :=
  if p.text.toList.contains '\x00' then .error .nulByte
  else if p.text = "" then .error .notFound
  else .ok (if p.isAbsolute then [] else t.workingDirectory, p.pieces)

def resolve (t : FileTree) (p : Path) : Except FileError Place := do
  let (place, pieces) ← t.start p
  t.follow place pieces

def isFile (t : FileTree) (p : Path) : Bool :=
  match t.resolve p with
  | .ok place => (t.fileAt? place).isSome
  | .error _ => false

def isDirectory (t : FileTree) (p : Path) : Bool :=
  match t.resolve p with
  | .ok place => t.isDirectoryAt place
  | .error _ => false

def read (t : FileTree) (p : Path) : Except FileError String := do
  let place ← t.resolve p
  if t.isDirectoryAt place then .error .isDirectory
  else
    match t.fileAt? place with
    | some text => .ok text
    | none => .error .notFound

def put (t : FileTree) (place : Place) (text : String) : FileTree :=
  { t with files := (place, text) :: t.files.filter (·.1 != place) }

def erase (t : FileTree) (place : Place) : FileTree :=
  { t with files := t.files.filter (·.1 != place) }

def write (t : FileTree) (p : Path) (text : String) : Except FileError FileTree := do
  let place ← t.resolve p
  if t.isDirectoryAt place then .error .isDirectory
  else .ok (t.put place text)

/-- Creates one directory. Slashes at the end of the path do not matter. -/
def createDirectory (t : FileTree) (p : Path) : Except FileError FileTree := do
  let (place, pieces) ← t.start p
  let place ← t.follow place (pieces.reverse.dropWhile (· = "")).reverse
  if t.isDirectoryAt place || (t.fileAt? place).isSome then .error .alreadyExists
  else .ok { t with directories := place :: t.directories }

/-- Creates a directory, and first those above it, in a number of steps. An existing directory is as
good as a new one. -/
def createDirectoriesWithin : (steps : Nat) → FileTree → Path → Except FileError Unit × FileTree
  | steps, t, p =>
    if p.text = "" then (.ok (), t)
    else
      match t.createDirectory p, steps, p.parent? with
      | .ok t, _, _ => (.ok (), t)
      | .error .notFound, steps + 1, some above =>
        match createDirectoriesWithin steps t above with
        | (.error e, t) => (.error e, t)
        | (.ok (), t) =>
          match t.createDirectory p with
          | .ok t => (.ok (), t)
          | .error e => (if t.isDirectory p then .ok () else .error e, t)
      | .error e, _, _ => (if t.isDirectory p then .ok () else .error e, t)

def createDirectories (t : FileTree) (p : Path) : Except FileError Unit × FileTree :=
  createDirectoriesWithin p.pieces.length t p

/-- The rest of a place below another. -/
def below? : Place → Place → Option Place
  | [], place => some place
  | _ :: _, [] => none
  | a :: as, b :: bs => if a = b then below? as bs else none

def filesUnder (t : FileTree) (p : Path) : List Path :=
  match t.resolve p with
  | .error _ => []
  | .ok place =>
    t.files.filterMap fun (file, _) => (below? place file).map fun names => names.foldl Path.child p

instance : FileAccess (StateM FileTree) where
  workingDirectory := do return ⟨"/" ++ "/".intercalate (← get).workingDirectory⟩
  isFile p := do return (← get).isFile p
  isDirectory p := do return (← get).isDirectory p
  read p := do return (← get).read p
  write p text := do
    match (← get).write p text with
    | .ok t =>
      set t
      return .ok ()
    | .error e => return .error e
  createDirectories p := modifyGet fun t => t.createDirectories p
  remove p := modify fun t =>
    match t.resolve p with
    | .ok place => t.erase place
    | .error _ => t
  filesUnder p := do return (← get).filesUnder p

end FileTree

end SceneView
