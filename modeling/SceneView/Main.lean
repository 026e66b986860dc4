import SceneView.Project.Command

/-!
# The program

Runs the command on the files of the machine.
-/

namespace SceneView

def fileErrorOf : IO.Error → FileError
  | .noFileOrDirectory .. => .notFound
  | .alreadyExists .. => .alreadyExists
  | .inappropriateType .. => .isDirectory
  | e => .described (toString e)

def attempt (action : IO α) : IO (Except FileError α) := do
  try
    return .ok (← action)
  catch e => return .error (fileErrorOf e)

def isDirectoryOnDisk (path : String) : IO Bool := do
  try
    (← IO.FS.realPath path).isDir
  catch _ => return false

def isFileOnDisk (path : String) : IO Bool := do
  try
    let real ← IO.FS.realPath path
    return (← real.pathExists) && !(← real.isDir)
  catch _ => return false

partial def walk (path : Path) : IO (List Path) := do
  if ← isDirectoryOnDisk path.text then
    let entries ← (← IO.FS.realPath path.text).readDir
    let found ← entries.toList.mapM fun entry => walk (path.child entry.fileName)
    return found.flatten
  else if ← isFileOnDisk path.text then return [path]
  else return []

instance : FileAccess IO where
  workingDirectory := do return ⟨(← IO.currentDir).toString⟩
  isFile p := isFileOnDisk p.text
  isDirectory p := isDirectoryOnDisk p.text
  read p := attempt (IO.FS.readFile p.text)
  write p text := attempt (IO.FS.writeFile p.text text)
  createDirectories p := attempt (IO.FS.createDirAll p.text)
  remove p := do
    let _ ← attempt (IO.FS.removeFile p.text)
  filesUnder p := walk p

def levelFor (args : List String) : LogLevel :=
  match Invocation.ofArguments? args with
  | some (.run request) => .ofVerbosity request.verbosity
  | _ => .warn

end SceneView

open SceneView in
def main (args : List String) : IO UInt32 := do
  let completion ← runCommand args
  let stderr ← IO.getStderr
  for entry in completion.log do
    if (levelFor args).shows entry.level then stderr.putStrLn entry.line
  stderr.putStr completion.errors
  IO.print completion.output
  return completion.exit.toUInt32
