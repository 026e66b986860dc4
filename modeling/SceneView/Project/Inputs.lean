import SceneView.Project.FileTree

/-!
# Input documents

The documents that a command works on, each once and in the order of their paths.
-/

namespace SceneView

/-- Paths in order; equal ones stay in the order they had. -/
def sortPaths (ps : List Path) : List Path :=
  ps.mergeSort Path.le

/-- Paths without those that are the same as the one before them. -/
def dropRepeats : List Path → List Path
  | [] => []
  | p :: ps =>
    match dropRepeats ps with
    | [] => [p]
    | q :: qs => if p.same q then p :: qs else p :: q :: qs

variable {m : Type → Type} [Monad m] [FileAccess m]

def documentsUnder (extension : String) (dir : Path) : m (List Path) := do
  return sortPaths ((← FileAccess.filesUnder dir).filter (·.extension? == some extension))

/-- What an input stands for: a directory for the documents in it, anything else for itself. -/
def expandInput (extension : String) (input : Path) : m (List Path) := do
  if ← FileAccess.isDirectory input then documentsUnder extension input
  else return [input]

/-- The documents that the inputs stand for, or those of the source directory if there are none. -/
def collectInputs (inputs : List Path) (sourceDir : Path) (extension : String) : m (List Path) := do
  if inputs.isEmpty then documentsUnder extension sourceDir
  else return dropRepeats (sortPaths (← inputs.mapM (expandInput extension)).flatten)

end SceneView
