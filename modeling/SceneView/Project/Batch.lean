import SceneView.Project.Cache
import SceneView.Project.Inputs

/-!
# Compiling many documents

Every document is compiled for itself. Of several documents with the same output file the first one
in path order keeps it.
-/

namespace SceneView

structure Outcome where
  path : Path
  result : Except Diagnostic CompiledView
  log : List LogEntry := []

inductive Failure where
  | read (path : Path) (cause : FileError)
  | create (path : Path) (cause : FileError)
  | write (path : Path) (cause : FileError)
deriving DecidableEq, Repr

def Failure.message : Failure → String
  | read path cause => "cannot read " ++ path.text ++ ": " ++ cause.message
  | create path cause => "cannot create " ++ path.text ++ ": " ++ cause.message
  | write path cause => "cannot write " ++ path.text ++ ": " ++ cause.message

def Outcome.ofSource (path : Path) (options : CompileOptions) (source : String) : Outcome :=
  match compileView options source with
  | (.ok view, log) => { path, result := .ok view, log }
  | (.error fault, log) => { path, result := .error (fault.toDiagnostic path.text), log }

def targetOf (outDir : Path) (view : CompiledView) : Path :=
  outDir.child view.fileName

/-- Lets each output file have one document, with the files that are taken and by whom. -/
def claimTargetsFrom (outDir : Path) : List (Path × Path) → List Outcome → List Outcome
  | _, [] => []
  | claimed, o :: os =>
    match o.result with
    | .error _ => o :: claimTargetsFrom outDir claimed os
    | .ok view =>
      let target := targetOf outDir view
      match claimed.find? (·.1.same target) with
      | none => o :: claimTargetsFrom outDir ((target, o.path) :: claimed) os
      | some (_, first) =>
        let fault : Fault := .conflict (.outputFile view.className first.text target.text) 0
        { o with result := .error (fault.toDiagnostic o.path.text) } ::
          claimTargetsFrom outDir claimed os

/-- Lets each output file have one document, the first. -/
def claimTargets (outDir : Path) (os : List Outcome) : List Outcome :=
  claimTargetsFrom outDir [] os

def outputs (outDir : Path) (os : List Outcome) : List (Path × String) :=
  os.filterMap fun o =>
    match o.result with
    | .ok view => some (targetOf outDir view, view.code)
    | .error _ => none

def diagnostics (os : List Outcome) : List Diagnostic :=
  os.filterMap fun o =>
    match o.result with
    | .ok _ => none
    | .error d => some d

variable {m : Type → Type} [Monad m] [FileAccess m]

/-- Compiles a document, or takes its stored result. -/
def compileFile (options : CompileOptions) (cache? : Option Cache) (path : Path) :
    ExceptT Failure m Outcome := do
  match ← (FileAccess.read path : m _) with
  | .error cause => throw (.read path cause)
  | .ok source =>
    match cache? with
    | none => return Outcome.ofSource path options source
    | some cache =>
      match ← (cache.get? path options source : m _) with
      | some view => return { path, result := .ok view }
      | none =>
        let outcome := Outcome.ofSource path options source
        match outcome.result with
        | .ok view => (cache.store path options source view : m _)
        | .error _ => pure ()
        return outcome

def writeAll (files : List (Path × String)) : ExceptT Failure m Unit :=
  files.forM fun (path, text) => do
    match ← (FileAccess.write path text : m _) with
    | .ok () => pure ()
    | .error cause => throw (.write path cause)

def writeOutputs (outDir : Path) (os : List Outcome) : ExceptT Failure m (List Path) := do
  let files := outputs outDir os
  if files.isEmpty then return []
  match ← (FileAccess.createDirectories outDir : m _) with
  | .error cause => throw (.create outDir cause)
  | .ok () =>
    writeAll files
    return files.map (·.1)

end SceneView
