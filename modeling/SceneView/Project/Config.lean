import SceneView.Json.Reader
import SceneView.Options.Record
import SceneView.Project.FileTree

/-!
# Project settings

A project keeps its settings in a file at its top. Directories in it are relative to the file; a
project without one has the default settings, relative to where the search began.
-/

namespace SceneView

structure ProjectConfig where
  sourceDir : Path := ⟨"src"⟩
  outDir : Path := ⟨"src/generated"⟩
  extension : String := "xml"
  cacheDir : Path := ⟨".inscribe/cache"⟩
  compile : CompileOptions := {}
deriving DecidableEq, Repr

inductive ConfigFault where
  | unreadable (path : Path) (cause : FileError)
  | malformed (path : Path)
deriving DecidableEq, Repr

def ConfigFault.message : ConfigFault → String
  | unreadable path cause => "failed to read " ++ path.text ++ ": " ++ cause.message
  | malformed path => "invalid " ++ path.text

namespace ProjectConfig

def fileName : String := "inscribeConfig.json"

def pathOfJson? (j : Json) : Option Path :=
  j.text?.map Path.mk

def ofJson? (j : Json) : Option ProjectConfig := do
  let fallback : ProjectConfig := {}
  match ← j.fields? ["sourceDir", "outDir", "extension", "cacheDir", "compile"] with
  | [sourceDir, outDir, extension, cacheDir, compile] =>
    return {
      sourceDir := ← Json.optional fallback.sourceDir pathOfJson? sourceDir
      outDir := ← Json.optional fallback.outDir pathOfJson? outDir
      extension := ← Json.optional fallback.extension Json.text? extension
      cacheDir := ← Json.optional fallback.cacheDir pathOfJson? cacheDir
      compile := ← Json.optional fallback.compile CompileOptions.ofJson? compile }
  | _ => none

def parse? (text : String) : Option ProjectConfig :=
  (Json.read? text).bind ofJson?

/-- A directory as seen from another; an absolute one stays as it is. -/
def resolved (base dir : Path) : Path :=
  if dir.isAbsolute then dir else base.join dir

def relativeTo (c : ProjectConfig) (base : Path) : ProjectConfig :=
  { c with
    sourceDir := resolved base c.sourceDir
    outDir := resolved base c.outDir
    cacheDir := resolved base c.cacheDir }

variable {m : Type → Type} [Monad m] [FileAccess m]

def load (path : Path) : m (Except ConfigFault ProjectConfig) := do
  match ← FileAccess.read path with
  | .error cause => return .error (.unreadable path cause)
  | .ok text =>
    match parse? text with
    | none => return .error (.malformed path)
    | some config =>
      match path.parent? with
      | some base => return .ok (config.relativeTo base)
      | none => return .ok config

/-- The first of the paths that leads to a file. -/
def firstFile? : List Path → m (Option Path)
  | [] => return none
  | path :: paths => do
    if ← FileAccess.isFile path then return some path
    firstFile? paths

/-- The nearest settings file from a directory upwards. -/
def find? (start : Path) : m (Option Path) :=
  firstFile? (start.ancestors.map (·.child fileName))

/-- The nearest settings from a directory upwards, or the default ones. -/
def discover (start : Path) : m (Except ConfigFault ProjectConfig) := do
  match ← find? start with
  | some path => load path
  | none => return .ok (({} : ProjectConfig).relativeTo start)

end ProjectConfig

end SceneView
