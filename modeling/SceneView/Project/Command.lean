import SceneView.Project.Arguments
import SceneView.Project.Batch
import SceneView.Project.Config

/-!
# The command

Runs the command on files and says what it prints and how it ends: zero if every document was
compiled, one if some were not, two if the command could not be carried out.
-/

namespace SceneView

structure Completion where
  exit : Nat
  output : String := ""
  errors : String := ""
  log : List LogEntry := []
deriving DecidableEq, Repr

def Diagnostic.toJson (d : Diagnostic) : Json :=
  .ofMembers
    [("code", .ofString d.code), ("message", .ofString d.message), ("file", .ofString d.file),
      ("line", .ofNat d.line)]

def jsonReport (checked : Nat) (written : List Path) (ds : List Diagnostic) : Json :=
  .ofMembers
    [("checked", .ofNat checked), ("written", .ofStrings (written.map (·.text))),
      ("diagnostics", .array (ds.map Diagnostic.toJson))]

def linesText (lines : List String) : String :=
  String.join (lines.map (· ++ "\n"))

def report (format : ReportFormat) (os : List Outcome) (written : List Path) : Completion :=
  let ds := diagnostics os
  let exit := if ds.isEmpty then 0 else 1
  let log := os.flatMap (·.log)
  match format with
  | .json => { exit, output := (jsonReport os.length written ds).pretty "" ++ "\n", log }
  | .text =>
    { exit
      output := linesText (written.map ("wrote " ++ ·.text) ++
        [toString (os.length - ds.length) ++ " of " ++ toString os.length ++ " documents compiled"])
      errors := linesText (ds.map Diagnostic.text)
      log }

def failed (message : String) : Completion :=
  { exit := 2, errors := "error: " ++ message ++ "\n" }

def versionText : String := "inscribe 0.1.0\n"

def helpText : String :=
  linesText
    ["Compiles declarative view documents into TypeScript classes",
      "",
      "Usage: inscribe [OPTIONS] <COMMAND>",
      "",
      "Commands:",
      "  compile [PATHS]... [-o <OUT_DIR>] [--cache] [--format <text|json>]",
      "  check [PATHS]... [--format <text|json>]",
      "",
      "Options:",
      "  -v, --verbose          More output (-v debug, -vv trace)",
      "      --config <CONFIG>  Settings file to use",
      "  -h, --help             Print help",
      "  -V, --version          Print version"]

variable {m : Type → Type} [Monad m] [FileAccess m]

def configFor (config? : Option Path) : m (Except ConfigFault ProjectConfig) := do
  match config? with
  | some path => ProjectConfig.load path
  | none => ProjectConfig.discover (← FileAccess.workingDirectory)

def compileAll (config : ProjectConfig) (paths : List Path) (cache? : Option Cache) :
    ExceptT Failure m (List Outcome) := do
  let files ← (collectInputs paths config.sourceDir config.extension : m _)
  files.mapM (compileFile config.compile cache?)

def perform (config : ProjectConfig) (request : Request) : ExceptT Failure m Completion := do
  match request.task with
  | .compile outDir? useCache =>
    let outDir := outDir?.getD config.outDir
    let cache? ← if useCache then some <$> (Cache.openAt config.cacheDir : m _) else pure none
    let outcomes := claimTargets outDir (← compileAll config request.paths cache?)
    let written ← writeOutputs outDir outcomes
    return report request.format outcomes written
  | .check =>
    let outcomes := claimTargets config.outDir (← compileAll config request.paths none)
    return report request.format outcomes []

def runRequest (request : Request) : m Completion := do
  match ← configFor request.config? with
  | .error fault => return failed fault.message
  | .ok config =>
    match ← (perform config request).run with
    | .ok completion => return completion
    | .error failure => return failed failure.message

def runCommand (args : List String) : m Completion := do
  match Invocation.ofArguments? args with
  | some (.run request) => runRequest request
  | some .version => return { exit := 0, output := versionText }
  | some .help => return { exit := 0, output := helpText }
  | none => return failed "the arguments are not understood; try --help"

end SceneView
