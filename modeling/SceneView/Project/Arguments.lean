import SceneView.Project.Path

/-!
# Command line

The arguments of the command: options and the name of a subcommand, then options and paths. Options
for all subcommands may stand on both sides; of two values the later side wins.
-/

namespace SceneView

inductive ReportFormat where
  | text | json
deriving DecidableEq, Repr

def ReportFormat.ofName? : String → Option ReportFormat
  | "text" => some text
  | "json" => some json
  | _ => none

inductive Task where
  | compile (outDir? : Option Path) (useCache : Bool)
  | check
deriving DecidableEq, Repr

structure Request where
  verbosity : Nat
  config? : Option Path
  paths : List Path
  format : ReportFormat
  task : Task
deriving DecidableEq, Repr

inductive Invocation where
  | run (request : Request)
  | version
  | help
deriving DecidableEq, Repr

/-- Where an argument stands: before the subcommand, or after it. -/
inductive Level where
  | top | compile | check
deriving DecidableEq, Repr

inductive Switch where
  | verbose | config | outDir | cache | format | version | help
deriving DecidableEq, Repr

namespace Switch

def allowed (level : Level) : Switch → Bool
  | verbose | config | help => true
  | version => level = .top
  | outDir | cache => level = .compile
  | format => level ≠ .top

def ofLong? : String → Option Switch
  | "verbose" => some verbose
  | "config" => some config
  | "out-dir" => some outDir
  | "cache" => some cache
  | "format" => some format
  | "version" => some version
  | "help" => some help
  | _ => none

def ofShort? : Char → Option Switch
  | 'v' => some verbose
  | 'o' => some outDir
  | 'V' => some version
  | 'h' => some help
  | _ => none

def takesValue : Switch → Bool
  | config | outDir | format => true
  | verbose | cache | version | help => false

end Switch

structure Draft where
  verbosity : Nat := 0
  config? : Option Path := none
  outDir? : Option Path := none
  cache : Bool := false
  format? : Option ReportFormat := none
  /-- The paths, the last one first. -/
  paths : List Path := []
  /-- The subcommand with what follows it. -/
  sub? : Option (Level × List String) := none
deriving DecidableEq, Repr

inductive Stop where
  | refused | version | help
deriving DecidableEq, Repr

namespace Draft

/-- A path must not be empty. -/
def path (text : String) : Except Stop Path :=
  if text = "" then .error .refused else .ok ⟨text⟩

/-- Sets an option that may stand only once. -/
def once (old? : Option α) (new : α) : Except Stop (Option α) :=
  if old?.isSome then .error .refused else .ok (some new)

def flag (d : Draft) : Switch → Except Stop Draft
  | .verbose => .ok { d with verbosity := d.verbosity + 1 }
  | .cache => if d.cache then .error .refused else .ok { d with cache := true }
  | .version => .error .version
  | .help => .error .help
  | .config | .outDir | .format => .error .refused

def value (d : Draft) (switch : Switch) (text : String) : Except Stop Draft := do
  match switch with
  | .config => return { d with config? := ← once d.config? (← path text) }
  | .outDir => return { d with outDir? := ← once d.outDir? (← path text) }
  | .format =>
    match ReportFormat.ofName? text with
    | some format => return { d with format? := ← once d.format? format }
    | none => .error .refused
  | .verbose | .cache | .version | .help => .error .refused

def addPath (d : Draft) (text : String) : Except Stop Draft := do
  return { d with paths := (← path text) :: d.paths }

end Draft

inductive Reading where
  /-- An option that is complete. -/
  | done (draft : Draft)
  /-- An option whose value is the next argument. -/
  | pending (draft : Draft) (switch : Switch)

/-- Reads a long option, without its dashes. -/
def readLong (level : Level) (d : Draft) (text : List Char) : Except Stop Reading := do
  let name := text.takeWhile (· != '=')
  match (Switch.ofLong? (String.ofList name)).filter (·.allowed level) with
  | none => .error .refused
  | some switch =>
    match text.drop name.length with
    | _ :: value => return .done (← d.value switch (String.ofList value))
    | [] => if switch.takesValue then return .pending d switch else return .done (← d.flag switch)

/-- Reads short options that stand together, without their dash. The rest after an option with a
value is the value. -/
def readShort (level : Level) (d : Draft) : List Char → Except Stop Reading
  | [] => .ok (.done d)
  | c :: rest => do
    match (Switch.ofShort? c).filter (·.allowed level) with
    | none => .error .refused
    | some switch =>
      if switch.takesValue then
        match rest with
        | [] => return .pending d switch
        | '=' :: value => return .done (← d.value switch (String.ofList value))
        | value => return .done (← d.value switch (String.ofList value))
      else readShort level (← d.flag switch) rest

def isOption (arg : String) : Bool :=
  arg.toList.head? == some '-' && arg ≠ "-"

def Level.ofName? : String → Option Level
  | "compile" => some .compile
  | "check" => some .check
  | _ => none

/-- Whether help is asked for as a whole or on one subcommand. -/
def isHelpTopic : List String → Bool
  | [] => true
  | [topic] => topic = "help" || (Level.ofName? topic).isSome
  | _ => false

/-- Reads the arguments of one level; before the subcommand, reading ends there. `pending?` is an
option that waits for its value. -/
def readLevel (level : Level) : Draft → (pending? : Option Switch) → List String → Except Stop Draft
  | d, none, [] => .ok d
  | _, some _, [] => .error .refused
  | d, some switch, arg :: args => do
    if isOption arg then .error .refused
    readLevel level (← d.value switch arg) none args
  | d, none, arg :: args => do
    match arg.toList with
    | ['-', '-'] =>
      if level = .top then .error .refused
      else args.foldlM Draft.addPath d
    | '-' :: '-' :: text =>
      match ← readLong level d text with
      | .done d => readLevel level d none args
      | .pending d switch => readLevel level d (some switch) args
    | '-' :: c :: text =>
      match ← readShort level d (c :: text) with
      | .done d => readLevel level d none args
      | .pending d switch => readLevel level d (some switch) args
    | _ =>
      if level = .top then
        match Level.ofName? arg with
        | some sub => return { d with sub? := some (sub, args) }
        | none => .error (if arg = "help" && isHelpTopic args then .help else .refused)
      else readLevel level (← d.addPath arg) none args

def readArguments (args : List String) : Except Stop Request := do
  let top ← readLevel .top {} none args
  match top.sub? with
  | none => .error .refused
  | some (level, rest) =>
    let sub ← readLevel level {} none rest
    return {
      verbosity := if sub.verbosity > 0 then sub.verbosity else top.verbosity
      config? := sub.config? <|> top.config?
      paths := sub.paths.reverse
      format := sub.format?.getD .text
      task := if level = .check then .check else .compile sub.outDir? sub.cache }

def Invocation.ofArguments? (args : List String) : Option Invocation :=
  match readArguments args with
  | .ok request => some (.run request)
  | .error .version => some .version
  | .error .help => some .help
  | .error .refused => none

end SceneView
