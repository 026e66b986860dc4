import SceneView.Compile.Gui
import SceneView.Compile.Node
import SceneView.Compile.Property
import SceneView.Markup.Document

/-!
# Views

A view is compiled in one pass over the sections of its document, after a first look at all names.
The result is the text of a module with one class.
-/

namespace SceneView

structure CompiledView where
  className : String
  code : String
deriving DecidableEq, Repr

def CompiledView.fileName (v : CompiledView) : String :=
  v.className ++ ".ts"

namespace Compile

def initBody (isMixin : Bool) : List Statement :=
  let parameter := Builtin.hostParameter isMixin
  let event := Builtin.propertyChanged
  [.leaveIf Builtin.isInitialized,
    .raise Builtin.isInitialized,
    .line "if (root instanceof Scene) \x7b",
    .line ("  this." ++ Builtin.root ++ " = null;"),
    .line ("  this." ++ Builtin.scene ++ " = root;"),
    .line "\x7d else \x7b",
    .line ("  this." ++ Builtin.root ++ " = root;"),
    .line ("  this." ++ Builtin.scene ++ " = root.getScene();"),
    .line "\x7d",
    .line ("this." ++ Builtin.host isMixin ++ " = " ++ parameter ++ ";"),
    .line ("this." ++ Builtin.engine ++ " = new BindingEngine(this);")] ++
  if isMixin then
    [.line ("if (!" ++ parameter ++ "." ++ event ++ ") \x7b"),
      .line ("  " ++ parameter ++ "." ++ event ++ " = new Event();"),
      .line "\x7d"]
  else [.line ("this." ++ event ++ " = new Event();")]

def initMethod (isMixin : Bool) : Method :=
  { name := Builtin.init
    returnType := "void"
    visibility := .isProtected
    parameters :=
      [{ name := "root", type := "Node | Scene" },
        { name := Builtin.hostParameter isMixin, type := "any" }]
    body := initBody isMixin }

/-- The members of every class. A mixin raises the change event of its host and has none of its
own. -/
def initMembers (isMixin : Bool) : List Member :=
  [{ name := Builtin.root, type := "Node | null", default? := some "null" },
    { name := Builtin.scene, type := "Scene", presence? := some .definite },
    { name := Builtin.host isMixin, type := "any", presence? := some .definite },
    { name := Builtin.engine, type := "BindingEngine", presence? := some .definite },
    { name := Builtin.isInitialized, type := "boolean", default? := some "false" }] ++
  if isMixin then []
  else
    [{ name := Builtin.propertyChanged
       type := "Event<IPropertyChangedArgs>"
       visibility := .isPublic
       presence? := some .definite }]

def initClass (name : String) (isMixin : Bool) (visibility : ClassVisibility) : ClassDef :=
  { name
    visibility
    constructorParameters :=
      if isMixin then []
      else
        [{ name := "root", type := "Node | Scene" }, { name := "host", type := "any", optional := true }]
    constructorBody :=
      if isMixin then [] else ["this." ++ Builtin.init ++ "(root, host ?? this);"]
    members := initMembers isMixin
    methods := [initMethod isMixin] }

def initImports (isMixin : Bool) : Imports :=
  let imports : Imports := { core := ["Node", "Scene"], runtime := ["BindingEngine", "Event"] }
  if isMixin then imports else imports.add .runtime "IPropertyChangedArgs"

def start (name : String) (isMixin : Bool) (visibility : ClassVisibility) : Session :=
  { isMixin
    generated := initClass name isMixin visibility
    imports := initImports isMixin }

mutual

/-- All names that the author gives to an element and below it. -/
def namesIn : Element → List String
  | ⟨tag, attributes, children, text, line⟩ =>
    (Element.attr? ⟨tag, attributes, children, text, line⟩ "name").toList ++ namesInAll children

def namesInAll : List Element → List String
  | [] => []
  | e :: es => namesIn e ++ namesInAll es

end

mutual

/-- The names of a node and the nodes below it; the elements in a material are no nodes. -/
def nodeNamesIn : Element → List String
  | ⟨tag, attributes, children, text, line⟩ =>
    if NodeKind.ofTag? tag = some .material then []
    else
      ((Element.attr? ⟨tag, attributes, children, text, line⟩ "name").map Text.trim).toList ++
        nodeNamesInAll children

def nodeNamesInAll : List Element → List String
  | [] => []
  | e :: es => nodeNamesIn e ++ nodeNamesInAll es

end

def registerShared (kind : SharedKind) (e : Element) : Compile Unit := do
  let name := Text.trim (← e.require "name")
  log .debug ("registered shared " ++ kind.referenceKind.label ++ " '" ++ name ++ "'")
  located e.line do
    let shared ← (← get).shared.register kind name Builtin.init
    modify fun s => { s with shared }

/-- Takes up the names of a section. -/
def lookAhead (e : Element) : Compile Unit := do
  modify fun s => { s with names := (namesInAll e.children).foldl NamePool.reserve s.names }
  match SectionKind.ofTag? e.tag with
  | some .materials => e.children.forM (registerShared .material)
  | some .textures => e.children.forM (registerShared .texture)
  | some .nodes => modify fun s => { s with nodeNames := s.nodeNames ++ nodeNamesInAll e.children }
  | _ => pure ()

def sectionElement (rootTag : String) (e : Element) : Compile Unit := do
  match SectionKind.ofTag? e.tag with
  | none => throw (.unknownElement e.tag rootTag e.line)
  | some kind =>
    log .debug ("section <" ++ e.tag ++ "> (" ++ toString e.children.length ++ " elements)")
    match kind with
    | .imports =>
      modify fun s => { s with authorImports := s.authorImports ++ Text.trimmedLines e.text }
    | .properties => e.children.forM property
    | .nodes => nodes Placement.top e.children
    | .materials => e.children.forM sharedMaterial
    | .textures => e.children.forM sharedTexture
    | .guis => guis e.children

/-- Adds the checks and then the callbacks that waited for all sections. -/
def flush : Compile Unit := do
  let s ← get
  set { s with triggers := [], callbacks := [] }
  (s.triggers ++ s.callbacks).forM fun (method, statement) => emit method statement

def document (d : Document) : Compile Unit := do
  d.sections.forM lookAhead
  d.sections.forM (sectionElement d.root.tag)
  flush
  match (← get).shared.undeclared with
  | (kind, name) :: _ => throw (.invalidStructure (.neverTranslated kind.referenceKind name))
  | [] => pure ()

end Compile

namespace Session

/-- The import lines: those of the author first, then one for each library in use. -/
def importLines (s : Session) (libraries : Libraries) : List String :=
  s.authorImports ++ Origin.order.filterMap fun origin =>
    match s.imports.group origin with
    | [] => none
    | names =>
      some ("import \x7b " ++ ", ".intercalate names ++ " \x7d from '" ++ libraries.module origin ++
        "';")

def moduleText (s : Session) (libraries : Libraries) : String :=
  match s.importLines libraries with
  | [] => s.generated.text
  | lines => "\n".intercalate lines ++ "\n\n" ++ s.generated.text

end Session

def compileDocument (options : CompileOptions) (d : Document) :
    Except Fault CompiledView × List LogEntry :=
  match d.className with
  | .error fault => (.error fault, [])
  | .ok className =>
    let action : Compile Unit := do
      Compile.log .debug ("translating view '" ++ className ++ "' (mixin: " ++
        (if d.isMixin then "true" else "false") ++ ")")
      Compile.document d
    match action.run.run (Compile.start className d.isMixin options.visibility) with
    | (.error fault, s) => (.error fault, s.log.reverse)
    | (.ok (), s) =>
      (.ok { className, code := s.moduleText options.libraries }, s.log.reverse)

/-- Reads and compiles a view; also gives the log, in order. -/
def compileView (options : CompileOptions) (source : String) :
    Except Fault CompiledView × List LogEntry :=
  match Markup.readDocument source with
  | .error (cause, line) => (.error (.markup cause line), [])
  | .ok d => compileDocument options d

end SceneView
