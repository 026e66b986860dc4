import SceneView.Compile.Log
import SceneView.Compile.Naming
import SceneView.Compile.Shared
import SceneView.Value.Attribute

/-!
# Compile sessions

The state of one compilation: the class collected so far, its imports, the shared objects, the names
in use and the log. Compiling an element is an action on this state that may end with a fault; the
log survives the fault.
-/

namespace SceneView

namespace Builtin

def root : String := "_root"

def scene : String := "_scene"

def engine : String := "_bindingEngine"

def propertyChanged : String := "propertyChanged"

def isInitialized : String := "_isInitialized"

def init : String := "__init"

/-- The parameter that the host is passed in. -/
def hostParameter (isMixin : Bool) : String :=
  if isMixin then "mixin" else "host"

def host (isMixin : Bool) : String :=
  "_" ++ hostParameter isMixin

end Builtin

/-- Whether objects built in the method may be unset when they are read: only the main method runs
always. -/
def isDeferred (method : String) : Bool :=
  method != Builtin.init

/-- A mesh that a user interface can refer to, and the method that builds it. -/
structure Mesh where
  name : String
  member : String
  method : String
deriving DecidableEq, Repr

def Mesh.target (m : Mesh) : Target :=
  { path := m.member, deferred := isDeferred m.method }

structure Session where
  isMixin : Bool
  generated : ClassDef
  imports : Imports := {}
  authorImports : List String := []
  shared : SharedTable := {}
  names : NamePool := {}
  meshes : List Mesh := []
  nodeNames : List String := []
  /-- Checks that are added to their methods when all sections are compiled. -/
  triggers : List (String × Statement) := []
  /-- Calls that are added to their methods after the checks. -/
  callbacks : List (String × Statement) := []
  log : List LogEntry := []
deriving DecidableEq, Repr

def Session.binder (s : Session) : Value.Binder :=
  { host := Builtin.host s.isMixin, engine := Builtin.engine }

abbrev Compile := ExceptT Fault (StateM Session)

namespace Compile

/-- Runs an action; faults without a line get the given one. -/
def located (line : Nat) (x : Compile α) : Compile α :=
  ExceptT.adapt (Fault.atLine line) x

def log (level : LogLevel) (text : String) : Compile Unit :=
  modify fun s => { s with log := { level, text } :: s.log }

def addImport (origin : Origin) (name : String) : Compile Unit :=
  modify fun s => { s with imports := s.imports.add origin name }

def modifyClass (f : ClassDef → ClassDef) : Compile Unit :=
  modify fun s => { s with generated := f s.generated }

def emit (method : String) (statement : Statement) : Compile Unit := do
  log .trace (method ++ " <- " ++ statement.text)
  let generated ← (← get).generated.push method statement
  modify fun s => { s with generated }

def emitAll (method : String) (statements : List Statement) : Compile Unit :=
  statements.forM (emit method)

def importPrimitive (constructs? : Option Value.Primitive) : Compile Unit :=
  match constructs? with
  | some p => addImport .core p.typeName
  | none => pure ()

/-- The expression in a bound value, or `none` for a literal. -/
def bound? (raw : String) : Compile (Option Script.HostExpression) := do
  Value.bound? (← get).binder.host raw

/-- Whether an attribute of the given name refers to an object by a literal name. -/
def isReference (a : Attribute) (name : String) : Compile Bool := do
  if a.name == name then return (← bound? a.value).isNone
  return false

def translate (a : Attribute) (target : String) (options : Value.Options) :
    Compile Value.Translated := do
  let translated ← (← get).binder.translate a.name a.value target options
  importPrimitive translated.constructs?
  return translated

def argument (raw : String) (quoteLiteral : Bool) : Compile String := do
  (← get).binder.argument raw quoteLiteral

def typed (type raw : String) : Compile String := do
  let (value, constructs?) ← (← get).binder.typed type raw
  importPrimitive constructs?
  return value

/-- Keeps an attribute at the observed value. -/
def follow (method : String) (t : Value.Translated) : Compile Unit :=
  emitAll method t.bind?.toList

def apply (method : String) (t : Value.Translated) : Compile Unit := do
  emit method t.apply
  follow method t

def assignName (type : String) (given? : Option String) : Compile ObjectName := do
  let s ← get
  let (object, names) := s.names.assignUnused s.generated type given?
  set { s with names }
  return object

def declareNamed (type : String) (object : ObjectName) (deferred : Bool) : Compile Unit := do
  let generated ← (← get).generated.declare type object deferred
  modify fun s => { s with generated }

def declare (type : String) (given? : Option String) (method : String) : Compile ObjectName := do
  let object ← assignName type given?
  declareNamed type object (isDeferred method)
  return object

/-- Resolves a reference to a shared object. The reference that moves the object to a method of its
own adds that method to the class. -/
def sharedReference (kind : SharedKind) (name : String) : Compile SharedReference := do
  let (access, shared) ← (← get).shared.access kind name
  modify fun s => { s with shared }
  match access with
  | .member => return .member (storageName name)
  | .ensure method created =>
    if created then
      log .debug ("promoting shared " ++ kind.referenceKind.label ++ " '" ++ name ++ "' to " ++ method)
      addImport .core kind.returnType
      modifyClass (·.addMethod
        { name := method, returnType := kind.returnType, visibility := .isPrivate })
    return .ensure method

/-- Declares a shared object and builds it where the references need it: directly, or between the
guard and the answer of its own method. -/
def buildShared (kind : SharedKind) (type name : String) (build : ObjectName → String → Compile Unit) :
    Compile Unit := do
  let (site, shared) ← (← get).shared.declare kind name
  modify fun s => { s with shared }
  let object ← assignName type (some name)
  let label := match kind with
    | .material => "material"
    | .texture => "texture"
  log .debug ("shared " ++ label ++ " '" ++ name ++ "' into " ++ site.method)
  declareNamed type object (site.isEnsured || isDeferred site.method)
  if site.isEnsured then emit site.method (.guard object.storage)
  build object site.method
  if site.isEnsured then emit site.method (.give object.storage)

/-- The mesh of the given name. It must be built before it is referred to. -/
def mesh (name : String) : Compile Mesh := do
  let s ← get
  match s.meshes.find? (·.name == name) with
  | some m => return m
  | none =>
    if s.nodeNames.contains name then throw (.forwardReference .mesh name 0)
    else throw (.reference .mesh name 0)

def addMesh (object : ObjectName) (method : String) : Compile Unit :=
  if object.isGiven then
    modify fun s =>
      { s with meshes := { name := object.name, member := object.storage, method } :: s.meshes }
  else pure ()

end Compile

end SceneView
