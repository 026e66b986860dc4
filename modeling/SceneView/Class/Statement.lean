/-!
# Statements of the generated class

The statements that build and bind the objects of a view, each with the members it is about. Their
text is given once, by `Statement.text`.
-/

namespace SceneView

/-- The mark behind a member that may not be set yet. -/
def bang (deferred : Bool) : String :=
  if deferred then "!" else ""

/-- A member that a statement works on, or a path from one, which may not be set yet. -/
structure Target where
  path : String
  deferred : Bool
deriving DecidableEq, Repr

def Target.text (t : Target) : String :=
  "this." ++ t.path ++ bang t.deferred

def Target.part (t : Target) (name : String) : String :=
  t.path ++ bang t.deferred ++ "." ++ name

/-- How a value is given to a target. -/
inductive SetterForm where
  | event
  | observable
  | method (name : String)
  | property
deriving DecidableEq, Repr

/-- The statement that gives a value to an attribute of a target, the value left open. -/
structure Setter where
  target : Target
  name : String
  form : SetterForm
deriving DecidableEq, Repr

namespace Setter

def fill (s : Setter) (value : String) : String :=
  match s.form with
  | .event => s.target.text ++ "." ++ s.name ++ ".subscribe(" ++ value ++ ");"
  | .observable => s.target.text ++ "." ++ s.name ++ "Observable.add(" ++ value ++ ");"
  | .method name => s.target.text ++ "." ++ name ++ "(" ++ value ++ ");"
  | .property => s.target.text ++ "." ++ s.name ++ " = " ++ value ++ ";"

/-- Whether the statement may be run again when the value changes. A handler must not be added
twice. -/
def isRepeatable (s : Setter) : Bool :=
  match s.form with
  | .event | .observable => false
  | .method _ | .property => true

end Setter

/-- How a shared object is reached: through its member, or through the method that builds it on first
use. -/
inductive SharedReference where
  | member (name : String)
  | ensure (method : String)
deriving DecidableEq, Repr

def SharedReference.text : SharedReference → String
  | member name => "this." ++ name
  | ensure method => "this." ++ method ++ "()"

/-- An expression that builds an object; `scene` is the member that holds the scene. -/
inductive Construction where
  /-- An object known to the scene by a name. -/
  | named (type name scene : String)
  | shape (type scene name : String) (options : List (String × String))
  | model (type scene name url : String)
  /-- An object made by a factory of the author's, below a parent. -/
  | factory (code : String) (options : List (String × String)) (parent : String)
  | texture (type source scene : String)
  /-- A user interface over the whole screen. -/
  | fullScreen (type name scene : String)
  /-- A user interface drawn on a mesh. -/
  | onMesh (type : String) (mesh : Target) (width height : String)
  | control (type name : String)
deriving DecidableEq, Repr

namespace Construction

def shapeOptions (options : List (String × String)) : String :=
  if options.isEmpty then "\x7b\x7d"
  else "\x7b " ++ ", ".intercalate (options.map fun (name, value) => name ++ ": " ++ value) ++ " \x7d"

def factoryOptions (options : List (String × String)) : String :=
  "\x7b " ++ ", ".intercalate (options.map fun (name, value) => "'" ++ name ++ "': " ++ value) ++
    " \x7d"

def text : Construction → String
  | named type name scene => "new " ++ type ++ "('" ++ name ++ "', this." ++ scene ++ ")"
  | shape type scene name options =>
    "new " ++ type ++ "(this." ++ scene ++ ", '" ++ name ++ "', " ++ shapeOptions options ++ ")"
  | model type scene name url =>
    "new " ++ type ++ "(this." ++ scene ++ ", '" ++ name ++ "', " ++ url ++ ")"
  | factory code options parent =>
    "(" ++ code ++ ")(" ++ factoryOptions options ++ ", this." ++ parent ++ ")"
  | texture type source scene => "new " ++ type ++ "(" ++ source ++ ", this." ++ scene ++ ")"
  | fullScreen type name scene =>
    type ++ ".CreateFullscreenUI('" ++ name ++ "', undefined, this." ++ scene ++ ")"
  | onMesh type mesh width height =>
    type ++ ".CreateForMesh(" ++ mesh.text ++ ", " ++ width ++ ", " ++ height ++ ")"
  | control type name => "new " ++ type ++ "('" ++ name ++ "')"

end Construction

/-- The statement that observes a path and runs an action with each new value. -/
def observe (engine path action : String) : String :=
  "this." ++ engine ++ ".addBinding('" ++ path ++ "', (value) => \x7b " ++ action ++ " \x7d);"

inductive Statement where
  | line (text : String)
  /-- Leaves a method that has run before. -/
  | leaveIf (flag : String)
  | raise (flag : String)
  | construct (member : String) (value : Construction)
  | initial (member value : String)
  | attach (member parent : String)
  | nodeMaterial (node : String) (material : SharedReference)
  | slotTexture (material slot : String) (texture : SharedReference)
  | textureName (member name : String)
  | apply (setter : Setter) (value : String)
  /-- Gives an attribute each new value of an observed path. -/
  | bind (engine path : String) (setter : Setter)
  /-- Builds a deferred group when an observed path becomes true. -/
  | bindGroup (engine path method : String)
  /-- Builds a deferred group if a condition holds. -/
  | trigger (condition method : String)
  | callback (code : String)
  | guard (member : String)
  | give (member : String)
  | addControl (parent control : Target)
  | linkWithMesh (control mesh : Target)
deriving DecidableEq, Repr

def Statement.text : Statement → String
  | line text => text
  | leaveIf flag => "if (this." ++ flag ++ ") return;"
  | raise flag => "this." ++ flag ++ " = true;"
  | construct member value => "this." ++ member ++ " = " ++ value.text ++ ";"
  | initial member value => "this." ++ member ++ " = " ++ value ++ ";"
  | attach member parent => "this." ++ member ++ ".parent = this." ++ parent ++ ";"
  | nodeMaterial node material => "this." ++ node ++ ".material = " ++ material.text ++ ";"
  | slotTexture material slot texture =>
    "this." ++ material ++ "." ++ slot ++ " = " ++ texture.text ++ ";"
  | textureName member name => "this." ++ member ++ ".name = '" ++ name ++ "';"
  | apply setter value => setter.fill value
  | bind engine path setter => observe engine path (setter.fill "value")
  | bindGroup engine path method => observe engine path ("if (value) this." ++ method ++ "();")
  | trigger condition method => "if (" ++ condition ++ ") this." ++ method ++ "();"
  | callback code => "(" ++ code ++ ")();"
  | guard member => "if (this." ++ member ++ ") return this." ++ member ++ ";"
  | give member => "return this." ++ member ++ ";"
  | addControl parent control => parent.text ++ ".addControl(" ++ control.text ++ ");"
  | linkWithMesh control mesh => control.text ++ ".linkWithMesh(" ++ mesh.text ++ ");"

end SceneView
