/-!
# Imports

The names that a generated module imports, by the library they come from. Each name is kept once, in
the order of its characters.
-/

namespace SceneView

/-- The library that an imported name comes from. -/
inductive Origin where
  /-- Scene types: nodes, materials, mathematics. -/
  | core
  | gui
  /-- Bindings and the objects of the view library. -/
  | runtime
  | utility
deriving DecidableEq, Repr

def Origin.order : List Origin :=
  [.core, .gui, .runtime, .utility]

/-- Inserts a name into a list in rising order, unless it is there. -/
def insertName (name : String) : List String → List String
  | [] => [name]
  | other :: rest =>
    if name = other then other :: rest
    else if name < other then name :: other :: rest
    else other :: insertName name rest

structure Imports where
  core : List String := []
  gui : List String := []
  runtime : List String := []
  utility : List String := []
deriving DecidableEq, Repr

namespace Imports

def group (i : Imports) : Origin → List String
  | .core => i.core
  | .gui => i.gui
  | .runtime => i.runtime
  | .utility => i.utility

def add (i : Imports) (origin : Origin) (name : String) : Imports :=
  match origin with
  | .core => { i with core := insertName name i.core }
  | .gui => { i with gui := insertName name i.gui }
  | .runtime => { i with runtime := insertName name i.runtime }
  | .utility => { i with utility := insertName name i.utility }

def contains (i : Imports) (origin : Origin) (name : String) : Bool :=
  (i.group origin).contains name

end Imports

end SceneView
