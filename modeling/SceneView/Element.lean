import SceneView.Text.LowerCase
import SceneView.Text.Blank

/-!
# Elements and documents

A view document is a tree of elements. Its root names the class and tells whether the view is a
mixin; the children of the root are the sections.
-/

namespace SceneView

structure Attribute where
  name : String
  value : String
deriving DecidableEq, Repr

/-- An element of a document, with its own text and the line it starts on; line zero stands for a
place that is not known. -/
structure Element where
  tag : String
  attributes : List Attribute := []
  children : List Element := []
  text : String := ""
  line : Nat := 0
deriving Repr

namespace Element

instance : Inhabited Element := ⟨{ tag := "" }⟩

def attr? (e : Element) (name : String) : Option String :=
  (e.attributes.find? (·.name == name)).map (·.value)

def hasAttr (e : Element) (name : String) : Bool :=
  (e.attr? name).isSome

/-- The attributes whose names are not among the given ones, in document order. -/
def attributesExcept (e : Element) (skip : List String) : List Attribute :=
  e.attributes.filter fun a => !skip.contains a.name

def withAttribute (e : Element) (name value : String) : Element :=
  { e with attributes := e.attributes ++ [{ name, value }] }

def withChild (e child : Element) : Element :=
  { e with children := e.children ++ [child] }

end Element

structure Document where
  root : Element
deriving Repr

namespace Document

def className? (d : Document) : Option String :=
  ((d.root.attr? "name").map Text.trim).filter (· ≠ "")

def isMixin (d : Document) : Bool :=
  (d.root.attr? "isMixin").map Text.trim == some "true"

def sections (d : Document) : List Element :=
  d.root.children

end Document

end SceneView
