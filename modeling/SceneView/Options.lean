import SceneView.Class.Import

/-!
# Compile options

The settings that a compilation depends on besides the document.
-/

namespace SceneView

structure Libraries where
  core : String := "@babylonjs/core"
  gui : String := "@babylonjs/gui"
  runtime : String := "inscribejs"
  utility : String := "lodash"
deriving DecidableEq, Repr

def Libraries.module (l : Libraries) : Origin → String
  | .core => l.core
  | .gui => l.gui
  | .runtime => l.runtime
  | .utility => l.utility

inductive ClassVisibility where
  | isPrivate | exported | exportedDefault
deriving DecidableEq, Repr

namespace ClassVisibility

def all : List ClassVisibility :=
  [isPrivate, exported, exportedDefault]

def label : ClassVisibility → String
  | isPrivate => "private"
  | exported => "export"
  | exportedDefault => "export default"

def ofLabel? (text : String) : Option ClassVisibility :=
  all.find? (·.label == text)

/-- The keywords before the class, with a space after them. -/
def keywords : ClassVisibility → String
  | isPrivate => ""
  | exported => "export "
  | exportedDefault => "export default "

end ClassVisibility

structure CompileOptions where
  libraries : Libraries := {}
  visibility : ClassVisibility := .exportedDefault
deriving DecidableEq, Repr

end SceneView
