import SceneView.Json.Decode
import SceneView.Json.Printer
import SceneView.Options

/-!
# Options as JSON

Options are read from project settings, where each may be left out, and written as a part of the key
of stored results, where none is.
-/

namespace SceneView

namespace Libraries

def ofJson? (j : Json) : Option Libraries := do
  let fallback : Libraries := {}
  match ← j.fields? ["core", "gui", "runtime", "utility"] with
  | [core, gui, runtime, utility] =>
    return {
      core := ← Json.optional fallback.core Json.text? core
      gui := ← Json.optional fallback.gui Json.text? gui
      runtime := ← Json.optional fallback.runtime Json.text? runtime
      utility := ← Json.optional fallback.utility Json.text? utility }
  | _ => none

def toJson (l : Libraries) : Json :=
  .ofMembers [("core", .ofString l.core), ("gui", .ofString l.gui),
    ("runtime", .ofString l.runtime), ("utility", .ofString l.utility)]

end Libraries

def ClassVisibility.ofJson? (j : Json) : Option ClassVisibility :=
  j.label?.bind ofLabel?

namespace CompileOptions

def ofJson? (j : Json) : Option CompileOptions := do
  let fallback : CompileOptions := {}
  match ← j.fields? ["libraries", "classVisibility"] with
  | [libraries, visibility] =>
    return {
      libraries := ← Json.optional fallback.libraries Libraries.ofJson? libraries
      visibility := ← Json.optional fallback.visibility ClassVisibility.ofJson? visibility }
  | _ => none

def toJson (o : CompileOptions) : Json :=
  .ofMembers
    [("libraries", o.libraries.toJson), ("classVisibility", .ofString o.visibility.label)]

end CompileOptions

end SceneView
