import SceneView.Compile.Session
import SceneView.Kind

/-!
# User interfaces

A user interface is a tree of controls, drawn over the whole screen or on a mesh. One that is drawn
on a mesh is built by the method that builds the mesh.
-/

namespace SceneView.Compile

def guiType : String := "AdvancedDynamicTexture"

def linkAttribute : String := "linkWithMesh"

def controlObservables : List String :=
  ["onPointerClick", "onPointerDown", "onPointerEnter", "onPointerMove", "onPointerOut",
    "onPointerUp", "onImageLoaded", "onIsCheckedChanged", "onBeforeKeyAdd", "onBlur", "onFocus",
    "onKeyboardEventProcessed", "onTextChanged", "onTextCopy", "onTextCut", "onTextHighlight",
    "onTextPaste"]

/-- The attributes of controls whose literals are quoted unless they are numbers. -/
def controlTexts : List String :=
  ["clipboardData", "hoverCursor", "fontFamily", "fontStyle", "fontWeight", "text", "source",
    "promptMessage", "currentKey", "highlightedText", "margin", "placeholderText", "group",
    "fontSize", "height", "left", "top", "paddingBottom", "paddingLeft", "paddingRight",
    "paddingTop", "width", "lineSpacing", "maxWidth", "x1", "x2", "y1", "y2", "barOffset",
    "thumbWidth", "background", "color", "disabledColor", "disabledColorItem", "shadowColor",
    "outlineColor", "focusedBackground", "focusedColor", "placeholderColor", "textHighlightColor",
    "borderColor"]

def controlOptions (name method : String) : Value.Options :=
  { isObservable := controlObservables.contains name
    updateMethod? := if name == linkAttribute then some linkAttribute else none
    skipPrimitives := true
    quoteIfNeeded := controlTexts.contains name
    deferred := isDeferred method }

/-- Gives a control the value of an attribute; a literal link refers to a mesh. -/
def controlAttribute (object : ObjectName) (method : String) (a : Attribute) : Compile Unit := do
  if ← isReference a linkAttribute then
    let linked ← mesh (Text.trim a.value)
    let control : Target := { path := object.storage, deferred := isDeferred method }
    emit method (.linkWithMesh control linked.target)
  else apply method (← translate a object.storage (controlOptions a.name method))

/-- Compiles a control without its children, and answers with its member. -/
def openControl (e : Element) (parent method : String) : Compile String := do
  addImport .gui e.tag
  let object ← declare e.tag (e.attr? "name") method
  let deferred := isDeferred method
  emit method (.construct object.storage (.control e.tag object.name))
  emit method (.addControl { path := parent, deferred } { path := object.storage, deferred })
  (e.attributesExcept ["name"]).forM (controlAttribute object method)
  return object.storage

mutual

def control (parent method : String) : Element → Compile Unit
  | ⟨tag, attributes, children, text, line⟩ =>
    located line do
      let member ← openControl ⟨tag, attributes, children, text, line⟩ parent method
      controls member method children

def controls (parent method : String) : List Element → Compile Unit
  | [] => pure ()
  | e :: es => do
    control parent method e
    controls parent method es

end

def fullScreenGui (e : Element) : Compile Unit := do
  let object ← declare guiType (e.attr? "name") Builtin.init
  log .debug ("full screen gui '" ++ object.name ++ "'")
  emit Builtin.init
    (.construct object.storage (.fullScreen guiType object.name Builtin.scene))
  (e.attributesExcept ["name"]).forM fun a => do
    apply Builtin.init (← translate a object.storage { skipPrimitives := true })
  controls object.storage Builtin.init e.children

def guiSize (e : Element) (name : String) : Compile String :=
  match e.attr? name with
  | some raw => argument raw false
  | none => pure "undefined"

/-- Compiles a user interface on a mesh. Its opacity is that of the material of the mesh. -/
def meshGui (e : Element) : Compile Unit := do
  let name := Text.trim (← e.require "mesh")
  let base ← mesh name
  let width ← guiSize e "width"
  let height ← guiSize e "height"
  let object ← declare guiType (e.attr? "name") base.method
  log .debug ("mesh gui '" ++ object.name ++ "' on '" ++ name ++ "' in " ++ base.method)
  emit base.method (.construct object.storage (.onMesh guiType base.target width height))
  (e.attributesExcept ["name", "mesh", "width", "height"]).forM fun a => do
    apply base.method (← translate a object.storage
      { skipPrimitives := true
        path? := if a.name == "alpha" then some (base.target.part "material") else none
        deferred := isDeferred base.method })
  controls object.storage base.method e.children

def gui (e : Element) : Compile Unit :=
  located e.line do
    match GuiRoot.ofTag? e.tag with
    | some .fullScreen => fullScreenGui e
    | some .onMesh => meshGui e
    | none => throw (.unknownElement e.tag SectionKind.guis.tag 0)

def guis (es : List Element) : Compile Unit := do
  addImport .gui guiType
  addImport .gui "Control"
  es.forM gui

end SceneView.Compile
