import SceneView.Compile.Material

/-!
# Nodes

The nodes section is a tree. Each node is built in a method and placed below its parent. A deferred
group builds its nodes in a method of its own, which runs when the group is first needed, and leaves
their parent as it is.
-/

namespace SceneView.Compile

structure Placement where
  parent : String
  /-- The enclosing node, deferred groups left out. -/
  enclosing? : Option Element
  method : String
deriving Repr

def Placement.top : Placement :=
  { parent := Builtin.root, enclosing? := none, method := Builtin.init }

def Placement.below (p : Placement) (e : Element) (parent : String) : Placement :=
  { p with parent, enclosing? := some e }

def nodeOptions (name method : String) : Value.Options :=
  { updateMethod? := if name == "enabled" then some "setEnabled" else none
    deferred := isDeferred method }

/-- Compiles a node that only carries others, and answers where its children are placed. -/
def transformNode (e : Element) (p : Placement) : Compile String := do
  let type := NodeKind.transform.tag
  addImport .core type
  let object ← declare type (e.attr? "name") p.method
  emit p.method (.construct object.storage (.named type object.name Builtin.scene))
  emit p.method (.attach object.storage p.parent)
  (e.attributesExcept ["name"]).forM fun a => do
    apply p.method (← translate a object.storage (nodeOptions a.name p.method))
  return object.storage

/-- Gives a shape the value of an attribute. A literal material refers to a shared one. Options of
the constructor are passed already, so only their changes are followed. -/
def shapeAttribute (shape : Shape) (object : ObjectName) (method : String) :
    Attribute × Value.Translated → Compile Unit
  | (a, translated) => do
    if ← isReference a "material" then
      let material ← sharedReference .material (Text.trim a.value)
      emit method (.nodeMaterial object.storage material)
    else if shape.options.contains a.name then follow method translated
    else apply method translated

def shapeNode (shape : Shape) (e : Element) (p : Placement) : Compile String := do
  let type := shape.typeName
  addImport .runtime type
  let object ← declare type (e.attr? "name") p.method
  let attributes ← (e.attributesExcept ["name"]).mapM fun a => do
    return (a, ← translate a object.storage (nodeOptions a.name p.method))
  let options := (attributes.filter fun (a, _) => shape.options.contains a.name).map
    fun (a, translated) => (a.name, translated.value)
  emit p.method (.construct object.storage (.shape type Builtin.scene object.name options))
  emit p.method (.attach object.storage p.parent)
  addMesh object p.method
  attributes.forM (shapeAttribute shape object p.method)
  return object.storage

def modelEvents : List String :=
  ["loaded", "loading", "loadFailed", "progress"]

/-- Gives a model the value of an attribute. The address is passed to the constructor already. -/
def modelAttribute (object : ObjectName) (method : String) (a : Attribute) : Compile Unit := do
  let isAddress := a.name == "url"
  let translated ← translate a object.storage
    { nodeOptions a.name method with
      isEvent := modelEvents.contains a.name, quoteIfNeeded := isAddress }
  if isAddress then follow method translated else apply method translated

def modelNode (e : Element) (p : Placement) : Compile String := do
  let type := NodeKind.model.tag
  addImport .runtime type
  let url ← argument (← e.require "url") true
  let object ← declare type (e.attr? "name") p.method
  emit p.method (.construct object.storage (.model type Builtin.scene object.name url))
  emit p.method (.attach object.storage p.parent)
  (e.attributesExcept ["name"]).forM (modelAttribute object p.method)
  return object.storage

/-- The attributes of a custom node that are not options of its factory. -/
def customAttributes : List String :=
  ["name", "type", "factory", "attachChildrenTo"]

def customNode (e : Element) (p : Placement) : Compile String := do
  let type := Text.trim (← e.require "type")
  let factory ← argument (← e.require "factory") false
  let object ← declare type (e.attr? "name") p.method
  let options ← (e.attributesExcept customAttributes).mapM fun a =>
    translate a object.storage { skipPrimitives := true, deferred := isDeferred p.method }
  emit p.method (.construct object.storage
    (.factory factory (options.map fun o => (o.name, o.value)) p.parent))
  addMesh object p.method
  options.forM (follow p.method)
  match e.attr? "attachChildrenTo" with
  | some part => return object.storage ++ "." ++ Text.trim part
  | none => return object.storage

def groupMethod (name : String) : String :=
  "ensure_" ++ name

def groupFlag (name : String) : String :=
  "_is_" ++ name ++ "_initialized"

/-- Builds a group when its condition becomes true. Observing a path tells only of changes, so the
condition is also checked once, at the end of the enclosing method. -/
def groupTrigger (name enclosing raw : String) : Compile Unit := do
  let condition ← match ← bound? raw with
    | some expression =>
      match expression.path with
      | some path => emit enclosing (.bindGroup Builtin.engine path (groupMethod name))
      | none =>
        log .warn ("initWhen of deferred group '" ++ name ++
          "' is not a property path; it is evaluated once and never re-checked")
      pure expression.code
    | none => pure (Text.trim raw)
  modify fun s =>
    { s with triggers := s.triggers ++ [(enclosing, .trigger condition (groupMethod name))] }

/-- Opens a deferred group, and answers with its name. -/
def openGroup (e : Element) (p : Placement) : Compile String := do
  let name := Text.trim (← e.require "name")
  if (← get).generated.hasMethod (groupMethod name) then
    throw (.conflict (.deferredGroup name) 0)
  modifyClass (·.addMember { name := groupFlag name, type := "boolean", default? := some "false" })
  modifyClass (·.addMethod
    { name := groupMethod name
      returnType := "void"
      visibility := .isProtected
      body := [.leaveIf (groupFlag name), .raise (groupFlag name)] })
  match e.attr? "initWhen" with
  | some raw => groupTrigger name p.method raw
  | none => pure ()
  return name

/-- Closes a deferred group: its callback waits for everything that is added to the group. -/
def closeGroup (e : Element) (name : String) : Compile Unit := do
  match e.attr? "onInit" with
  | some raw =>
    let code ← argument raw false
    modify fun s => { s with callbacks := s.callbacks ++ [(groupMethod name, .callback code)] }
  | none => pure ()

/-- A name without the marks of stored members before it. -/
def dropStorageMarks : List Char → List Char
  | 'x' :: '_' :: cs => dropStorageMarks cs
  | cs => cs

def materialOfNode (e : Element) (p : Placement) : Compile Unit := do
  match p.enclosing? with
  | none => throw (.invalidStructure .looseMaterial)
  | some node =>
    if node.hasAttr "material" then
      throw (.conflict (.nodeMaterial (String.ofList (dropStorageMarks p.parent.toList))) 0)
    nodeMaterial (← e.onlyChild) p.parent p.method

def nodeKind (e : Element) : Except Fault NodeKind :=
  match NodeKind.ofTag? e.tag with
  | some kind => .ok kind
  | none => .error (.unknownElement e.tag "Nodes" 0)

mutual

def node (p : Placement) : Element → Compile Unit
  | ⟨tag, attributes, children, text, line⟩ =>
    let e : Element := ⟨tag, attributes, children, text, line⟩
    located line do
      let kind ← nodeKind e
      log .debug ("node <" ++ tag ++ "> into " ++ p.method)
      match kind with
      | .transform =>
        let parent ← transformNode e p
        nodes (p.below e parent) children
      | .shape shape =>
        let parent ← shapeNode shape e p
        nodes (p.below e parent) children
      | .model =>
        let parent ← modelNode e p
        nodes (p.below e parent) children
      | .custom =>
        let parent ← customNode e p
        nodes (p.below e parent) children
      | .deferredGroup =>
        let name ← openGroup e p
        nodes { p with method := groupMethod name } children
        closeGroup e name
      | .material => materialOfNode e p

def nodes (p : Placement) : List Element → Compile Unit
  | [] => pure ()
  | e :: es => do
    node p e
    nodes p es

end

end SceneView.Compile
