import SceneView.Compile.Texture

/-!
# Materials

A material is shared, or it belongs to one node. Its texture slots are filled by attributes, which
refer to shared textures or are bound, or by elements that hold a texture of their own.
-/

namespace SceneView.Compile

def materialKind (e : Element) (place : String) : Except Fault MaterialKind :=
  match MaterialKind.ofTag? e.tag with
  | some kind => .ok kind
  | none => .error (.unknownElement e.tag place 0)

/-- Gives a material the value of an attribute; a literal in a slot refers to a shared texture. -/
def materialAttribute (kind : MaterialKind) (object : ObjectName) (method : String)
    (a : Attribute) : Compile Unit := do
  let options : Value.Options := { deferred := isDeferred method }
  if kind.hasSlot a.name then
    match ← bound? a.value with
    | some _ => apply method (← translate a object.storage options)
    | none =>
      let texture ← sharedReference .texture (Text.trim a.value)
      emit method (.slotTexture object.storage a.name texture)
  else apply method (← translate a object.storage options)

/-- Fills a slot of a material from a child element. -/
def materialSlot (e : Element) (kind : MaterialKind) (object : ObjectName) (method : String)
    (child : Element) : Compile Unit := do
  let slot := slotOfTag child.tag
  unless kind.hasSlot slot do
    throw (.unknownElement child.tag kind.typeName child.line)
  if e.hasAttr slot then
    throw (.conflict (.textureSlot object.name slot) child.line)
  let texture ← child.onlyChild
  slotTexture texture object.storage slot method

def buildMaterial (e : Element) (kind : MaterialKind) (node? : Option String) (object : ObjectName)
    (method : String) : Compile Unit := do
  addImport .core kind.typeName
  emit method (.construct object.storage (.named kind.typeName object.name Builtin.scene))
  match node? with
  | some node => emit method (.nodeMaterial node (.member object.storage))
  | none => pure ()
  (e.attributesExcept ["name"]).forM (materialAttribute kind object method)
  e.children.forM (materialSlot e kind object method)

def sharedMaterial (e : Element) : Compile Unit :=
  located e.line do
    let kind ← materialKind e "Materials"
    let name := Text.trim (← e.require "name")
    buildShared .material kind.typeName name (buildMaterial e kind none)

def nodeMaterial (e : Element) (node method : String) : Compile Unit :=
  located e.line do
    let kind ← materialKind e "Material"
    let object ← declare kind.typeName (e.attr? "name") method
    buildMaterial e kind (some node) object method

end SceneView.Compile
