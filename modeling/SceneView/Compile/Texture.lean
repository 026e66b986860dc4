import SceneView.Compile.Session
import SceneView.Kind

/-!
# Textures

A texture is shared, or it fills one slot of a material.
-/

namespace SceneView.Compile

def textureKind (e : Element) (place : String) : Except Fault TextureKind :=
  match TextureKind.ofTag? e.tag with
  | some kind => .ok kind
  | none => .error (.unknownElement e.tag place 0)

/-- Gives a texture the value of an attribute. The source is passed to the constructor already, so
only its changes are followed. -/
def textureAttribute (kind : TextureKind) (object : ObjectName) (method : String) (a : Attribute) :
    Compile Unit := do
  let deferred := isDeferred method
  if a.name == kind.sourceAttribute then
    follow method (← translate a object.storage
      { updateMethod? := some "updateURL", quoteIfNeeded := true, deferred })
  else apply method (← translate a object.storage { deferred })

def buildTexture (e : Element) (kind : TextureKind) (object : ObjectName) (method : String) :
    Compile Unit := do
  addImport .core kind.typeName
  let source ← argument (← e.require kind.sourceAttribute) true
  emit method (.construct object.storage (.texture kind.typeName source Builtin.scene))
  emit method (.textureName object.storage object.name)
  (e.attributesExcept ["name"]).forM (textureAttribute kind object method)

def sharedTexture (e : Element) : Compile Unit :=
  located e.line do
    let kind ← textureKind e "Textures"
    let name := Text.trim (← e.require "name")
    buildShared .texture kind.typeName name (buildTexture e kind)

def slotTexture (e : Element) (material slot method : String) : Compile Unit :=
  located e.line do
    let kind ← textureKind e slot
    let object ← declare kind.typeName (e.attr? "name") method
    buildTexture e kind object method
    emit method (.slotTexture material slot (.member object.storage))

end SceneView.Compile
