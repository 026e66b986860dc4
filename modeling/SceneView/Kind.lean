import SceneView.Text.LowerCase

/-!
# Kinds of elements

The tags that sections, nodes, materials, textures and user interfaces are written with, and what
each kind brings with it.
-/

namespace SceneView

inductive SectionKind where
  | imports | properties | nodes | materials | textures | guis
deriving DecidableEq, Repr

namespace SectionKind

def all : List SectionKind :=
  [imports, properties, nodes, materials, textures, guis]

def tag : SectionKind → String
  | imports => "Imports"
  | properties => "Properties"
  | nodes => "Nodes"
  | materials => "Materials"
  | textures => "Textures"
  | guis => "Guis"

def ofTag? (text : String) : Option SectionKind :=
  all.find? (·.tag == text)

end SectionKind

inductive Shape where
  | sphere | box | cylinder | plane | disc
deriving DecidableEq, Repr

namespace Shape

def all : List Shape :=
  [sphere, box, cylinder, plane, disc]

/-- The type of a shape, which is its tag too. -/
def typeName : Shape → String
  | sphere => "Sphere"
  | box => "Box"
  | cylinder => "Cylinder"
  | plane => "Plane"
  | disc => "Disc"

/-- The attributes that are options of the constructor. -/
def options : Shape → List String
  | sphere => ["diameter", "segments"]
  | box => ["width", "height", "depth", "size"]
  | cylinder => ["diameter", "diameterTop", "diameterBottom", "height", "tessellation"]
  | plane => ["width", "height", "size"]
  | disc => ["radius", "tessellation"]

def ofTag? (text : String) : Option Shape :=
  all.find? (·.typeName == text)

end Shape

inductive NodeKind where
  | transform
  | shape (shape : Shape)
  | model
  | custom
  | deferredGroup
  | material
deriving DecidableEq, Repr

namespace NodeKind

def all : List NodeKind :=
  [transform] ++ Shape.all.map shape ++ [model, custom, deferredGroup, material]

def tag : NodeKind → String
  | transform => "TransformNode"
  | shape s => s.typeName
  | model => "ModelLoader"
  | custom => "Custom"
  | deferredGroup => "DeferredGroup"
  | material => "Material"

def ofTag? (text : String) : Option NodeKind :=
  all.find? (·.tag == text)

end NodeKind

inductive MaterialKind where
  | standard | pbr
deriving DecidableEq, Repr

namespace MaterialKind

def all : List MaterialKind :=
  [standard, pbr]

def typeName : MaterialKind → String
  | standard => "StandardMaterial"
  | pbr => "PBRMaterial"

/-- The slots that a texture can be put into. -/
def slots : MaterialKind → List String
  | standard =>
    ["ambientTexture", "bumpTexture", "cameraColorGradingTexture", "diffuseTexture",
      "emissiveTexture", "lightmapTexture", "opacityTexture", "reflectionTexture",
      "refractionTexture", "specularTexture"]
  | pbr =>
    ["albedoTexture", "ambientTexture", "bumpTexture", "emissiveTexture", "lightmapTexture",
      "metallicTexture", "microSurfaceTexture", "opacityTexture", "reflectionTexture",
      "reflectivityTexture", "refractionTexture"]

def hasSlot (m : MaterialKind) (slot : String) : Bool :=
  m.slots.contains slot

def ofTag? (text : String) : Option MaterialKind :=
  all.find? (·.typeName == text)

end MaterialKind

inductive TextureKind where
  | plain | cube
deriving DecidableEq, Repr

namespace TextureKind

def all : List TextureKind :=
  [plain, cube]

def typeName : TextureKind → String
  | plain => "Texture"
  | cube => "CubeTexture"

/-- The attribute that tells where the texture is read from. -/
def sourceAttribute : TextureKind → String
  | plain => "url"
  | cube => "rootUrl"

def ofTag? (text : String) : Option TextureKind :=
  all.find? (·.typeName == text)

end TextureKind

inductive GuiRoot where
  | fullScreen | onMesh
deriving DecidableEq, Repr

namespace GuiRoot

def all : List GuiRoot :=
  [fullScreen, onMesh]

def tag : GuiRoot → String
  | fullScreen => "FullScreen"
  | onMesh => "TextureGui"

def ofTag? (text : String) : Option GuiRoot :=
  all.find? (·.tag == text)

end GuiRoot

/-- The name of the slot that an element with the given tag fills: the tag with its first letter in
lower case. -/
def slotOfTag (tag : String) : String :=
  match tag.toList with
  | [] => ""
  | c :: cs => String.ofList (Text.lowerCase c ++ cs)

end SceneView
