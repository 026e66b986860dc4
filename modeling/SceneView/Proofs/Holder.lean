import Mathlib.Data.List.Basic
import SceneView.Compile.View

/-!
# Slots and what fills them

Some parts of an object hold one value only: the texture slots of a material, and the material of a
node. A slot is filled by an attribute of its name, or by an element in the object. An element that
fills the material of a node may stand in a deferred group of the node.
-/

namespace SceneView

/-- The slots of one object, once for each attribute and for each element that fills them. -/
structure Holder where
  attributes : List String
  elements : List String
deriving DecidableEq, Repr

namespace Holder

/-- A slot is filled both by an attribute and by an element. -/
def IsMixed (h : Holder) : Prop :=
  ∃ slot ∈ h.attributes, slot ∈ h.elements

instance (h : Holder) : Decidable h.IsMixed :=
  inferInstanceAs (Decidable (∃ slot ∈ h.attributes, slot ∈ h.elements))

/-- The texture slots of a material. -/
def ofMaterial? (e : Element) : Option Holder :=
  (MaterialKind.ofTag? e.tag).map fun kind =>
    { attributes := (e.attributes.map (·.name)).filter kind.hasSlot
      elements := (e.children.map fun child => slotOfTag child.tag).filter kind.hasSlot }

end Holder

mutual

def wrappersIn : Element → List Element
  | ⟨tag, attributes, children, text, line⟩ =>
    match NodeKind.ofTag? tag with
    | some .material => [⟨tag, attributes, children, text, line⟩]
    | some .deferredGroup => wrappersInAll children
    | some .transform | some (.shape _) | some .model | some .custom | none => []

def wrappersInAll : List Element → List Element
  | [] => []
  | e :: es => wrappersIn e ++ wrappersInAll es

end

def materialSlotName : String := "material"

def Holder.ofNode (e : Element) : Holder :=
  { attributes := (e.attributes.map (·.name)).filter (· == materialSlotName)
    elements := (wrappersInAll e.children).map fun _ => materialSlotName }

mutual

def nodeHolders : Element → List Holder
  | ⟨tag, attributes, children, text, line⟩ =>
    match NodeKind.ofTag? tag with
    | some .material => children.filterMap Holder.ofMaterial?
    | some .deferredGroup => nodesHolders children
    | some .transform | some (.shape _) | some .model | some .custom =>
      Holder.ofNode ⟨tag, attributes, children, text, line⟩ :: nodesHolders children
    | none => []

def nodesHolders : List Element → List Holder
  | [] => []
  | e :: es => nodeHolders e ++ nodesHolders es

end

def sectionHolders (e : Element) : List Holder :=
  match SectionKind.ofTag? e.tag with
  | some .materials => e.children.filterMap Holder.ofMaterial?
  | some .nodes => nodesHolders e.children
  | some .imports | some .properties | some .textures | some .guis | none => []

def Document.holders (d : Document) : List Holder :=
  d.sections.flatMap sectionHolders

lemma Element.hasAttr_iff {e : Element} {name} :
    e.hasAttr name = true ↔ name ∈ e.attributes.map (·.name) := by
  simp [hasAttr, attr?]

end SceneView
