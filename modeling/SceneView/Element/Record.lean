import SceneView.Element
import SceneView.Json.Decode

/-!
# Documents as JSON

Element trees in and out of JSON.
-/

namespace SceneView

namespace Json

mutual

def depth : Json → Nat
  | array items => itemsDepth items + 1
  | object members => membersDepth members + 1
  | null | bool _ | integer _ | decimal _ | string _ => 1

def itemsDepth : List Json → Nat
  | [] => 0
  | item :: items => max (depth item) (itemsDepth items)

def membersDepth : List (JsonText × Json) → Nat
  | [] => 0
  | (_, value) :: members => max (depth value) (membersDepth members)

end

end Json

namespace Attribute

def ofJson? (j : Json) : Option Attribute := do
  match ← j.fields? ["name", "value"] with
  | [name, value] =>
    return { name := ← Json.required Json.text? name, value := ← Json.required Json.text? value }
  | _ => none

def toJson (a : Attribute) : Json :=
  .ofMembers [("name", .ofString a.name), ("value", .ofString a.value)]

end Attribute

namespace Element

/-- Lines are numbers of 32 bits. -/
def maxLine : Nat := 4294967295

/-- Reads an element that is nested no deeper than the given depth. -/
def ofJsonWithin? : (depth : Nat) → Json → Option Element
  | 0, _ => none
  | depth + 1, j => do
    match ← j.fields? ["tag", "attributes", "children", "text", "line"] with
    | [tag, attributes, children, text, line] =>
      return {
        tag := ← Json.required Json.text? tag
        attributes := ← (← Json.required Json.items? attributes).mapM Attribute.ofJson?
        children := ← (← Json.required Json.items? children).mapM (ofJsonWithin? depth)
        text := ← Json.optional "" Json.text? text
        line := ← Json.optional 0 (Json.natUpTo? maxLine) line }
    | _ => none

def ofJson? (j : Json) : Option Element :=
  ofJsonWithin? j.depth j

mutual

def toJson : Element → Json
  | ⟨tag, attributes, children, text, line⟩ =>
    .ofMembers
      [("tag", .ofString tag), ("attributes", .array (attributes.map Attribute.toJson)),
        ("children", .array (listToJson children)), ("text", .ofString text),
        ("line", .ofNat line)]

def listToJson : List Element → List Json
  | [] => []
  | e :: es => toJson e :: listToJson es

end

end Element

def Document.ofJson? (j : Json) : Option Document := do
  match ← j.fields? ["root"] with
  | [root] => return { root := ← Json.required Element.ofJson? root }
  | _ => none

end SceneView
