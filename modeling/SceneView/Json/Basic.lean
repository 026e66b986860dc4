/-!
# JSON values

A value of the JSON format as it is written: object members in order, repeated keys kept, and whole
numbers told apart from numbers with a fraction or an exponent.
-/

namespace SceneView

/-- The text of a string, or `none` if an escape in it stands for half of a character only. -/
abbrev JsonText := Option String

inductive Json where
  | null
  | bool (value : Bool)
  | integer (value : Int)
  /-- A number with a fraction or an exponent, as written. -/
  | decimal (digits : String)
  | string (text : JsonText)
  | array (items : List Json)
  | object (members : List (JsonText × Json))
deriving Repr

namespace Json

instance : Inhabited Json := ⟨null⟩

def ofString (s : String) : Json :=
  string (some s)

def ofNat (n : Nat) : Json :=
  integer n

def ofMembers (members : List (String × Json)) : Json :=
  object (members.map fun (key, value) => (some key, value))

def ofStrings (ss : List String) : Json :=
  array (ss.map ofString)

end Json

end SceneView
