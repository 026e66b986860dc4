import SceneView.Json.Basic

/-!
# Decoding records

A record is an object whose unknown keys do not matter and whose known keys stand at most once, or
an array of the fields in order.
-/

namespace SceneView.Json

def text? : Json → Option String
  | string text => text
  | _ => none

def items? : Json → Option (List Json)
  | array items => some items
  | _ => none

def member? (key : String) : Json → Option Json
  | object members => members.lookup (some key)
  | _ => none

def natUpTo? (bound : Nat) : Json → Option Nat
  | integer (.ofNat n) => if n ≤ bound then some n else none
  | _ => none

def keyCount (key : String) (members : List (JsonText × Json)) : Nat :=
  members.countP (·.1 == some key)

/-- The fields of a record, each `none` if it is left out. -/
def fields? (names : List String) : Json → Option (List (Option Json))
  | object members =>
    if members.all (·.1.isSome) && names.all (keyCount · members ≤ 1) then
      some (names.map fun name => members.lookup (some name))
    else none
  | array items =>
    if items.length ≤ names.length then
      some (items.map some ++ List.replicate (names.length - items.length) none)
    else none
  | _ => none

def required (decode : Json → Option α) : Option Json → Option α
  | some value => decode value
  | none => none

def optional (default : α) (decode : Json → Option α) : Option Json → Option α
  | some value => decode value
  | none => some default

/-- The label of a choice, written as a string or as the only key of an object with nothing as its
value. -/
def label? : Json → Option String
  | string text => text
  | object [(key, null)] => key
  | _ => none

end SceneView.Json
