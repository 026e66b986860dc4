import SceneView.Class.Basic
import SceneView.Text.Blank

/-!
# Names of objects

Every object that a view builds has a name. The author gives it, or it is made of the type and a
number: `Box1`, `Box2` and so on, numbers that would give a reserved name left out. The object is
stored in a private member named after it.
-/

namespace SceneView

def storageName (name : String) : String :=
  "x_" ++ name

structure ObjectName where
  name : String
  /-- The author gave the name, so that the object can be referred to. -/
  isGiven : Bool
deriving DecidableEq, Repr

def ObjectName.storage (o : ObjectName) : String :=
  storageName o.name

/-- The name that the author gives, if it is not blank. -/
def ObjectName.given? (text? : Option String) : Option ObjectName :=
  ((text?.map Text.trim).filter (· ≠ "")).map fun name => { name, isGiven := true }

/-- The numbers used so far for each type, and the names that the author has taken. -/
structure NamePool where
  counters : List (String × Nat) := []
  reserved : List String := []
deriving DecidableEq, Repr

namespace NamePool

/-- Keeps a name from being made up. -/
def reserve (p : NamePool) (name : String) : NamePool :=
  { p with reserved := Text.trim name :: p.reserved }

def last (p : NamePool) (type : String) : Nat :=
  (p.counters.lookup type).getD 0

def numbered (type : String) (n : Nat) : String :=
  type ++ toString n

/-- The first number from `n` on whose name is not taken, found within the given number of steps. As
many steps as there are taken names are enough. -/
def firstFree (taken : List String) (type : String) : (steps n : Nat) → Nat
  | 0, n => n
  | steps + 1, n =>
    if taken.contains (numbered type n) then firstFree taken type steps (n + 1) else n

def nextNumber (p : NamePool) (type : String) : Nat :=
  firstFree p.reserved type p.reserved.length (p.last type + 1)

def next (p : NamePool) (type : String) : ObjectName × NamePool :=
  let n := p.nextNumber type
  ({ name := numbered type n, isGiven := false },
    { p with counters := (type, n) :: p.counters.filter (·.1 != type) })

/-- The given name if it is not blank, or a new one. -/
def assign (p : NamePool) (type : String) (given? : Option String) : ObjectName × NamePool :=
  match ObjectName.given? given? with
  | some object => (object, p)
  | none => p.next type

/-- A new name whose member the class does not have, found within the given number of further
steps. -/
def nextUnused (c : ClassDef) (type : String) : (steps : Nat) → NamePool → ObjectName × NamePool
  | 0, p => p.next type
  | steps + 1, p =>
    let (object, p) := p.next type
    if c.hasMember object.storage then nextUnused c type steps p else (object, p)

/-- The given name, or a new one whose member the class does not have. -/
def assignUnused (p : NamePool) (c : ClassDef) (type : String) (given? : Option String) :
    ObjectName × NamePool :=
  match ObjectName.given? given? with
  | some object => (object, p)
  | none => nextUnused c type c.members.length p

end NamePool

namespace ClassDef

/-- Declares the member that stores an object and, for an object that can be referred to, a getter.
An object that is built later may be unset when it is read. -/
def declare (c : ClassDef) (type : String) (object : ObjectName) (deferred : Bool) :
    Except Fault ClassDef :=
  if c.hasMember object.storage then .error (.conflict (.object object.name) 0)
  else
    let c := c.addMember
      { name := object.storage
        type
        presence? := some (if deferred then .optional else .definite) }
    if object.isGiven then
      .ok <| c.addAccessor
        { name := object.name
          type := if deferred then type ++ " | undefined" else type
          visibility := .isProtected
          getter := [(Statement.give object.storage).text] }
    else .ok c

end ClassDef

end SceneView
