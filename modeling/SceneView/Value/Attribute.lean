import SceneView.Class.Import
import SceneView.Class.Statement
import SceneView.Text.Quoted
import SceneView.Value.Bound
import SceneView.Value.Literal

/-!
# Attribute values

An attribute value is a bound expression, a literal of a known type, or other literal text. It
becomes the statement that gives the attribute its value and, for a bound property chain, a second
statement that repeats it when the property changes. How the value is given is chosen by the
attribute, never by the value.
-/

namespace SceneView.Value

/-- The members through which generated code reaches the host and its observer. -/
structure Binder where
  host : String
  engine : String
deriving DecidableEq, Repr

/-- How an attribute is translated. -/
structure Options where
  isEvent : Bool := false
  isObservable : Bool := false
  /-- The method that takes the value. -/
  updateMethod? : Option String := none
  /-- Literals are never read as colors or vectors. -/
  skipPrimitives : Bool := false
  quoteIfNeeded : Bool := false
  deferred : Bool := false
  /-- The path that takes the place of the target in the statement. -/
  path? : Option String := none
deriving DecidableEq, Repr

/-- How the value is given: an event comes before an observable, and both before a method. -/
def Options.form (o : Options) : SetterForm :=
  if o.isEvent then .event
  else if o.isObservable then .observable
  else
    match o.updateMethod? with
    | some name => .method name
    | none => .property

structure Translated where
  name : String
  value : String
  setter : Setter
  /-- The observed path and its observer, if the value is to follow it. -/
  binding? : Option (String × String)
  constructs? : Option Primitive
deriving DecidableEq, Repr

namespace Translated

def apply (t : Translated) : Statement :=
  .apply t.setter t.value

/-- The statement that repeats the assignment on change, if there is one. -/
def bind? (t : Translated) : Option Statement :=
  t.binding?.map fun (engine, path) => .bind engine path t.setter

end Translated

namespace Binder

def translate (b : Binder) (name raw target : String) (options : Options) :
    Except Fault Translated := do
  let value := Text.trim raw
  let setter : Setter :=
    { target := { path := options.path?.getD target, deferred := options.deferred }
      name
      form := options.form }
  match ← bound? b.host value with
  | some expression =>
    let binding? := if setter.isRepeatable then expression.path.map (b.engine, ·) else none
    return { name, value := expression.code, setter, binding?, constructs? := none }
  | none =>
    match if options.skipPrimitives then none else Primitive.ofLiteral? value with
    | some p =>
      return { name, value := p.construct value, setter, binding? := none, constructs? := some p }
    | none =>
      let value := if options.quoteIfNeeded && !isNumeric value then Text.quote value else value
      return { name, value, setter, binding? := none, constructs? := none }

/-- The value as an argument: a redirected expression, or the literal, quoted on demand. -/
def argument (b : Binder) (raw : String) (quoteLiteral : Bool) : Except Fault String := do
  let value := Text.trim raw
  match ← bound? b.host value with
  | some expression => return expression.code
  | none => return if quoteLiteral then Text.quote value else value

/-- The value of a declared type. Only the grammar of that type is tried, and text is quoted. -/
def typed (b : Binder) (type raw : String) : Except Fault (String × Option Primitive) := do
  let type := Text.trim type
  let value := Text.trim raw
  match ← bound? b.host value with
  | some expression => return (expression.code, none)
  | none =>
    match (Primitive.ofTypeName? type).filter (·.accepts value) with
    | some p => return (p.construct value, some p)
    | none => return (if type = "string" then Text.quote value else value, none)

end Binder

end SceneView.Value
