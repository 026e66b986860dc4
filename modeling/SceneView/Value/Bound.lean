import SceneView.Fault
import SceneView.Script.Host

/-!
# Bound values

An attribute value in braces is an expression about the host of the view.
-/

namespace SceneView.Value

/-- The text between the outermost braces of a value without white space at its ends. -/
def body? (value : String) : Option String :=
  match value.toList with
  | '{' :: cs =>
    match cs.reverse with
    | '}' :: reversed => some (String.ofList reversed.reverse)
    | _ => none
  | _ => none

/-- The expression in a bound value, or `none` for a literal. Braces around nothing, or around text
that begins with no expression, are refused. -/
def bound? (host raw : String) : Except Fault (Option Script.HostExpression) :=
  let value := Text.trim raw
  match body? value with
  | none => .ok none
  | some body =>
    let body := Text.trim body
    if body = "" then .error (.invalidExpression value .empty)
    else
      match Script.redirect? host body with
      | some expression => .ok (some expression)
      | none => .error (.invalidExpression body .malformed)

end SceneView.Value
