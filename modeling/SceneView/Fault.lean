import SceneView.Markup.Fault
import SceneView.Element

/-!
# Faults and diagnostics

Everything that can stop a view from being compiled. Compilation stops at the first fault. A fault
names its cause; the wording and the stable code that tools match on are given once, here. Faults
raised against an element carry its line, zero standing for a place not yet known.
-/

namespace SceneView

inductive ReferenceKind where
  | material | texture | mesh
deriving DecidableEq, Repr

def ReferenceKind.label : ReferenceKind → String
  | material => "Material"
  | texture => "Texture"
  | mesh => "Mesh"

inductive Conflict where
  | object (name : String)
  | property (name : String)
  | sharedObject (kind : ReferenceKind) (name : String)
  | deferredGroup (name : String)
  | nodeMaterial (node : String)
  | textureSlot (material slot : String)
  | outputFile (className file path : String)
  | described (text : String)
deriving DecidableEq, Repr

def Conflict.message : Conflict → String
  | object name => "an object named '" ++ name ++ "' is already declared"
  | property name => "property '" ++ name ++ "' is declared more than once"
  | sharedObject kind name =>
    "shared " ++ kind.label ++ " '" ++ name ++ "' is declared more than once"
  | deferredGroup name => "deferred group '" ++ name ++ "' is declared more than once"
  | nodeMaterial node =>
    "node '" ++ node ++ "' has both a material attribute and a <Material> element"
  | textureSlot material slot =>
    "texture slot '" ++ material ++ "." ++ slot ++
      "' is set by both an attribute and a nested element"
  | outputFile className file path =>
    "class '" ++ className ++ "' is also compiled from " ++ file ++ "; both would write " ++ path
  | described text => text

/-- An arrangement of elements that the sections do not allow. -/
inductive Misplacement where
  | wrapper (tag : String) (count : Nat)
  | looseMaterial
  | neverTranslated (kind : ReferenceKind) (name : String)
  | described (text : String)
deriving DecidableEq, Repr

def Misplacement.message : Misplacement → String
  | wrapper tag 0 => "<" ++ tag ++ "> must contain exactly one element"
  | wrapper tag count =>
    "<" ++ tag ++ "> must contain exactly one element, found " ++ toString count
  | looseMaterial => "<Material> must be nested inside a node"
  | neverTranslated kind name =>
    "shared " ++ kind.label ++ " '" ++ name ++ "' was registered but never translated"
  | described text => text

inductive Refusal where
  | empty
  | malformed
  | described (text : String)
deriving DecidableEq, Repr

inductive Fault where
  | reference (kind : ReferenceKind) (name : String) (line : Nat)
  | forwardReference (kind : ReferenceKind) (name : String) (line : Nat)
  | conflict (cause : Conflict) (line : Nat)
  | missingAttribute (element name : String) (line : Nat)
  | invalidExpression (expression : String) (reason : Refusal)
  | unknownElement (element parent : String) (line : Nat)
  | invalidStructure (cause : Misplacement)
  | markup (cause : Markup.MarkupFault) (line : Nat)
  | unknownMethod (name : String)
deriving DecidableEq, Repr

namespace Fault

def code : Fault → String
  | reference .. | forwardReference .. => "INS-ERR-REF-001"
  | conflict .. => "INS-ERR-CONFLICT-001"
  | missingAttribute .. => "INS-ERR-ATTR-001"
  | invalidExpression .. => "INS-ERR-EXPR-001"
  | unknownElement .. => "INS-ERR-ELEMENT-001"
  | invalidStructure .. => "INS-ERR-STRUCTURE-001"
  | markup .. => "INS-ERR-XML-001"
  | unknownMethod .. => "INS-ERR-INTERNAL-001"

def message : Fault → String
  | reference kind name _ => kind.label ++ " reference not found: " ++ name
  | forwardReference kind name _ =>
    kind.label ++ " '" ++ name ++
      "' is declared after it is used; declare it before the element that references it"
  | conflict cause _ => "Conflicting assignments: " ++ cause.message
  | missingAttribute element name _ => "<" ++ element ++ "> requires a '" ++ name ++ "' attribute"
  | invalidExpression expression reason =>
    let start := "Invalid expression '" ++ expression ++ "'"
    match reason with
    | .empty => start ++ ": expression is empty"
    | .malformed => start
    | .described text => start ++ ": " ++ text
  | unknownElement element parent _ => "Unknown element <" ++ element ++ "> in " ++ parent
  | invalidStructure cause => "Invalid document structure: " ++ cause.message
  | markup cause line => "XML error at line " ++ toString line ++ ": " ++ cause.message
  | unknownMethod name => "Generated method '" ++ name ++ "' does not exist"

/-- Locates a fault that has no line yet, so that of several elements the innermost wins. -/
def atLine (line : Nat) : Fault → Fault
  | reference kind name 0 => reference kind name line
  | forwardReference kind name 0 => forwardReference kind name line
  | conflict cause 0 => conflict cause line
  | missingAttribute element name 0 => missingAttribute element name line
  | unknownElement element parent 0 => unknownElement element parent line
  | fault => fault

def line? : Fault → Option Nat
  | markup _ line => some line
  | reference _ _ line | forwardReference _ _ line | conflict _ line | missingAttribute _ _ line
  | unknownElement _ _ line => if line > 0 then some line else none
  | invalidExpression .. | invalidStructure .. | unknownMethod .. => none

end Fault

structure Diagnostic where
  code : String
  message : String
  file : String
  line : Nat
deriving DecidableEq, Repr

def Fault.toDiagnostic (fault : Fault) (file : String) : Diagnostic :=
  { code := fault.code, message := fault.message, file, line := fault.line?.getD 0 }

/-- A diagnostic on one line, with the place first. -/
def Diagnostic.text (d : Diagnostic) : String :=
  let place := if d.line > 0 then d.file ++ ":" ++ toString d.line else d.file
  place ++ ": [" ++ d.code ++ "] " ++ d.message

namespace Element

/-- The value of an attribute that the element must have. -/
def require (e : Element) (name : String) : Except Fault String :=
  match e.attr? name with
  | some value => .ok value
  | none => .error (.missingAttribute e.tag name e.line)

/-- The child of an element that wraps exactly one. -/
def onlyChild (e : Element) : Except Fault Element :=
  match e.children with
  | [child] => .ok child
  | children => .error (.invalidStructure (.wrapper e.tag children.length))

end Element

def Document.className (d : Document) : Except Fault String :=
  match d.className? with
  | some name => .ok name
  | none => .error (.missingAttribute d.root.tag "name" d.root.line)

end SceneView
