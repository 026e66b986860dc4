import SceneView.Class.Statement
import SceneView.Fault
import SceneView.Options

/-!
# The generated class

A class is collected in the order in which the document is read and written in a fixed order: the
member variables by visibility, the constructor, and then for each visibility the accessors before
the methods. Within one group the order of addition is kept.
-/

namespace SceneView

inductive Visibility where
  | isPublic | isProtected | isPrivate
deriving DecidableEq, Repr

namespace Visibility

def order : List Visibility :=
  [isPublic, isProtected, isPrivate]

def keyword : Visibility → String
  | isPublic => "public"
  | isProtected => "protected"
  | isPrivate => "private"

def ofKeyword? (text : String) : Option Visibility :=
  order.find? (·.keyword == text)

end Visibility

/-- The mark behind the name of a member: it may be unset, or it is set before it is read. -/
inductive Presence where
  | optional | definite
deriving DecidableEq, Repr

def Presence.sign : Presence → String
  | optional => "?"
  | definite => "!"

structure Member where
  name : String
  type : String
  visibility : Visibility := .isPrivate
  presence? : Option Presence := none
  default? : Option String := none
deriving DecidableEq, Repr

def Member.text (m : Member) : String :=
  "  " ++ m.visibility.keyword ++ " " ++ m.name ++ (m.presence?.map Presence.sign).getD "" ++ ": " ++
    m.type ++ (m.default?.map (" = " ++ ·)).getD "" ++ ";"

structure Parameter where
  name : String
  type : String
  optional : Bool := false
deriving DecidableEq, Repr

def Parameter.text (p : Parameter) : String :=
  p.name ++ (if p.optional then "?" else "") ++ ": " ++ p.type

def parametersText (ps : List Parameter) : String :=
  ", ".intercalate (ps.map Parameter.text)

/-- A header with its body in braces, indented as a part of a class. -/
def blockText (header : String) (body : List String) : String :=
  "  " ++ header ++ " \x7b\n" ++ String.join (body.map fun line => "    " ++ line ++ "\n") ++ "  \x7d"

structure Method where
  name : String
  returnType : String
  visibility : Visibility
  parameters : List Parameter := []
  isStatic : Bool := false
  /-- The method is written as a field that holds an arrow function. -/
  isArrow : Bool := false
  body : List Statement := []
deriving DecidableEq, Repr

namespace Method

def push (m : Method) (s : Statement) : Method :=
  { m with body := m.body ++ [s] }

def header (m : Method) : String :=
  let modifiers := m.visibility.keyword ++ if m.isStatic then " static" else ""
  let parameters := "(" ++ parametersText m.parameters ++ "): " ++ m.returnType
  if m.isArrow then modifiers ++ " " ++ m.name ++ " = " ++ parameters ++ " =>"
  else modifiers ++ " " ++ m.name ++ parameters

def text (m : Method) : String :=
  blockText m.header (m.body.map Statement.text)

end Method

/-- A getter, and a setter if there is something to do on assignment. -/
structure Accessor where
  name : String
  type : String
  visibility : Visibility
  getter : List String := []
  setter : List String := []
  /-- The name of the assigned value in the setter. -/
  argument : String := "value"
deriving DecidableEq, Repr

namespace Accessor

def hasSetter (a : Accessor) : Bool :=
  !a.setter.isEmpty

/-- The text of the getter and, after an empty line, of the setter. -/
def text (a : Accessor) : String :=
  let keyword := a.visibility.keyword
  let getter := blockText (keyword ++ " get " ++ a.name ++ "(): " ++ a.type) a.getter
  if a.hasSetter then
    getter ++ "\n\n" ++
      blockText (keyword ++ " set " ++ a.name ++ "(" ++ a.argument ++ ": " ++ a.type ++ ")") a.setter
  else getter

end Accessor

structure ClassDef where
  name : String
  visibility : ClassVisibility
  base? : Option String := none
  interfaces : List String := []
  constructorParameters : List Parameter := []
  constructorBody : List String := []
  members : List Member := []
  accessors : List Accessor := []
  methods : List Method := []
deriving DecidableEq, Repr

namespace ClassDef

def addInterface (c : ClassDef) (name : String) : ClassDef :=
  { c with interfaces := c.interfaces ++ [name] }

def addConstructorLine (c : ClassDef) (line : String) : ClassDef :=
  { c with constructorBody := c.constructorBody ++ [line] }

def addMember (c : ClassDef) (m : Member) : ClassDef :=
  { c with members := c.members ++ [m] }

def addAccessor (c : ClassDef) (a : Accessor) : ClassDef :=
  { c with accessors := c.accessors ++ [a] }

def addMethod (c : ClassDef) (m : Method) : ClassDef :=
  { c with methods := c.methods ++ [m] }

def hasMember (c : ClassDef) (name : String) : Bool :=
  c.members.any (·.name == name)

def accessor? (c : ClassDef) (name : String) : Option Accessor :=
  c.accessors.find? (·.name == name)

def method? (c : ClassDef) (name : String) : Option Method :=
  c.methods.find? (·.name == name)

def hasMethod (c : ClassDef) (name : String) : Bool :=
  (c.method? name).isSome

/-- Changes the first method of the given name. -/
def updateFirst (f : Method → Method) (name : String) : List Method → List Method
  | [] => []
  | m :: ms => if m.name == name then f m :: ms else m :: updateFirst f name ms

/-- Adds a statement to the first method of the given name, which must exist. -/
def push (c : ClassDef) (method : String) (s : Statement) : Except Fault ClassDef :=
  if c.hasMethod method then
    .ok { c with methods := updateFirst (·.push s) method c.methods }
  else .error (.unknownMethod method)

def addMethodOnce (c : ClassDef) (m : Method) : ClassDef :=
  if c.hasMethod m.name then c else c.addMethod m

def header (c : ClassDef) : String :=
  c.visibility.keywords ++ "class " ++ c.name ++ (c.base?.map (" extends " ++ ·)).getD "" ++
    if c.interfaces.isEmpty then "" else " implements " ++ ", ".intercalate c.interfaces

/-- The member variables of each visibility, one block for each that has any. -/
def memberBlocks (c : ClassDef) : List String :=
  Visibility.order.filterMap fun v =>
    match c.members.filter (·.visibility == v) with
    | [] => none
    | group => some ("\n".intercalate (group.map Member.text))

def constructorBlocks (c : ClassDef) : List String :=
  if c.constructorBody.isEmpty then []
  else
    [blockText ("constructor(" ++ parametersText c.constructorParameters ++ ")") c.constructorBody]

def codeBlocks (c : ClassDef) : List String :=
  Visibility.order.flatMap fun v =>
    (c.accessors.filter (·.visibility == v)).map Accessor.text ++
      (c.methods.filter (·.visibility == v)).map Method.text

def blocks (c : ClassDef) : List String :=
  c.memberBlocks ++ c.constructorBlocks ++ c.codeBlocks

/-- The text of the class: its parts with an empty line between any two. -/
def text (c : ClassDef) : String :=
  c.header ++ " \x7b\n" ++ "\n".intercalate (c.blocks.map (· ++ "\n")) ++ "\x7d\n"

end ClassDef

end SceneView
