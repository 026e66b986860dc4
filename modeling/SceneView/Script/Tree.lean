/-!
# Syntax trees

The tree of an expression keeps what the rest of the compiler looks at: where `this` stands, which
functions give it a meaning of their own, which expressions are plain property chains, and which may
be assigned to. Everything else is a form with its parts in source order.
-/

namespace SceneView.Script

/-- The forms of expressions, statements and types that are told apart by nothing but their parts.
-/
inductive Form where
  /-- A constant: number, string, pattern, `null`, `true`, a meta property. -/
  | literal
  /-- The `super` of a call or member access. -/
  | superRef
  | template | tagged
  /-- A list in brackets; the flag tells whether a comma stands before the closing bracket. -/
  | array (trailing : Bool)
  /-- A list of properties in braces, with the same flag. -/
  | object (trailing : Bool)
  | hole | spread
  /-- A computed key, if any, and the value of the property. -/
  | property
  | shorthand
  /-- A shorthand property with a default, which only an assignment target may hold. -/
  | shorthandDefault
  /-- A computed key, if any, and the function of the method. -/
  | method
  | paren | index | privateMember | optionalChain | call | new | importCall | instantiation
  | nonNull
  | cast
  | assertion
  | unary | update | binary | logical | coalesce | privateIn | conditional | sequence | yield
  | assign
  | compoundAssign
  /-- A list or object read as an assignment target. -/
  | target
  | arrow
  /-- A function with a `this` of its own: its parameters and its body. -/
  | function
  | classBody | classField | staticBlock
  | binding | statement | type
deriving DecidableEq, Repr

/-- A syntax tree. `this` keeps the offset of its first character, `member` is the access to a
plainly named property. -/
inductive Tree where
  | this (start : Nat)
  | name (text : String)
  | member (object : Tree) (property : String)
  | node (form : Form) (parts : List Tree)
deriving Repr

namespace Tree

instance : Inhabited Tree := ⟨.node .literal []⟩

/-- The names after `this` when the tree is `this` followed by plain property accesses. -/
def chain? : Tree → Option (List String)
  | .this _ => some []
  | .member object property => object.chain?.map (· ++ [property])
  | _ => none

def path? : Tree → Option (List String)
  | .member object property => (Tree.member object property).chain?
  | _ => none

mutual

/-- The offsets of every `this` that is not inside a function with a `this` of its own. -/
def roots : Tree → List Nat
  | .this start => [start]
  | .name _ => []
  | .member object _ => object.roots
  | .node .function _ => []
  | .node _ parts => rootsAll parts

def rootsAll : List Tree → List Nat
  | [] => []
  | t :: ts => t.roots ++ rootsAll ts

end

/-- The expression under parentheses and type annotations. -/
def inner : Tree → Tree
  | .node .paren (t :: _) => t.inner
  | .node .cast (t :: _) => t.inner
  | .node .assertion (t :: _) => t.inner
  | .node .nonNull (t :: _) => t.inner
  | .node .instantiation (t :: _) => t.inner
  | t => t

def isReference : Tree → Bool
  | .name _ | .member .. | .node .index _ | .node .privateMember _ => true
  | _ => false

/-- Whether a single value may be assigned to the tree: a variable or property, in parentheses or
under type annotations or not. -/
def isSimpleTarget : Tree → Bool
  | .node .paren (t :: _) => t.isSimpleTarget
  | .node .cast (t :: _) => t.inner.isReference
  | .node .assertion (t :: _) => t.inner.isReference
  | .node .nonNull (t :: _) => t.inner.isReference
  | t => t.isReference

mutual

/-- Reads an expression as the target of a plain assignment. A list or an object is read as a
pattern of targets. -/
def target? : Tree → Option Tree
  | .node (.array trailing) items => (targets? trailing items).map (.node .target ·)
  | .node (.object trailing) items => (targets? trailing items).map (.node .target ·)
  | t => if t.isSimpleTarget then some t else none

/-- Reads the items of a list or object as targets. Only the last item may take the rest, and then
no comma may follow it. -/
def targets? (trailing : Bool) : List Tree → Option (List Tree)
  | [] => some []
  | .node .spread [t] :: rest =>
    if rest.isEmpty && !trailing then t.target?.map ([·]) else none
  | .node .hole _ :: rest => targets? trailing rest
  | .node .shorthand parts :: rest => (targets? trailing rest).map (.node .binding parts :: ·)
  | .node .shorthandDefault parts :: rest =>
    (targets? trailing rest).map (.node .binding parts :: ·)
  | .node .property [value] :: rest => do
    let value ← value.defaulted?
    let rest ← targets? trailing rest
    return .node .binding [value] :: rest
  | .node .property [key, value] :: rest => do
    let value ← value.defaulted?
    let rest ← targets? trailing rest
    return .node .binding [key, value] :: rest
  | t :: rest => do
    let t ← t.defaulted?
    let rest ← targets? trailing rest
    return t :: rest

def defaulted? : Tree → Option Tree
  | .node .assign parts => some (.node .assign parts)
  | .node (.array trailing) items => (targets? trailing items).map (.node .target ·)
  | .node (.object trailing) items => (targets? trailing items).map (.node .target ·)
  | t => if t.isSimpleTarget then some t else none

end

mutual

/-- Whether no default of a shorthand property was left outside an assignment target. -/
def isComplete : Tree → Bool
  | .this _ | .name _ => true
  | .member object _ => object.isComplete
  | .node .shorthandDefault _ => false
  | .node _ parts => areComplete parts

def areComplete : List Tree → Bool
  | [] => true
  | t :: ts => t.isComplete && areComplete ts

end

end Tree

end SceneView.Script
