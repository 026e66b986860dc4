import SceneView.Script.Type

/-!
# Functions, classes and object members

Functions other than arrow functions give `this` a meaning of their own. The members of classes and
objects are such functions too, except for fields, static blocks and computed names.
-/

namespace SceneView.Script

namespace Rule

variable (rules : Rules) (ctx : Context)

def statements : Rule (List Tree) :=
  many do
    match ← kind with
    | .mark .rightBrace => return none
    | .finish => return none
    | _ => return some (← rules.statement ctx .list)

def block : Rule (List Tree) := do
  expect .leftBrace
  let body ← statements rules ctx
  expect .rightBrace
  return body

def functionBody : Rule (List Tree) :=
  block rules { ctx with allowsIn := true, inFunction := true }

/-- What stands between the name of a function and its end. -/
structure FunctionRest where
  /-- The parameters, without a declaration of `this`. -/
  parameters : List Tree
  hasBody : Bool
  tree : Tree

/-- Reads type parameters, parameters, result type and body of a function. -/
def functionRest (async generator constructor : Bool) : Rule FunctionRest := do
  let inside := { ctx with allowsIn := true, inAsync := async, inGenerator := generator }
  let generics ← typeParameters? rules inside
  let (receiver, parameters) ← parameters rules inside constructor
  let result ← resultType? rules inside
  let body? ← do
    if ← atMark .leftBrace then pure (some (← functionBody rules inside)) else pure none
  return {
    parameters
    hasBody := body?.isSome
    tree := .node .function
      (generics ++ receiver.getD [] ++ parameters ++ result ++ body?.getD []) }

/-- Reads a function expression or declaration after its `async`, if any. A declaration may lack
its body. -/
def functionFrom (async declaration : Bool) : Rule Tree := do
  expectWord .functionKw
  let generator ← eat .star
  if (← kind).isBindable then
    let _ ← bindingName (if declaration then ctx else
      { ctx with inAsync := async, inGenerator := generator })
  else if declaration then failure
  let rest ← functionRest rules ctx async generator false
  unless rest.hasBody do
    if declaration then endStatement else failure
  return rest.tree

/-- Reads an accessor after its `get` or `set`. One that reads a value has no parameter, one that
writes it has a single parameter without a default. -/
def accessor (setter : Bool) : Rule (List Tree × FunctionRest) := do
  let key ← propertyName rules ctx
  let rest ← functionRest rules ctx false false false
  flawIf <| match setter, rest.parameters with
    | false, [] => false
    | true, [.node .binding _] => false
    | _, _ => true
  return (key, rest)

def objectMember : Rule Tree := do
  if ← eat .ellipsis then
    return .node .spread [← rules.assignment ctx true]
  let modifiers ← modifiers false false
  if let some setter ← accessorModifier? then
    flawIf (!modifiers.isEmpty)
    let (key, rest) ← accessor rules ctx setter
    unless rest.hasBody do failure
    return .node .method (key ++ [rest.tree])
  let generator ← eat .star
  let t ← token
  if t.kind == .privateName then failure
  let key ← propertyName rules ctx
  let k ← kind
  if generator || k == .mark .leftParen || k == .mark .less then
    flawIf (modifiers.any (· != .asyncKw))
    let rest ← functionRest rules ctx (modifiers.contains .asyncKw) generator false
    unless rest.hasBody do failure
    return .node .method (key ++ [rest.tree])
  flawIf (!modifiers.isEmpty)
  let isName := t.kind.isPlainName ||
    (t.kind == .keyword .awaitKw && !ctx.inAsync) || (t.kind == .keyword .yieldKw && !ctx.inGenerator)
  if isName && k != .mark .colon then
    if ← eat .assign then
      let value ← rules.assignment ctx true
      return .node .shorthandDefault [.name t.text, value]
    return .node .shorthand [.name t.text]
  expect .colon
  return .node .property (key ++ [← rules.assignment ctx true])

def object : Rule Tree := do
  expect .leftBrace
  let (members, trailing) ← list .rightBrace (objectMember rules { ctx with allowsIn := true })
  expect .rightBrace
  return .node (.object trailing) members

def heritage : Rule Tree := do
  let base ← rules.leftHand ctx
  let arguments ← do
    if ← atMark .less then pure ((← attempt (typeArguments rules ctx)).getD []) else pure []
  return .node .classBody (base :: arguments)

def heritageClauses : Rule (List Tree) := do
  let clause (seen : Bool × Bool × List Tree) : Rule (Option (Bool × Bool × List Tree)) := do
    let (extended, implemented, parts) := seen
    if ← eatWord .extendsKw then
      flawIf (extended || implemented)
      let base ← heritage rules ctx
      if ← atMark .comma then flaw
      return some (true, implemented, parts ++ [base])
    if ← eatWord .implementsKw then
      flawIf implemented
      let first ← innerType rules ctx
      let others ← many do
        if ← eat .comma then return some (← innerType rules ctx)
        return none
      return some (extended, true, parts ++ first :: others)
    return none
  let (_, _, parts) ← iterate clause (false, false, [])
  return parts

def startsConstructor : Rule Bool := do
  if ← atWord .constructorKw then
    nextIs fun t => t.kind == .mark .leftParen || t.kind == .mark .less
  else return false

def classMember : Rule (List Tree) := do
  let decorators ← decorators rules ctx
  let modifiers ← modifiers true false
  let isStatic := modifiers.contains .staticKw
  if (← atWord .staticKw) && (← nextIs fun t => t.kind == .mark .leftBrace) then
    advance
    flawIf (!modifiers.isEmpty || !decorators.isEmpty)
    let body ← block rules
      { ctx with allowsIn := true, inAsync := true, inGenerator := false, inFunction := false }
    return [.node .staticBlock body]
  let inside := { ctx with ambient := ctx.ambient || modifiers.contains .declareKw }
  flawIf (modifiers.any fun k => [.constKw, .exportKw, .defaultKw, .inKw, .outKw].contains k)
  let bodiless := modifiers.contains .abstractKw
  if let some setter ← accessorModifier? then
    let (key, rest) ← accessor rules inside setter
    unless rest.hasBody do endStatement
    return decorators ++ key ++ [rest.tree]
  if !isStatic && (← startsConstructor) then
    advance
    let rest ← functionRest rules inside false false true
    unless rest.hasBody do endStatement
    return decorators ++ [rest.tree]
  if (← atMark .leftBracket) && (← opensIndexSignature) then
    return [← indexSignature rules ctx]
  let generator ← eat .star
  let key ← propertyName rules ctx
  let optional ← eat .question
  let k ← kind
  if generator || k == .mark .leftParen || k == .mark .less then
    flawIf (modifiers.any fun m => [.declareKw, .readonlyKw, .accessorKw].contains m)
    let rest ← functionRest rules inside (modifiers.contains .asyncKw) generator false
    flawIf (bodiless && rest.hasBody)
    unless rest.hasBody do endStatement
    return decorators ++ key ++ [rest.tree]
  flawIf (modifiers.contains .asyncKw)
  let definite ← do
    if optional then pure false else eat .bang
  let type ← annotation? rules inside
  let value ← initializer? rules
    { inside with inAsync := false, inGenerator := false, inFunction := false }
  flawIf (definite && !value.isEmpty)
  endStatement
  return decorators ++ key ++ type ++ [.node .classField value]

/-- Reads a class from its keyword on. A declaration needs a name. -/
def classFrom (decorators : List Tree) (named : Bool) : Rule Tree := do
  expectWord .classKw
  let k ← kind
  if k.isBindable && k != .keyword .implementsKw then
    let _ ← bindingName ctx
  else if named then failure
  let generics ← typeParameters? rules ctx
  let clauses ← heritageClauses rules ctx
  expect .leftBrace
  let members ← many do
    match ← kind with
    | .mark .rightBrace | .finish => return none
    | .mark .semicolon => advance; return some []
    | _ => return some (← classMember rules ctx)
  expect .rightBrace
  return .node .classBody (decorators ++ generics ++ clauses ++ members.flatten)

end Rule

end SceneView.Script
