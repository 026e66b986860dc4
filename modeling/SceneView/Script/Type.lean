import SceneView.Script.Pattern

/-!
# Types

The types of annotations, casts and type arguments. A type has no value of its own, so its tree
keeps only the expressions written inside it: computed member names and the `this` of a `typeof`.
-/

namespace SceneView.Script

namespace Rule

variable (rules : Rules) (ctx : Context)

/-- A type anywhere inside brackets, where conditional types are allowed again. -/
def innerType : Rule Tree :=
  rules.type { ctx with noConditional := false }

/-- Whether the current token can begin a type; a parenthesis does if a type or a parameter follows
it. -/
def startsType : Rule Bool := do
  match ← kind with
  | .name | .string | .number | .bigint => return true
  | .template .whole _ | .template .head _ => return true
  | .keyword k =>
    return k.isName || [.awaitKw, .yieldKw, .voidKw, .nullKw, .thisKw, .typeofKw, .newKw, .trueKw,
      .falseKw, .importKw, .functionKw].contains k
  | .mark .leftBrace | .mark .leftBracket | .mark .less | .mark .pipe | .mark .amp | .mark .star
  | .mark .question | .mark .bang | .mark .ellipsis => return true
  | .mark .minus => nextIs fun t => t.kind == .number || t.kind == .bigint
  | .mark .leftParen => ahead do
    advance
    match ← kind with
    | .mark .rightParen | .mark .ellipsis | .mark .leftBrace | .mark .leftBracket | .mark .less
    | .mark .pipe | .mark .amp | .mark .star | .mark .question | .mark .bang | .mark .atSign
    | .mark .leftParen => return true
    | .mark .minus => nextIs fun t => t.kind == .number || t.kind == .bigint
    | k => return k.isWord || k == .string || k == .number || k == .bigint || k.opensTemplate
  | _ => return false

def typeParameter : Rule (List Tree) := do
  let modifiers ← modifiers false true
  flawIf !(modifiers.all ([.constKw, .inKw, .outKw].contains ·))
  let _ ← bindingName { ctx with inAsync := false, inGenerator := false }
  let bounds ← do
    if ← eatWord .extendsKw then pure [← innerType rules ctx] else pure []
  let default ← do
    if ← eat .assign then pure [← innerType rules ctx] else pure []
  return bounds ++ default

def typeParameters? : Rule (List Tree) := do
  if ← eat .less then
    let (items, _) ← list .greater (typeParameter rules ctx)
    flawIf items.isEmpty
    expect .greater
    return items.flatten
  return []

def typeArguments : Rule (List Tree) := do
  splitLess
  expect .less
  let (items, _) ← list .greater (innerType rules ctx)
  flawIf items.isEmpty
  expect .greater
  return items

/-- Reads the type arguments after a type name; they must stand on the same line. -/
def typeArguments? : Rule (List Tree) := do
  if ← onNewLine then return []
  match ← kind with
  | .mark .less | .mark .shiftLeft | .mark .lessEq | .mark .shiftLeftAssign =>
    typeArguments rules ctx
  | _ => return []

/-- Passes what may begin a parameter: modifiers and a name or pattern. -/
def skipParameterStart : Rule Bool := do
  if (← kind).isModifier then
    let _ ← modifiers false false
  match ← kind with
  | .keyword .thisKw => advance; return true
  | .mark .leftBrace | .mark .leftBracket =>
    let before := (← get).flawed
    let _ ← rules.pattern ctx
    return (← get).flawed == before
  | k =>
    if k.isBindable then
      advanceName
      return true
    return false

/-- Whether the parenthesis here opens the parameters of a function type. -/
def opensFunctionType : Rule Bool := ahead do
  advance
  match ← kind with
  | .mark .rightParen | .mark .ellipsis => return true
  | _ =>
    if ← skipParameterStart rules ctx then
      match ← kind with
      | .mark .colon | .mark .comma | .mark .question | .mark .assign => return true
      | .mark .rightParen => advance; atMark .arrow
      | _ => return false
    else return false

def startsFunctionType : Rule Bool := do
  match ← kind with
  | .mark .less => return true
  | .mark .leftParen => opensFunctionType rules ctx
  | .keyword .newKw => return true
  | .keyword .abstractKw => nextIs fun t => t.kind == .keyword .newKw
  | _ => return false

def typeOrPredicate : Rule Tree := do
  let isPredicate ← do
    if (← kind).isBindable then
      nextIs fun t => t.kind == .keyword .isKw && !t.newline
    else pure false
  if isPredicate then
    advanceName
    advance
  innerType rules ctx

def resultType? : Rule (List Tree) := do
  if ← eat .colon then return [← typeOrPredicate rules ctx]
  return []

def functionType : Rule Tree := do
  let _ ← eatWord .abstractKw
  let _ ← eatWord .newKw
  let generics ← typeParameters? rules ctx
  let (receiver, parameters) ← parameters rules ctx false
  expect .arrow
  let result ← typeOrPredicate rules ctx
  return .node .type (generics ++ receiver.getD [] ++ parameters ++ [result])

def endMember : Rule Unit := do
  if ← eat .comma then return
  endStatement

/-- Whether the bracket here opens an index signature rather than a computed name. -/
def opensIndexSignature : Rule Bool := ahead do
  advance
  match ← kind with
  | .mark .ellipsis | .mark .rightBracket => return true
  | _ =>
    if (← kind).isModifier then
      advance
      if (← kind).isBindable then return true
      let k ← kind
      if k == .mark .colon || k == .mark .comma then return true
      if k != .mark .question then return false
    else if !(← kind).isBindable then return false
    else
      advanceName
      let k ← kind
      if k == .mark .colon || k == .mark .comma then return true
      if k != .mark .question then return false
    advance
    match ← kind with
    | .mark .colon | .mark .comma | .mark .rightBracket => return true
    | _ => return false

def indexSignature : Rule Tree := do
  expect .leftBracket
  let _ ← bindingName { ctx with inAsync := false }
  let key ← annotation? rules ctx
  flawIf key.isEmpty
  expect .rightBracket
  let value ← annotation? rules ctx
  flawIf value.isEmpty
  endMember
  return .node .type (key ++ value)

def signature : Rule (List Tree) := do
  let generics ← typeParameters? rules ctx
  let (receiver, parameters) ← parameters rules ctx false
  let result ← resultType? rules ctx
  return generics ++ receiver.getD [] ++ parameters ++ result

def typeMember : Rule Tree := do
  match ← kind with
  | .mark .leftParen | .mark .less =>
    let parts ← signature rules ctx
    endMember
    return .node .type parts
  | k =>
    if k == .keyword .newKw &&
        (← nextIs fun t => t.kind == .mark .leftParen || t.kind == .mark .less) then
      advance
      let parts ← signature rules ctx
      endMember
      return .node .type parts
    let modifiers ← modifiers false false
    if (← accessorModifier?).isSome then
      flawIf (!modifiers.isEmpty)
      let key ← propertyName rules ctx
      let parts ← signature rules ctx
      endMember
      return .node .type (key ++ parts)
    flawIf (modifiers.any (· != .readonlyKw))
    if (← atMark .leftBracket) && (← opensIndexSignature) then
      return ← indexSignature rules ctx
    let key ← propertyName rules ctx
    let _ ← eat .question
    match ← kind with
    | .mark .leftParen | .mark .less =>
      flawIf (!modifiers.isEmpty)
      let parts ← signature rules ctx
      endMember
      return .node .type (key ++ parts)
    | _ =>
      let type ← annotation? rules ctx
      if ← atMark .assign then failure
      endMember
      return .node .type (key ++ type)

def typeMembers : Rule (List Tree) := do
  expect .leftBrace
  let members ← many do
    if ← atMark .rightBrace then return none
    return some (← typeMember rules ctx)
  expect .rightBrace
  return members

/-- Whether the brace here opens a mapped type. -/
def opensMappedType : Rule Bool := ahead do
  advance
  match ← kind with
  | .mark .plus | .mark .minus => advance; atWord .readonlyKw
  | _ =>
    let _ ← eatWord .readonlyKw
    unless ← eat .leftBracket do return false
    unless (← kind).isWord do return false
    advanceName
    atWord .inKw

def mappedType : Rule Tree := do
  expect .leftBrace
  match ← kind with
  | .mark .plus | .mark .minus => advance; expectWord .readonlyKw
  | _ =>
    let _ ← eatWord .readonlyKw
  expect .leftBracket
  let _ ← wordName
  expectWord .inKw
  let domain ← innerType rules ctx
  let renamed ← do
    if ← eatWord .asKw then pure [← innerType rules ctx] else pure []
  expect .rightBracket
  match ← kind with
  | .mark .plus | .mark .minus => advance; expect .question
  | _ =>
    let _ ← eat .question
  let type ← annotation? rules ctx
  if !(← eat .comma) then endStatement
  expect .rightBrace
  return .node .type (domain :: renamed ++ type)

/-- Reads a name with its qualifications; `typeof` may start from `this`. -/
def qualifiedName (query : Bool) : Rule (List Tree) := do
  let t ← token
  let first : List Tree ← do
    if query && t.kind == .keyword .thisKw then
      advance
      pure [Tree.this t.start]
    else
      let _ ← wordName
      pure []
  let _ ← many do
    if ← eat .dot then
      if (← kind) == .privateName then
        advance
        return some ""
      return some (← wordName)
    return none
  return first

def typeReference : Rule Tree := do
  let names ← qualifiedName false
  return .node .type (names ++ (← typeArguments? rules ctx))

def importType : Rule Tree := do
  expectWord .importKw
  expect .leftParen
  let source ← innerType rules ctx
  let options ← do
    if ← eat .comma then
      if ← atMark .rightParen then pure []
      else
        let options ← rules.assignment ctx true
        let _ ← eat .comma
        pure [options]
    else pure []
  expect .rightParen
  if ← eat .dot then
    let _ ← qualifiedName false
  return .node .type (source :: options ++ (← typeArguments? rules ctx))

def typeQuery : Rule Tree := do
  expectWord .typeofKw
  if ← atWord .importKw then importType rules ctx
  else
    let names ← qualifiedName true
    return .node .type (names ++ (← typeArguments? rules ctx))

/-- Reads an element of a tuple type, which may be named, optional or a rest element. -/
def tupleElement : Rule Tree := do
  let _ ← eat .ellipsis
  let named ← ahead do
    let _ ← wordName
    if ← eat .question then atMark .colon else atMark .colon
  if named then
    let _ ← wordName
    let _ ← eat .question
    expect .colon
  innerType rules ctx

def templateType : Rule (List Tree) :=
  many do
    match ← kind with
    | .template .tail _ => advance; return none
    | .template .head _ | .template .middle _ =>
      advance
      let type ← innerType rules ctx
      unless ← atMark .rightBrace do failure
      modify fun c =>
        let (kind, left) := readTemplate false (c.rest.length + 1) true c.rest
        c.reread kind left
      return some type
    | _ => failure

def simpleType : Rule Tree := do
  match ← kind with
  | .string | .number | .bigint | .template .whole _ => advance; return .node .type []
  | .template .head _ => return .node .type (← templateType rules ctx)
  | .mark .minus =>
    advance
    match ← kind with
    | .number | .bigint => advance; return .node .type []
    | _ => failure
  | .mark .leftBrace =>
    if ← opensMappedType then mappedType rules ctx
    else return .node .type (← typeMembers rules ctx)
  | .mark .leftBracket =>
    advance
    let (items, _) ← list .rightBracket (tupleElement rules ctx)
    expect .rightBracket
    return .node .type items
  | .mark .leftParen =>
    advance
    let type ← innerType rules ctx
    expect .rightParen
    return type
  | .mark .bang | .mark .question =>
    -- documentation marks are read as part of a type
    let optional ← eat .question
    if !optional then advance
    match ← kind with
    | .mark .comma | .mark .rightBrace | .mark .rightParen | .mark .greater | .mark .assign
    | .mark .pipe => if optional then return .node .type [] else innerType rules ctx
    | _ => innerType rules ctx
  | .keyword .thisKw =>
    advance
    if (← atWord .isKw) && !(← onNewLine) then
      advance
      innerType rules ctx
    else return .node .type []
  | .keyword .typeofKw => typeQuery rules ctx
  | .keyword .importKw => importType rules ctx
  | .keyword .voidKw | .keyword .nullKw | .keyword .trueKw | .keyword .falseKw =>
    advance
    return .node .type []
  | .keyword .anyKw | .keyword .unknownKw | .keyword .stringKw | .keyword .numberKw
  | .keyword .bigintKw | .keyword .booleanKw | .keyword .undefinedKw | .keyword .neverKw
  | .keyword .objectKw | .keyword .symbolKw =>
    -- a built-in type takes no arguments, but its name may begin a qualified one
    if ← nextIs fun t => t.kind == .mark .dot then typeReference rules ctx
    else
      advance
      return .node .type []
  | .keyword .assertsKw =>
    if ← nextIs fun t => !t.newline && (t.kind.isBindable || t.kind == .keyword .thisKw) then
      advance
      advanceName
      if ← eatWord .isKw then innerType rules ctx else return .node .type []
    else typeReference rules ctx
  | _ => typeReference rules ctx

def postfixType : Rule Tree := do
  iterate (fun type => do
    if ← onNewLine then return none
    match ← kind with
    | .mark .bang => advance; return some type
    | .mark .question =>
      if ← ahead (do advance; startsType) then return none
      advance
      return some type
    | .mark .leftBracket =>
      advance
      if ← startsType then
        let index ← innerType rules ctx
        expect .rightBracket
        return some (.node .type [type, index])
      expect .rightBracket
      return some type
    | _ => return none) (← simpleType rules ctx)

/-- Reads a type variable to be inferred, with its bound if that bound is not the start of a
conditional type. -/
def inferredType : Rule Tree := do
  expectWord .inferKw
  let _ ← bindingName { ctx with inAsync := false, inGenerator := false }
  let bound ← attempt do
    expectWord .extendsKw
    let bound ← rules.type { ctx with noConditional := true }
    if !ctx.noConditional && (← atMark .question) then failure
    return bound
  return .node .type bound.toList

def operatorType : Nat → Rule Tree
  | 0 => failure
  | fuel + 1 => do
    match ← kind with
    | .keyword .keyofKw | .keyword .uniqueKw | .keyword .readonlyKw =>
      advance
      operatorType fuel
    | .keyword .inferKw => inferredType rules ctx
    | _ => postfixType rules ctx

/-- Reads types joined by the given mark, which may also stand before the first. -/
def joinedTypes (m : Mark) (operand : Rule Tree) : Rule Tree := do
  let _ ← eat m
  let first ← operand
  let others ← many do
    if ← eat m then return some (← operand)
    return none
  return if others.isEmpty then first else .node .type (first :: others)

def type : Rule Tree := do
  if ← startsFunctionType rules ctx then functionType rules ctx
  else
    let operand : Rule Tree := do operatorType rules ctx (← bound)
    let type ← joinedTypes .pipe (joinedTypes .amp operand)
    if ctx.noConditional || (← onNewLine) then return type
    if ← eatWord .extendsKw then
      let bound ← rules.type { ctx with noConditional := true }
      expect .question
      let yes ← innerType rules ctx
      expect .colon
      let no ← innerType rules ctx
      return .node .type [type, bound, yes, no]
    return type

end Rule

end SceneView.Script
