import SceneView.Script.Expression

/-!
# Statements

The statements in the bodies of functions and static blocks. Declarations of types, enumerations and
namespaces may stand among them.
-/

namespace SceneView.Script

namespace Rule

variable (rules : Rules) (ctx : Context)

/-- A declared variable: whether it is destructured, whether it has a value, and its tree. -/
structure Declared where
  destructured : Bool
  hasValue : Bool
  tree : Tree

def declared : Rule Declared := do
  let k ← kind
  let pattern ← rules.pattern ctx
  let definite ← eat .bang
  let type ← annotation? rules ctx
  let value ← do
    if ← eat .assign then pure [← rules.assignment ctx true] else pure []
  flawIf (definite && !value.isEmpty)
  return {
    destructured := k == .mark .leftBrace || k == .mark .leftBracket
    hasValue := !value.isEmpty
    tree := .node .binding (pattern :: type ++ value) }

def declaredList : Rule (List Declared) := do
  let first ← declared rules ctx
  let others ← many do
    if ← eat .comma then return some (← declared rules ctx)
    return none
  return first :: others

/-- Constants and destructured variables need a value. -/
def checkValues (constant : Bool) (declared : List Declared) : Rule Unit :=
  flawIf (!ctx.ambient && declared.any fun v => !v.hasValue && (constant || v.destructured))

def variableStatement (constant : Bool) : Rule Tree := do
  let declared ← declaredList rules ctx
  checkValues ctx constant declared
  endStatement
  return .node .statement (declared.map (·.tree))

def letDeclares : Rule Bool :=
  nextIs fun t => t.kind == .mark .leftBrace || t.kind == .mark .leftBracket ||
    (t.kind.isWord && t.kind != .keyword .inKw)

def usingDeclares : Rule Bool :=
  nextIs fun t => !t.newline && t.kind.isBindable && t.kind != .keyword .ofKw

def condition : Rule Tree := do
  expect .leftParen
  let e ← rules.expression ctx.inBrackets
  expect .rightParen
  return e

def countingLoop (first : List Tree) : Rule Tree := do
  expect .semicolon
  let test ← do
    if ← atMark .semicolon then pure [] else pure [← rules.expression ctx.inBrackets]
  expect .semicolon
  let step ← do
    if ← atMark .rightParen then pure [] else pure [← rules.expression ctx.inBrackets]
  expect .rightParen
  let body ← rules.statement ctx .alone
  return .node .statement (first ++ test ++ step ++ [body])

def iteratingLoop (first : List Tree) (awaits : Bool) : Rule Tree := do
  let overItems ← atWord .ofKw
  flawIf (awaits && !overItems)
  advance
  let source ← do
    if overItems then rules.assignment ctx.inBrackets true
    else rules.expression ctx.inBrackets
  expect .rightParen
  let body ← rules.statement ctx .alone
  return .node .statement (first ++ [source, body])

def iterates : Rule Bool := do
  return (← atWord .ofKw) || (← atWord .inKw)

def declaringLoop (constant awaits : Bool) : Rule Tree := do
  let declared ← declaredList rules { ctx with allowsIn := false }
  let trees := declared.map (·.tree)
  if ← iterates then
    flawIf (declared.length != 1 || declared.any (·.hasValue))
    iteratingLoop rules ctx trees awaits
  else
    checkValues ctx constant declared
    flawIf awaits
    countingLoop rules ctx trees

def forLoop : Rule Tree := do
  expectWord .forKw
  let awaits ← atWord .awaitKw
  if awaits then
    flawIf (!ctx.inAsync)
    advance
  expect .leftParen
  match ← kind with
  | .mark .semicolon =>
    flawIf awaits
    countingLoop rules ctx []
  | .keyword .varKw => advance; declaringLoop rules ctx false awaits
  | .keyword .constKw => advance; declaringLoop rules ctx true awaits
  | k =>
    if k == .keyword .letKw && (← letDeclares) then
      advance
      declaringLoop rules ctx false awaits
    else if k == .keyword .usingKw && (← usingDeclares) then
      advance
      declaringLoop rules ctx true awaits
    else
      let asyncOf := k == .keyword .asyncKw && (← nextIs fun t => t.kind == .keyword .ofKw)
      let first ← rules.expression { ctx with allowsIn := false }
      if ← iterates then
        let some target := first.target? | failure
        flawIf (asyncOf && !awaits)
        iteratingLoop rules ctx [target] awaits
      else
        flawIf awaits
        countingLoop rules ctx [first]

/-- Reads one clause of a `switch`: its test, if it has one, and its statements. -/
def switchClause : Rule (Bool × List Tree) := do
  let test ← do
    if ← eatWord .defaultKw then pure none
    else
      expectWord .caseKw
      pure (some (← rules.expression ctx.inBrackets))
  expect .colon
  let body ← many do
    match ← kind with
    | .keyword .caseKw | .keyword .defaultKw | .mark .rightBrace | .finish => return none
    | _ => return some (← rules.statement ctx .list)
  return (test.isNone, test.toList ++ body)

def switchStatement : Rule Tree := do
  expectWord .switchKw
  let subject ← condition rules ctx
  expect .leftBrace
  let clauses ← many do
    match ← kind with
    | .mark .rightBrace | .finish => return none
    | _ => return some (← switchClause rules ctx)
  expect .rightBrace
  flawIf ((clauses.filter (·.1)).length > 1)
  return .node .statement (subject :: (clauses.map (·.2)).flatten)

def tryStatement : Rule Tree := do
  expectWord .tryKw
  let body ← block rules ctx
  let handler ← do
    if ← eatWord .catchKw then
      let binding ← do
        if ← eat .leftParen then
          let pattern ← rules.pattern ctx
          let type ← annotation? rules ctx
          expect .rightParen
          pure (pattern :: type)
        else pure []
      pure (some (binding ++ (← block rules ctx)))
    else pure none
  let finalizer ← do
    if ← eatWord .finallyKw then pure (some (← block rules ctx)) else pure none
  if handler.isNone && finalizer.isNone then failure
  return .node .statement (body ++ handler.getD [] ++ finalizer.getD [])

def interfaceRest : Rule Tree := do
  let _ ← bindingName ctx
  let generics ← typeParameters? rules ctx
  let bases ← do
    if ← eatWord .extendsKw then
      let first ← innerType rules ctx
      let others ← many do
        if ← eat .comma then return some (← innerType rules ctx)
        return none
      pure (first :: others)
    else pure []
  let members ← typeMembers rules ctx
  return .node .statement (generics ++ bases ++ members)

def aliasRest : Rule Tree := do
  let _ ← bindingName ctx
  let generics ← typeParameters? rules ctx
  expect .assign
  let type ← innerType rules ctx
  endStatement
  return .node .statement (generics ++ [type])

def enumRest : Rule Tree := do
  let _ ← bindingName ctx
  expect .leftBrace
  let (members, _) ← list .rightBrace do
    let key ← propertyName rules ctx
    let value ← initializer? rules ctx
    return key ++ value
  expect .rightBrace
  return .node .statement members.flatten

def namespaceRest : Rule Tree := do
  match ← kind with
  | .string => advance
  | _ =>
    let _ ← bindingName ctx
    let _ ← many do
      if ← eat .dot then return some (← wordName)
      return none
  if ← atMark .leftBrace then return .node .statement (← block rules ctx)
  endStatement
  return .node .statement []

/-- Whether the word after the current one is a name on the same line. -/
def namesNext : Rule Bool :=
  nextIs fun t => t.kind.isBindable && !t.newline

def typeDeclaration? : Rule (Option Tree) := do
  match ← kind with
  | .keyword .interfaceKw =>
    if ← namesNext then
      advance
      return some (← interfaceRest rules ctx)
    return none
  | .keyword .typeKw =>
    if ← namesNext then
      advance
      return some (← aliasRest rules ctx)
    return none
  | .keyword .namespaceKw =>
    if ← namesNext then
      advance
      return some (← namespaceRest rules ctx)
    return none
  | .keyword .moduleKw =>
    if ← nextIs fun t => !t.newline && (t.kind.isBindable || t.kind == .string) then
      advance
      return some (← namespaceRest rules ctx)
    return none
  | .keyword .enumKw =>
    advance
    return some (← enumRest rules ctx)
  | .keyword .constKw =>
    if ← nextIs fun t => t.kind == .keyword .enumKw then
      advance
      advance
      return some (← enumRest rules ctx)
    return none
  | .keyword .abstractKw =>
    if ← nextIs fun t => !t.newline && t.kind == .keyword .classKw then
      advance
      return some (← classFrom rules ctx [] true)
    return none
  | .keyword .declareKw =>
    let declares ← nextIs fun t => !t.newline && [Kind.keyword .classKw, .keyword .functionKw,
      .keyword .constKw, .keyword .letKw, .keyword .varKw, .keyword .enumKw,
      .keyword .interfaceKw, .keyword .typeKw, .keyword .namespaceKw, .keyword .moduleKw,
      .keyword .abstractKw, .keyword .asyncKw].contains t.kind
    if declares then
      advance
      return some (← rules.statement { ctx with ambient := true } .list)
    return none
  | _ => return none

/-- Reads an expression as a statement, or a label and the statement under it. -/
def plainStatement : Rule Tree := do
  let e ← rules.expression ctx.inBrackets
  match e with
  | .name _ =>
    if ← eat .colon then return ← rules.statement ctx .alone
  | _ => pure ()
  endStatement
  return .node .statement [e]

/-- Reads a statement. A declaration may not stand alone under another statement. -/
def statement (place : Place) : Rule Tree := do
  let alone := place != .list
  match ← kind with
  | .mark .leftBrace => return .node .statement (← block rules ctx)
  | .mark .semicolon => advance; return .node .statement []
  | .keyword .ifKw =>
    advance
    let test ← condition rules ctx
    let yes ← rules.statement ctx .branch
    let no ← do
      if ← eatWord .elseKw then pure [← rules.statement ctx .branch] else pure []
    return .node .statement (test :: yes :: no)
  | .keyword .doKw =>
    advance
    let body ← rules.statement ctx .alone
    expectWord .whileKw
    let test ← condition rules ctx
    let _ ← eat .semicolon
    return .node .statement [body, test]
  | .keyword .whileKw | .keyword .withKw =>
    advance
    let test ← condition rules ctx
    let body ← rules.statement ctx .alone
    return .node .statement [test, body]
  | .keyword .forKw => forLoop rules ctx
  | .keyword .breakKw | .keyword .continueKw =>
    advance
    if !(← canEndStatement) then
      let _ ← bindingName ctx
    endStatement
    return .node .statement []
  | .keyword .switchKw => switchStatement rules ctx
  | .keyword .throwKw =>
    advance
    flawIf (← onNewLine)
    let e ← rules.expression ctx.inBrackets
    endStatement
    return .node .statement [e]
  | .keyword .tryKw => tryStatement rules ctx
  | .keyword .debuggerKw =>
    advance
    endStatement
    return .node .statement []
  | .keyword .returnKw =>
    advance
    flawIf (!ctx.inFunction)
    let value ← do
      if ← canEndStatement then pure [] else pure [← rules.expression ctx.inBrackets]
    endStatement
    return .node .statement value
  | .keyword .classKw =>
    flawIf alone
    classFrom rules ctx [] true
  | .mark .atSign =>
    flawIf alone
    let decorators ← decorators rules ctx
    let _ ← eatWord .abstractKw
    classFrom rules ctx decorators true
  | .keyword .functionKw =>
    flawIf (alone && (← nextIs fun t => t.kind == .mark .star))
    functionFrom rules ctx false true
  | .keyword .varKw => advance; variableStatement rules ctx false
  | .keyword .exportKw => failure
  | k =>
    if let some declaration ← typeDeclaration? rules ctx then return declaration
    if k == .keyword .constKw then
      flawIf alone
      advance
      variableStatement rules ctx true
    else if k == .keyword .letKw && (← letDeclares) then
      flawIf alone
      advance
      variableStatement rules ctx false
    else if k == .keyword .usingKw && (← usingDeclares) then
      flawIf alone
      advance
      variableStatement rules ctx true
    else if k == .keyword .awaitKw && (← ahead do
        advance
        if ← onNewLine then return false
        if ← atWord .usingKw then usingDeclares else return false) then
      flawIf (alone || !ctx.inAsync)
      advance
      advance
      variableStatement rules ctx true
    else if k == .keyword .asyncKw &&
        (← nextIs fun t => t.kind == .keyword .functionKw && !t.newline) then
      flawIf alone
      advance
      functionFrom rules ctx true true
    else if k == .keyword .importKw &&
        !(← nextIs fun t => t.kind == .mark .leftParen || t.kind == .mark .dot) then failure
    else plainStatement rules ctx

end Rule

/-- The rules, each of which may refer back to those given. -/
def Rules.step (rules : Rules) : Rules where
  expression ctx := Rule.expression rules ctx
  assignment ctx returnType := Rule.assignment rules ctx returnType
  binary ctx floor := Rule.binary rules ctx floor
  unary ctx := Rule.unary rules ctx
  leftHand ctx := Rule.leftHand rules ctx
  primary ctx := Rule.primary rules ctx
  type ctx := Rule.type rules ctx
  pattern ctx := Rule.pattern rules ctx
  statement ctx place := Rule.statement rules ctx place

/-- The rules with references unfolded to the given depth. -/
def Rules.upTo : Nat → Rules
  | 0 => .none
  | depth + 1 => (Rules.upTo depth).step

/-- Reads the expression at the start of a text. What follows its last token is not looked at, but
the token itself must be sound. No expression refers back to more rules than eight for each of its
characters, so the depth is no limit. -/
def parse? (text : List Char) : Option Tree := do
  let (tree, cursor) ← (Rules.upTo (8 * text.length + 16)).expression {} (Cursor.ofText text)
  if cursor.flawed || !tree.isComplete then none
  else some tree

end SceneView.Script
