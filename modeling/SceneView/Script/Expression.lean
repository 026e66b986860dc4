import SceneView.Script.Function

/-!
# Expressions

Expressions from the tightest binding to the loosest: primary expressions, chains of member accesses
and calls, prefix operators, binary operators, and assignments with arrow functions.
-/

namespace SceneView.Script

namespace Rule

variable (rules : Rules) (ctx : Context)

/-- Reads the pieces and substitutions of a template. Only a tagged template may have unsound
escapes. -/
def templateParts (isTagged : Bool) : Rule (List Tree) := do
  match ← kind with
  | .template .whole sound =>
    flawIf (!isTagged && !sound)
    advance
    return []
  | _ =>
    many do
      match ← kind with
      | .template .tail sound =>
        flawIf (!isTagged && !sound)
        advance
        return none
      | .template .head sound | .template .middle sound =>
        flawIf (!isTagged && !sound)
        advance
        let part ← rules.expression ctx.inBrackets
        unless ← atMark .rightBrace do failure
        modify fun c =>
          let (kind, left) := readTemplate false (c.rest.length + 1) true c.rest
          c.reread kind left
        return some part
      | _ => failure

def patternLiteral : Rule Tree := do
  modify fun c =>
    let body := if c.token.kind == .mark .slashAssign then '=' :: c.rest else c.rest
    let (kind, left) := readPattern false false body
    c.reread kind left
  unless (← kind) == .pattern do failure
  advance
  return .node .literal []

/-- Reads an item of a list: an expression, a spread, or nothing before a comma. -/
def arrayItem : Rule Tree := do
  if ← atMark .comma then return .node .hole []
  if ← eat .ellipsis then return .node .spread [← rules.assignment ctx true]
  rules.assignment ctx true

def array : Rule Tree := do
  expect .leftBracket
  let (items, trailing) ← list .rightBracket (arrayItem rules ctx.inBrackets)
  expect .rightBracket
  return .node (.array trailing) items

def parenthesized : Rule Tree := do
  expect .leftParen
  let (items, trailing) ← list .rightParen (rules.assignment ctx.inBrackets true)
  if trailing then failure
  expect .rightParen
  match items with
  | [] => failure
  | [e] => return .node .paren [e]
  | es => return .node .paren [.node .sequence es]

def arguments : Rule (List Tree) := do
  expect .leftParen
  let inside := ctx.inBrackets
  let (items, _) ← list .rightParen do
    if ← eat .ellipsis then return .node .spread [← rules.assignment inside true]
    rules.assignment inside true
  expect .rightParen
  return items

def level? : Kind → Option Nat
  | .mark .coalesce => some 1
  | .mark .pipePipe => some 2
  | .mark .ampAmp => some 3
  | .mark .pipe => some 4
  | .mark .caret => some 5
  | .mark .amp => some 6
  | .mark .equal | .mark .notEqual | .mark .identical | .mark .notIdentical => some 7
  | .mark .less | .mark .greater | .mark .lessEq | .mark .greaterEq => some 8
  | .keyword .instanceofKw | .keyword .inKw | .keyword .asKw | .keyword .satisfiesKw => some 8
  | .mark .shiftLeft | .mark .shiftRight | .mark .shiftRightZero => some 9
  | .mark .plus | .mark .minus => some 10
  | .mark .star | .mark .slash | .mark .percent => some 11
  | .mark .power => some 12
  | _ => none

def startsExpression : Rule Bool := do
  match ← kind with
  | .number | .bigint | .string | .privateName => return true
  | .template .whole _ | .template .head _ => return true
  | .keyword k =>
    if k == .importKw then
      nextIs fun t =>
        t.kind == .mark .leftParen || t.kind == .mark .less || t.kind == .mark .dot
    else
      return k.isName || [.awaitKw, .yieldKw, .thisKw, .superKw, .nullKw, .trueKw, .falseKw,
        .functionKw, .classKw, .newKw, .deleteKw, .typeofKw, .voidKw].contains k
  | .mark m =>
    return [.leftParen, .leftBracket, .leftBrace, .slash, .slashAssign, .plus, .minus, .tilde,
      .bang, .increment, .decrement, .less, .atSign].contains m || (level? (.mark m)).isSome
  | .name => return true
  | _ => return false

/-- Whether the token here may follow type arguments that stand in an expression, so that the less
sign before them was no comparison. -/
def followsTypeArguments : Rule Bool := do
  match ← kind with
  | .mark .leftParen | .template .whole _ | .template .head _ => return true
  | .mark .less | .mark .greater | .mark .plus | .mark .minus => return false
  | k =>
    let isOperator := (level? k).isSome && (k != .keyword .inKw || ctx.allowsIn)
    return (← onNewLine) || isOperator || !(← startsExpression)

def callTypeArguments : Rule (List Tree) := do
  splitLess
  expect .less
  let (items, _) ← list .greater (innerType rules ctx)
  if items.isEmpty then failure
  -- a greater sign joined to an equals sign compares
  match (← get).rest with
  | '=' :: _ => failure
  | _ => pure ()
  expect .greater
  unless ← followsTypeArguments ctx do failure
  return items

def isInstantiation : Tree → Bool
  | .node .instantiation _ => true
  | _ => false

/-- A chain of member accesses and whether one of them is optional. -/
structure Chain where
  tree : Tree
  optional : Bool

def memberName (object : Tree) : Rule Tree := do
  flawIf (isInstantiation object)
  if (← kind) == .privateName then
    advance
    return .node .privateMember [object]
  return .member object (← wordName)

def memberIndex (object : Tree) : Rule Tree := do
  expect .leftBracket
  let key ← rules.expression ctx.inBrackets
  expect .rightBracket
  return .node .index [object, key]

/-- Reads one member access, tagged template, assertion or list of type arguments. -/
def memberStep (allowsOptional : Bool) (chain : Chain) : Rule (Option Chain) := do
  match ← kind with
  | .mark .dot =>
    advance
    return some { chain with tree := ← memberName chain.tree }
  | .mark .questionDot =>
    if !allowsOptional then failure
    let follows := (← get).next.token.kind
    if follows == .mark .leftBracket && !ctx.inDecorator then
      advance
      return some ⟨← memberIndex rules ctx chain.tree, true⟩
    else if follows == .privateName || follows.isWord then
      advance
      return some ⟨← memberName chain.tree, true⟩
    else return none
  | .mark .leftBracket =>
    if ctx.inDecorator then return none
    return some { chain with tree := ← memberIndex rules ctx chain.tree }
  | .mark .bang =>
    if ← onNewLine then return none
    advance
    return some { chain with tree := .node .nonNull [chain.tree] }
  | .template .whole _ | .template .head _ =>
    flawIf chain.optional
    let parts ← templateParts rules ctx true
    return some { chain with tree := .node .tagged (chain.tree :: parts) }
  | .mark .less | .mark .shiftLeft =>
    match ← attempt (callTypeArguments rules ctx) with
    | some types =>
      return some { chain with tree := .node .instantiation (chain.tree :: types) }
    | none => return none
  | _ => return none

def memberRest (allowsOptional : Bool) (chain : Chain) : Rule Chain :=
  iterate (memberStep rules ctx allowsOptional) chain

def callStep (chain : Chain) : Rule (Option Chain) := do
  if ← eat .questionDot then
    let types ← do
      match ← kind with
      | .mark .less | .mark .shiftLeft =>
        pure ((← attempt (callTypeArguments rules ctx)).getD [])
      | _ => pure []
    if (← kind).opensTemplate then
      flaw
      let parts ← templateParts rules ctx true
      return some (← memberRest rules ctx true
        ⟨.node .tagged (chain.tree :: types ++ parts), true⟩)
    let arguments ← arguments rules ctx
    return some (← memberRest rules ctx true
      ⟨.node .call (chain.tree :: types ++ arguments), true⟩)
  if ← atMark .leftParen then
    let arguments ← arguments rules ctx
    return some (← memberRest rules ctx true
      { chain with tree := .node .call (chain.tree :: arguments) })
  return none

def callRest (tree : Tree) : Rule Tree := do
  let chain ← memberRest rules ctx true ⟨tree, false⟩
  let chain ← iterate (callStep rules ctx) chain
  return if chain.optional then .node .optionalChain [chain.tree] else chain.tree

def construction : Rule Tree := do
  expectWord .newKw
  if ← eat .dot then
    expectWord .targetKw
    return .node .literal []
  let start ← rules.primary ctx
  let callee ← memberRest rules ctx false ⟨start, false⟩
  if ← atMark .questionDot then failure
  flawIf <| match callee.tree with
    | .node .importCall _ => true
    | _ => false
  let arguments ← do
    if ← atMark .leftParen then arguments rules ctx else pure []
  return .node .new (callee.tree :: arguments)

def importExpression : Rule Tree := do
  expectWord .importKw
  if ← eat .dot then
    if ← eatWord .metaKw then return .node .literal []
    unless (← atWord .sourceKw) || (← atWord .deferKw) do failure
    advance
    unless ← atMark .leftParen do failure
  let arguments ← arguments rules ctx
  match arguments with
  | [.node .spread _] => failure
  | [_] => return .node .importCall arguments
  | [_, .node .spread _] => failure
  | [_, _] => return .node .importCall arguments
  | _ => failure

def primary : Rule Tree := do
  let t ← token
  match t.kind with
  | .name => advanceName; return .name t.text
  | .number | .bigint | .string => advance; return .node .literal []
  | .keyword .nullKw | .keyword .trueKw | .keyword .falseKw =>
    advance
    return .node .literal []
  | .template .whole _ | .template .head _ =>
    return .node .template (← templateParts rules ctx false)
  | .mark .slash | .mark .slashAssign => patternLiteral
  | .mark .leftBracket => array rules ctx
  | .mark .leftBrace => object rules ctx
  | .mark .leftParen => parenthesized rules ctx
  | .keyword .thisKw => advance; return .this t.start
  | .keyword .superKw =>
    advance
    flawIf <| match ← kind with
      | .mark .dot | .mark .leftParen | .mark .leftBracket => false
      | _ => true
    return .node .superRef []
  | .keyword .classKw => classFrom rules ctx [] false
  | .mark .atSign =>
    let decorators ← decorators rules ctx
    classFrom rules ctx decorators false
  | .keyword .newKw => construction rules ctx
  | .keyword .importKw => importExpression rules ctx
  | .keyword .functionKw => functionFrom rules ctx false false
  | _ =>
    if t.kind == .keyword .asyncKw &&
        (← nextIs fun t => t.kind == .keyword .functionKw && !t.newline) then
      advance
      functionFrom rules ctx true false
    else return .name (← bindingName ctx)

def leftHand : Rule Tree := do
  callRest rules ctx (← rules.primary ctx)

def update : Rule Tree := do
  match ← kind with
  | .mark .increment | .mark .decrement =>
    advance
    let operand ← rules.unary ctx
    unless operand.isSimpleTarget do failure
    return .node .update [operand]
  | _ =>
    let operand ← rules.leftHand ctx
    match ← kind with
    | .mark .increment | .mark .decrement =>
      if ← onNewLine then return operand
      unless operand.isSimpleTarget do failure
      advance
      return .node .update [operand]
    | _ => return operand

/-- Whether the word here is followed on its line by another word or a literal, so that it must be
meant as an operator. -/
def wordOperand : Rule Bool :=
  nextIs fun t => !t.newline && (t.kind.isWord || t.kind == .number || t.kind == .bigint ||
    t.kind == .string)

def unary : Rule Tree := do
  match ← kind with
  | .mark .plus | .mark .minus | .mark .tilde | .mark .bang
  | .keyword .deleteKw | .keyword .typeofKw | .keyword .voidKw =>
    advance
    return .node .unary [← rules.unary ctx]
  | .mark .less =>
    advance
    let type ← innerType rules ctx
    expect .greater
    let operand ← rules.unary ctx
    return .node .assertion [operand, type]
  | .keyword .awaitKw =>
    if ctx.inAsync || (← wordOperand) then
      flawIf (!ctx.inAsync)
      advance
      return .node .unary [← rules.unary { ctx with inAsync := true }]
    else update rules ctx
  | _ => update rules ctx

def isLogical : Tree → Bool
  | .node .logical _ => true
  | _ => false

/-- Whether a power of the tree would be read wrongly: a prefix operator binds looser than power. -/
def isPrefixed : Tree → Bool
  | .node .unary _ | .node .assertion _ => true
  | _ => false

/-- Reads one operator that binds tighter than `floor`, and its right side. -/
def binaryStep (floor : Nat) (left : Tree) : Rule (Option Tree) := do
  joinGreater
  let k ← kind
  match level? k with
  | none => return none
  | some level =>
    -- power groups to the right
    if level < floor || (level == floor && k != .mark .power) then return none
    if k == .keyword .inKw && !ctx.allowsIn then return none
    if k == .keyword .asKw || k == .keyword .satisfiesKw then
      if ← onNewLine then return none
      advance
      let type ← innerType rules ctx
      return some (.node .cast [left, type])
    advance
    let right ← rules.binary ctx level
    match k with
    | .mark .coalesce =>
      flawIf (isLogical left || isLogical right)
      return some (.node .coalesce [left, right])
    | .mark .pipePipe | .mark .ampAmp => return some (.node .logical [left, right])
    | .mark .power =>
      flawIf (isPrefixed left)
      return some (.node .binary [left, right])
    | _ => return some (.node .binary [left, right])

/-- Reads an expression of operators that bind tighter than `floor`. A private name may stand left
of `in`. -/
def binary (floor : Nat) : Rule Tree := do
  let first ← do
    if ctx.allowsIn && (← kind) == .privateName then
      advance
      expectWord .inKw
      let object ← rules.binary ctx 8
      match object with
      | .node .privateIn _ => failure
      | _ => pure (.node .privateIn [object])
    else rules.unary ctx
  iterate (binaryStep rules ctx floor) first

inductive Guess where
  | yes | no | maybe
deriving DecidableEq

/-- Guesses from the first tokens whether the parenthesis here opens the parameters of an arrow
function. -/
def arrowGuess : Rule Guess := lookahead .no do
  if ← atWord .asyncKw then
    advance
    if ← onNewLine then return .no
  match ← kind with
  | .mark .leftParen =>
    advance
    let second ← kind
    match second with
    | .mark .rightParen =>
      advance
      match ← kind with
      | .mark .arrow | .mark .leftBrace => return .yes
      | .mark .colon => return .maybe
      | _ => return .no
    | .mark .leftBracket | .mark .leftBrace => return .maybe
    | .mark .ellipsis =>
      advance
      match ← kind with
      | .name => return .yes
      | k => return if k.isLiteral then .no else .maybe
    | _ =>
      advance
      let third ← kind
      if second.isModifier && second != .keyword .asyncKw && third.isBindable then
        return if third == .keyword .asKw then .no else .yes
      if !second.isBindable && second != .keyword .thisKw then return .no
      match third with
      | .mark .colon => return .yes
      | .mark .question =>
        advance
        match ← kind with
        | .mark .colon | .mark .comma | .mark .assign | .mark .rightParen => return .yes
        | _ => return .no
      | .mark .comma | .mark .assign | .mark .rightParen => return .maybe
      | _ => return .no
  | .mark .less =>
    advance
    let k ← kind
    return if k.isBindable || k == .keyword .constKw then .maybe else .no
  | _ => return .no

/-- What stands before the body of an arrow function. -/
structure ArrowHead where
  async : Bool
  parts : List Tree
  hasResult : Bool

def passArrow : Rule Unit := do
  let t ← token
  flawIf (t.kind == .mark .arrow && t.newline)
  expect .arrow

def arrowHead : Rule ArrowHead := do
  let async ← eatWord .asyncKw
  let inside := { ctx with inAsync := ctx.inAsync || async }
  let generics ← typeParameters? rules inside
  let (receiver, parameters) ← parameters rules inside false
  flawIf receiver.isSome
  let result ← resultType? rules inside
  passArrow
  return { async, parts := generics ++ parameters ++ result, hasResult := !result.isEmpty }

def arrowBody (head : ArrowHead) (returnType : Bool) : Rule Tree := do
  let inside := { ctx with inAsync := head.async, inGenerator := false }
  if ← atMark .leftBrace then
    return .node .arrow (head.parts ++ (← functionBody rules inside))
  return .node .arrow (head.parts ++ [← rules.assignment inside returnType])

/-- Reads an arrow function with parameters in parentheses, if one begins here. In the middle of a
conditional expression a colon closes the part before it, unless another colon follows. -/
def parenthesizedArrow? (returnType : Bool) : Rule (Option Tree) := do
  match ← arrowGuess with
  | .no => return none
  | .yes =>
    let head ← arrowHead rules ctx
    return some (← arrowBody rules ctx head true)
  | .maybe =>
    let start ← get
    match ← attempt (arrowHead rules ctx) with
    | none => return none
    | some head =>
      let arrow ← arrowBody rules ctx head returnType
      if head.hasResult && !returnType && !(← atMark .colon) then
        set start
        return none
      return some arrow

def asyncArrow? (returnType : Bool) : Rule (Option Tree) := do
  let begins ← ahead do
    unless ← eatWord .asyncKw do return false
    if ← onNewLine then return false
    unless (← kind).isBindable do return false
    advanceName
    atMark .arrow
  if !begins then return none
  advance
  let name ← bindingName ctx
  passArrow
  return some (← arrowBody rules ctx ⟨true, [.name name], false⟩ returnType)

def startsYield : Rule Bool := do
  if ← atWord .yieldKw then
    if ctx.inGenerator then return true
    wordOperand
  else return false

def yieldExpression : Rule Tree := do
  advance
  flawIf (!ctx.inGenerator)
  if ← onNewLine then return .node .yield []
  let delegates ← eat .star
  let ends := match ← kind with
    | .finish | .mark .semicolon | .mark .rightBrace | .mark .rightParen | .mark .rightBracket
    | .mark .colon | .mark .comma | .keyword .inKw => true
    | _ => false
  if ends && !delegates then return .node .yield []
  return .node .yield [← rules.assignment { ctx with inGenerator := true } true]

/-- Reads one expression without a comma. `returnType` allows an arrow function to state the type of
its result where a colon could mean something else. -/
def assignment (returnType : Bool) : Rule Tree := do
  if ← startsYield ctx then return ← yieldExpression rules ctx
  if let some arrow ← parenthesizedArrow? rules ctx returnType then return arrow
  if let some arrow ← asyncArrow? rules ctx returnType then return arrow
  let left ← rules.binary ctx 0
  match left, (← kind) with
  | .name text, .mark .arrow =>
    passArrow
    arrowBody rules ctx ⟨false, [.name text], false⟩ returnType
  | _, .mark m =>
    if m == .assign then
      let some target := left.target? | failure
      advance
      return .node .assign [target, ← rules.assignment ctx returnType]
    else if m.isAssignment then
      unless left.isSimpleTarget do failure
      advance
      return .node .compoundAssign [left, ← rules.assignment ctx returnType]
    else if m == .question then
      advance
      let yes ← rules.assignment { ctx with allowsIn := true } false
      expect .colon
      let no ← rules.assignment ctx returnType
      return .node .conditional [left, yes, no]
    else return left
  | _, _ => return left

def expression : Rule Tree := do
  let inside := { ctx with inDecorator := false }
  let first ← rules.assignment inside true
  let others ← many do
    if ← eat .comma then return some (← rules.assignment inside true)
    return none
  return if others.isEmpty then first else .node .sequence (first :: others)

end Rule

end SceneView.Script
