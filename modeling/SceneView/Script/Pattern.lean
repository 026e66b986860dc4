import SceneView.Script.Cursor

/-!
# Names, parameters and patterns

Property names, the modifiers of declarations, decorators, the patterns that bind names and the
parameter lists of functions.
-/

namespace SceneView.Script

namespace Rule

variable (rules : Rules) (ctx : Context)

def computedName : Rule Tree := do
  expect .leftBracket
  let key ← rules.assignment { ctx with allowsIn := true } true
  expect .rightBracket
  return key

def propertyName : Rule (List Tree) := do
  match ← kind with
  | .string | .number | .bigint => advance; return []
  | .mark .leftBracket => return [← computedName rules ctx]
  | .privateName => advance; return []
  | _ => let _ ← wordName; return []

/-- Whether the current token may follow a modifier. -/
def followsModifier : Rule Bool := do
  let k ← kind
  return k.isPropertyName || k == .privateName || k == .mark .leftBracket ||
    k == .mark .leftBrace || k == .mark .star || k == .mark .ellipsis

/-- Passes the modifier here if what follows it is modified by it. -/
def modifierAhead : Rule Unit := do
  match ← kind with
  | .keyword .staticKw =>
    advance
    unless ← followsModifier do failure
  | .keyword .getKw | .keyword .setKw =>
    advance
    let k ← kind
    unless k.isPropertyName || k == .privateName || k == .mark .leftBracket do failure
  | .keyword .constKw =>
    advance
    unless ← atWord .enumKw do failure
  | _ =>
    advance
    if ← onNewLine then failure
    unless ← followsModifier do failure

def contextualModifier (k : Keyword) : Rule Bool := do
  if ← atWord k then return (← attempt modifierAhead).isSome
  return false

/-- Passes `get` or `set` before the name of an accessor, and tells whether it was `set`. -/
def accessorModifier? : Rule (Option Bool) := do
  if ← contextualModifier .getKw then return some false
  if ← contextualModifier .setKw then return some true
  return none

/-- Passes one modifier. `blocks` says that `static` before a brace opens a block, `const` that this
word is a modifier too, and `seenStatic` that `static` has been read. -/
def modifier? (blocks constants seenStatic : Bool) : Rule (Option Keyword) := do
  match ← kind with
  | .keyword k =>
    if !k.isModifier then return none
    else if k == .constKw then
      if !constants then return none
      let passed ← attempt do
        advance
        if ← onNewLine then failure
        unless ← followsModifier do failure
      return if passed.isSome then some k else none
    else if k == .staticKw && (seenStatic ||
        (blocks && (← nextIs fun t => t.kind == .mark .leftBrace))) then return none
    else
      let passed ← attempt modifierAhead
      return if passed.isSome then some k else none
  | _ => return none

/-- Passes the modifiers of a declaration, each of which may stand once. -/
def modifiers (blocks constants : Bool) : Rule (List Keyword) := do
  iterate (fun seen => do
    match ← modifier? blocks constants (seen.contains .staticKw) with
    | none => return none
    | some k =>
      flawIf (seen.contains k)
      return some (k :: seen)) []

def decorators : Rule (List Tree) :=
  many do
    if ← eat .atSign then
      return some (← rules.leftHand { ctx with inDecorator := true })
    return none

def annotation? : Rule (List Tree) := do
  if ← eat .colon then return [← rules.type { ctx with noConditional := false }]
  return []

def initializer? : Rule (List Tree) := do
  if ← eat .assign then return [← rules.assignment { ctx with allowsIn := true } true]
  return []

def patternWithDefault : Rule Tree := do
  let pattern ← rules.pattern ctx
  return .node .binding (pattern :: (← initializer? rules ctx))

def restElement : Rule Tree := do
  expect .ellipsis
  let pattern ← rules.pattern ctx
  if ← atMark .question then
    flaw
    advance
  let type ← annotation? rules ctx
  let value ← initializer? rules ctx
  flawIf (!value.isEmpty)
  return .node .spread (pattern :: type ++ value)

/-- The elements of a list in which only the last may be a rest element. -/
def restList (close : Mark) (item : Rule Tree) : Rule (List Tree) := do
  let element : Rule (Tree × Bool) := do
    if ← atMark .ellipsis then return (← restElement rules ctx, true)
    return (← item, false)
  let (items, trailing) ← list close element
  flawIf (items.dropLast.any (·.2))
  flawIf (trailing && !ctx.ambient && (items.getLast?.any (·.2)))
  return items.map (·.1)

def bindingProperty : Rule Tree := do
  let t ← token
  let key ← propertyName rules ctx
  if t.kind.isBindable && !(← atMark .colon) then
    flawIf (ctx.inAsync && t.kind == .keyword .awaitKw)
    flawIf (ctx.inGenerator && t.kind == .keyword .yieldKw)
    return .node .binding (.name t.text :: (← initializer? rules ctx))
  expect .colon
  let value ← patternWithDefault rules ctx
  return .node .binding (key ++ [value])

def pattern : Rule Tree := do
  match ← kind with
  | .mark .leftBrace =>
    advance
    let items ← restList rules ctx .rightBrace (bindingProperty rules ctx)
    expect .rightBrace
    -- the rest of an object has no parts to take it to
    flawIf <| items.any fun
      | .node .spread (.name _ :: _) => false
      | .node .spread _ => true
      | _ => false
    return .node .binding items
  | .mark .leftBracket =>
    advance
    let items ← restList rules ctx .rightBracket do
      if ← atMark .comma then return .node .hole []
      patternWithDefault rules ctx
    expect .rightBracket
    return .node .binding items
  | _ => return .name (← bindingName ctx)

/-- Reads one parameter of a function. Only a constructor's parameter may be made a property by a
modifier. -/
def parameter (constructor : Bool) : Rule Tree := do
  let decorators ← decorators rules ctx
  let modifiers ← modifiers false false
  flawIf (modifiers.any fun k =>
    !(constructor && [.publicKw, .privateKw, .protectedKw, .readonlyKw, .overrideKw].contains k))
  let pattern ← rules.pattern ctx
  let optional ← eat .question
  let type ← annotation? rules ctx
  let value ← initializer? rules ctx
  flawIf (optional && !value.isEmpty)
  let form := if value.isEmpty then .binding else .assign
  return .node form (decorators ++ pattern :: type ++ value)

/-- Reads a parameter list in parentheses. The answer holds the type of `this`, if the list declares
it, and the parameters. -/
def parameters (constructor : Bool) : Rule (Option (List Tree) × List Tree) := do
  expect .leftParen
  let receiver ← do
    if ← atWord .thisKw then
      advance
      let type ← annotation? rules ctx
      unless ← atMark .rightParen do expect .comma
      pure (some type)
    else pure none
  let items ← restList rules ctx .rightParen (parameter rules ctx constructor)
  expect .rightParen
  return (receiver, items)

end Rule

end SceneView.Script
