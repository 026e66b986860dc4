import SceneView.Script.Lexer
import SceneView.Script.Tree

/-!
# Reading tokens

A rule of the grammar reads from a cursor: the current token and the characters after it. A rule
either fails, and then an enclosing rule may try another reading from the same place, or it answers
with a tree and the cursor behind it. A cursor may also be marked as flawed. A flaw does not change
the reading, but the text as a whole is refused; when a reading is given up, so are its flaws.
-/

namespace SceneView.Script

/-- A place in a text of `total` characters: the token there and the characters that follow it. -/
structure Cursor where
  total : Nat
  token : Token
  rest : List Char
  flawed : Bool

namespace Cursor

def next (c : Cursor) : Cursor :=
  let (cs, newline, closed) := skipGap .plain false c.rest
  let (kind, text, escaped, left) := readToken cs
  { c with
    token := { kind, start := c.total - cs.length, text, newline, escaped }
    rest := left
    flawed := c.flawed || !closed || kind == .malformed }

def ofText (cs : List Char) : Cursor :=
  next { total := cs.length, token := ⟨.finish, 0, "", false, false⟩, rest := cs, flawed := false }

/-- Replaces the current token by another reading of the characters from its start on. -/
def reread (c : Cursor) (kind : Kind) (left : List Char) : Cursor :=
  { c with
    token := { c.token with kind }
    rest := left
    flawed := c.flawed || kind == .malformed }

end Cursor

abbrev Rule := StateT Cursor Option

namespace Kind

def isWord : Kind → Bool
  | .name | .keyword _ => true
  | _ => false

/-- Whether the token is a word that may name something, given the right context. -/
def isBindable : Kind → Bool
  | .name => true
  | .keyword k => !k.isReserved
  | _ => false

/-- Whether the token is a word that names something in every context. -/
def isPlainName : Kind → Bool
  | .name => true
  | .keyword k => k.isName
  | _ => false

/-- Whether the token is a template that has no substitution or the first piece of one. -/
def opensTemplate : Kind → Bool
  | .template .whole _ | .template .head _ => true
  | _ => false

def isLiteral : Kind → Bool
  | .number | .bigint | .string => true
  | .keyword .nullKw | .keyword .trueKw | .keyword .falseKw => true
  | _ => false

def isPropertyName : Kind → Bool
  | .name | .keyword _ | .string | .number | .bigint => true
  | _ => false

def isModifier : Kind → Bool
  | .keyword k => k.isModifier
  | _ => false

end Kind

namespace Rule

def token : Rule Token := do
  return (← get).token

def kind : Rule Kind := do
  return (← get).token.kind

def onNewLine : Rule Bool := do
  return (← get).token.newline

def atMark (m : Mark) : Rule Bool := do
  return (← get).token.kind == .mark m

def atWord (k : Keyword) : Rule Bool := do
  return (← get).token.kind == .keyword k

def flaw : Rule Unit :=
  modify fun c => { c with flawed := true }

def flawIf (condition : Bool) : Rule Unit :=
  if condition then flaw else pure ()

/-- Goes to the next token. A keyword written with an escape is a flaw. -/
def advance : Rule Unit := do
  let t ← token
  match t.kind with
  | .keyword _ => flawIf t.escaped
  | _ => pure ()
  modify Cursor.next

/-- Goes to the next token, taking the current word as a name, escapes and all. -/
def advanceName : Rule Unit :=
  modify Cursor.next

def eat (m : Mark) : Rule Bool := do
  if ← atMark m then
    advance
    return true
  return false

def eatWord (k : Keyword) : Rule Bool := do
  if ← atWord k then
    advance
    return true
  return false

def expect (m : Mark) : Rule Unit := do
  unless ← eat m do failure

def expectWord (k : Keyword) : Rule Unit := do
  unless ← eatWord k do failure

/-- Tries a rule; if it fails, nothing has been read. -/
def attempt {α : Type} (rule : Rule α) : Rule (Option α) := fun c =>
  match rule c with
  | some (a, c') => some (some a, c')
  | none => some (none, c)

/-- Answers from what follows and comes back; the default stands for a failure. -/
def lookahead {α : Type} (default : α) (rule : Rule α) : Rule α := fun c =>
  match rule c with
  | some (answer, _) => some (answer, c)
  | none => some (default, c)

/-- Asks a question about what follows and comes back; a failure is a no. -/
def ahead (rule : Rule Bool) : Rule Bool :=
  lookahead false rule

/-- Asks a question about the token after the current one. -/
def nextIs (test : Token → Bool) : Rule Bool := do
  return test (← get).next.token

/-- A bound on the number of tokens from here on. -/
def bound : Rule Nat := do
  return (← get).rest.length + 2

/-- Repeats a rule that says with `none` where to stop. -/
def repeatUpTo {α : Type} (step : Rule (Option α)) : Nat → Rule (List α)
  | 0 => failure
  | fuel + 1 => do
    match ← step with
    | none => return []
    | some a => return a :: (← repeatUpTo step fuel)

def many {α : Type} (step : Rule (Option α)) : Rule (List α) := do
  repeatUpTo step (← bound)

/-- Applies a step to a value until the step answers `none`. -/
def iterateUpTo {α : Type} (step : α → Rule (Option α)) : Nat → α → Rule α
  | 0, _ => failure
  | fuel + 1, a => do
    match ← step a with
    | none => return a
    | some a' => iterateUpTo step fuel a'

/-- Extends a value step by step until no further step applies. -/
def iterate {α : Type} (step : α → Rule (Option α)) (a : α) : Rule α := do
  iterateUpTo step (← bound) a

/-- The items after the first of a list closed by the given mark. -/
def listRest {α : Type} (close : Mark) (item : Rule α) : Nat → Rule (List α × Bool)
  | 0 => failure
  | fuel + 1 => do
    if ← atMark close then return ([], false)
    expect .comma
    if ← atMark close then return ([], true)
    let a ← item
    let (rest, trailing) ← listRest close item fuel
    return (a :: rest, trailing)

/-- Items separated by commas up to the closing mark, which is not passed. The flag tells whether a
comma stands right before it. -/
def list {α : Type} (close : Mark) (item : Rule α) : Rule (List α × Bool) := do
  if ← atMark close then return ([], false)
  let a ← item
  let (rest, trailing) ← listRest close item (← bound)
  return (a :: rest, trailing)

/-- Whether a statement may end here without a semicolon. -/
def canEndStatement : Rule Bool := do
  let t ← token
  return t.newline || t.kind == .mark .semicolon || t.kind == .mark .rightBrace || t.kind == .finish

/-- Ends a statement: at a semicolon, a closing brace, a line break or the end of the text. -/
def endStatement : Rule Unit := do
  if ← eat .semicolon then return
  unless ← canEndStatement do failure

end Rule

/-- What the surrounding constructs allow. -/
structure Context where
  /-- The operator `in` may be used. -/
  allowsIn : Bool := true
  inGenerator : Bool := false
  /-- In an asynchronous function or at the top of the text. -/
  inAsync : Bool := true
  inFunction : Bool := false
  /-- In a decorator, where a bracket belongs to what is decorated. -/
  inDecorator : Bool := false
  /-- After the `extends` of a conditional type. -/
  noConditional : Bool := false
  /-- In a declaration without implementation. -/
  ambient : Bool := false
deriving Repr

def Context.inBrackets (ctx : Context) : Context :=
  { ctx with allowsIn := true, inDecorator := false }

/-- Where a statement stands: in a list, as the branch of an `if`, or alone under another
statement. -/
inductive Place where
  | list | branch | alone
deriving DecidableEq, Repr

structure Rules where
  expression : Context → Rule Tree
  /-- One expression without a comma; the flag allows a result type on an arrow function. -/
  assignment : Context → Bool → Rule Tree
  binary : Context → Nat → Rule Tree
  unary : Context → Rule Tree
  leftHand : Context → Rule Tree
  primary : Context → Rule Tree
  type : Context → Rule Tree
  pattern : Context → Rule Tree
  statement : Context → Place → Rule Tree

def Rules.none : Rules where
  expression _ := failure
  assignment _ _ := failure
  binary _ _ := failure
  unary _ := failure
  leftHand _ := failure
  primary _ := failure
  type _ := failure
  pattern _ := failure
  statement _ _ := failure

namespace Rule

/-- Reads a word as a name. A name that the context gives another meaning is a flaw. -/
def bindingName (ctx : Context) : Rule String := do
  let t ← token
  unless t.kind.isBindable do failure
  flawIf (ctx.inAsync && t.kind == .keyword .awaitKw)
  flawIf (ctx.inGenerator && t.kind == .keyword .yieldKw)
  advanceName
  return t.text

def wordName : Rule String := do
  let t ← token
  unless t.kind.isWord do failure
  advanceName
  return t.text

def joinGreater : Rule Unit := do
  if ← atMark .greater then
    modify fun c =>
      let (m, left) := readGreater c.rest
      c.reread (.mark m) left

def splitLess : Rule Unit := do
  match ← kind with
  | .mark .shiftLeft => modify fun c => c.reread (.mark .less) ('<' :: c.rest)
  | .mark .shiftLeftAssign => modify fun c => c.reread (.mark .less) ('<' :: '=' :: c.rest)
  | .mark .lessEq => modify fun c => c.reread (.mark .less) ('=' :: c.rest)
  | _ => pure ()

end Rule

end SceneView.Script
