import SceneView.Script.Statement

/-!
# Expressions about the host

A bound expression is written against the host of a view: its `this` is the host object. The
generated class reaches the host through a member, so every `this` of the expression that is not the
receiver of an inner function is spliced over by an access to that member. An expression that is
nothing but a property chain from the host can be observed, and its path is kept.
-/

namespace SceneView.Script

/-- A stretch of a text: the offset of its first character and the one after its last. -/
structure Span where
  start : Nat
  stop : Nat
deriving DecidableEq, Repr

namespace Span

def replace (span : Span) (replacement text : List Char) : List Char :=
  text.take span.start ++ replacement ++ text.drop span.stop

/-- Inserts a span before the first one that does not start after it. -/
def insertByStart (span : Span) : List Span → List Span
  | [] => [span]
  | other :: rest =>
    if other.start ≤ span.start then span :: other :: rest
    else other :: insertByStart span rest

def fromLast (spans : List Span) : List Span :=
  spans.foldr insertByStart []

/-- Puts the same text in place of every span. Going from the last span to the first, each
replacement leaves the offsets before it as they were. -/
def spliceAll (spans : List Span) (replacement text : List Char) : List Char :=
  (fromLast spans).foldl (fun text span => span.replace replacement text) text

end Span

structure HostExpression where
  /-- The text with `this` redirected to the host member. -/
  code : String
  /-- The path to the observed property, when the expression is a plain property chain. -/
  path : Option String
deriving DecidableEq, Repr

def hostAccess (host : String) : String :=
  "this." ++ host

/-- The stretches of the text that are root references of the tree. -/
def Tree.rootSpans (tree : Tree) : List Span :=
  tree.roots.map fun start => ⟨start, start + 4⟩

def pathText (host : String) (names : List String) : String :=
  names.foldl (fun path name => path ++ "." ++ name) (hostAccess host)

/-- Redirects an expression to the host; `none` when the text begins with no expression. -/
def redirect? (host text : String) : Option HostExpression := do
  let tree ← parse? text.toList
  return {
    code := String.ofList
      (Span.spliceAll tree.rootSpans (hostAccess host).toList text.toList)
    path := tree.path?.map (pathText host) }

end SceneView.Script
