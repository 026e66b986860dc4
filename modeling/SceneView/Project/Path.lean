import SceneView.Text.Blank

/-!
# Paths

A path is kept as it is written. Two paths are the same if they have the same components, whatever
slashes and dots stand between them, and paths are ordered component by component.
-/

namespace SceneView

structure Path where
  text : String
deriving DecidableEq, Repr

inductive Component where
  | root
  | current
  | parent
  | normal (name : String)
deriving DecidableEq, Repr

namespace Component

def rank : Component → Nat
  | root => 0
  | current => 1
  | parent => 2
  | normal _ => 3

def name : Component → String
  | normal name => name
  | _ => ""

def precedes (a b : Component) : Bool :=
  a.rank < b.rank || (a.rank == b.rank && decide (a.name < b.name))

/-- What a piece between slashes stands for, after the first piece. -/
def ofPiece? (piece : String) : Option Component :=
  if piece = "" || piece = "." then none
  else if piece = ".." then some parent
  else some (normal piece)

end Component

namespace Path

def isAbsolute (p : Path) : Bool :=
  p.text.toList.head? == some '/'

def pieces (p : Path) : List String :=
  (Text.splitAt '/' p.text.toList).map String.ofList

def components (p : Path) : List Component :=
  match p.pieces with
  | [] => []
  | first :: rest =>
    let start :=
      if first = "" then if p.isAbsolute then [.root] else []
      else if first = "." then [.current]
      else (Component.ofPiece? first).toList
    start ++ rest.filterMap Component.ofPiece?

def same (p q : Path) : Bool :=
  p.components == q.components

def componentsLe : List Component → List Component → Bool
  | [], _ => true
  | _ :: _, [] => false
  | a :: as, b :: bs => a.precedes b || (a == b && componentsLe as bs)

def le (p q : Path) : Bool :=
  componentsLe p.components q.components

/-- The second path as seen from the first; an absolute path stays as it is. -/
def join (p q : Path) : Path :=
  if q.isAbsolute || p.text = "" then q
  else if p.text.toList.getLast? = some '/' then ⟨p.text ++ q.text⟩
  else ⟨p.text ++ "/" ++ q.text⟩

def child (p : Path) (name : String) : Path :=
  p.join ⟨name⟩

/-- Pieces without the last ones that stand for nothing. -/
def trimPieces (pieces : List String) : List String :=
  (pieces.reverse.dropWhile fun piece => (Component.ofPiece? piece).isNone).reverse

/-- The path without its last component; the root and the empty path have no parent. -/
def parent? (p : Path) : Option Path :=
  match p.pieces with
  | [] => none
  | first :: rest =>
    match trimPieces rest with
    | [] => if first = "" then none else some ⟨""⟩
    | kept =>
      let above := trimPieces kept.dropLast
      if first = "" && above.isEmpty then some ⟨"/"⟩
      else some ⟨"/".intercalate (first :: above)⟩

def ancestorsWithin : (steps : Nat) → Path → List Path
  | 0, p => [p]
  | steps + 1, p =>
    match p.parent? with
    | some above => p :: ancestorsWithin steps above
    | none => [p]

def ancestors (p : Path) : List Path :=
  ancestorsWithin p.pieces.length p

def fileName? (p : Path) : Option String :=
  match p.components.getLast? with
  | some (.normal name) => some name
  | _ => none

/-- The part of a file name after its last dot. A dot that the name starts with does not count. -/
def extensionOf? (name : String) : Option String :=
  let cs := name.toList
  let ending := cs.reverse.takeWhile (· != '.')
  if ending.length + 1 < cs.length then some (String.ofList ending.reverse) else none

def extension? (p : Path) : Option String :=
  p.fileName?.bind extensionOf?

end Path

end SceneView
