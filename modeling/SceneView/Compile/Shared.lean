import SceneView.Fault

/-!
# Shared objects

Materials and textures of their own sections are shared by the objects that refer to them. All are
registered before the first section is read. An object is built where it is declared, unless a
reference comes first: then it is built by a method of its own, which every reference calls. The
change from the first state to the second is never taken back.
-/

namespace SceneView

inductive SharedKind where
  | material | texture
deriving DecidableEq, Repr

namespace SharedKind

def referenceKind : SharedKind → ReferenceKind
  | material => .material
  | texture => .texture

def returnType : SharedKind → String
  | material => "Material"
  | texture => "BaseTexture"

/-- Materials come before textures. -/
def rank : SharedKind → Nat
  | material => 0
  | texture => 1

end SharedKind

/-- Where a shared object is built: in a method that runs anyway, or in one of its own. -/
inductive BuildSite where
  | direct (method : String)
  | ensured (method : String)
deriving DecidableEq, Repr

namespace BuildSite

def method : BuildSite → String
  | direct m | ensured m => m

def isEnsured : BuildSite → Bool
  | direct _ => false
  | ensured _ => true

/-- Moves the object to a method of its own, unless it has one. -/
def promote (ensure : String) : BuildSite → BuildSite
  | direct _ => ensured ensure
  | ensured m => ensured m

end BuildSite

def ensureMethod (name : String) : String :=
  "_ensure_" ++ name

structure SharedEntry where
  kind : SharedKind
  name : String
  site : BuildSite
  declared : Bool
deriving DecidableEq, Repr

namespace SharedEntry

def isAt (e : SharedEntry) (kind : SharedKind) (name : String) : Bool :=
  e.kind == kind && e.name == name

/-- Whether the first entry comes before the second: by kind, then by name. -/
def precedes (a b : SharedEntry) : Bool :=
  a.kind.rank < b.kind.rank || (a.kind == b.kind && decide (a.name < b.name))

end SharedEntry

/-- How a reference reaches a shared object. -/
inductive Access where
  /-- The object is built already. -/
  | member
  /-- A method is called, which this reference brings into being if `created`. -/
  | ensure (method : String) (created : Bool)
deriving DecidableEq, Repr

/-- The registered objects in rising order of kind and name. -/
structure SharedTable where
  entries : List SharedEntry := []
deriving DecidableEq, Repr

namespace SharedTable

def find? (t : SharedTable) (kind : SharedKind) (name : String) : Option SharedEntry :=
  t.entries.find? (·.isAt kind name)

def insertEntry (e : SharedEntry) : List SharedEntry → List SharedEntry
  | [] => [e]
  | other :: rest => if e.precedes other then e :: other :: rest else other :: insertEntry e rest

def update (t : SharedTable) (e : SharedEntry) : SharedTable :=
  { entries := t.entries.map fun other => if other.isAt e.kind e.name then e else other }

def register (t : SharedTable) (kind : SharedKind) (name method : String) :
    Except Fault SharedTable :=
  match t.find? kind name with
  | some _ => .error (.conflict (.sharedObject kind.referenceKind name) 0)
  | none =>
    .ok { entries := insertEntry { kind, name, site := .direct method, declared := false } t.entries }

/-- Resolves a reference. The first reference to an object that is not built yet moves it to a method
of its own. -/
def access (t : SharedTable) (kind : SharedKind) (name : String) :
    Except Fault (Access × SharedTable) :=
  match t.find? kind name with
  | none => .error (.reference kind.referenceKind name 0)
  | some e =>
    match e.site with
    | .ensured method => .ok (.ensure method false, t)
    | .direct _ =>
      if e.declared then .ok (.member, t)
      else
        let method := ensureMethod name
        .ok (.ensure method true, t.update { e with site := e.site.promote method })

/-- Notes that an object is declared here and tells where it is built. -/
def declare (t : SharedTable) (kind : SharedKind) (name : String) :
    Except Fault (BuildSite × SharedTable) :=
  match t.find? kind name with
  | none => .error (.reference kind.referenceKind name 0)
  | some e =>
    if e.declared then .error (.conflict (.sharedObject kind.referenceKind name) 0)
    else .ok (e.site, t.update { e with declared := true })

def undeclared (t : SharedTable) : List (SharedKind × String) :=
  (t.entries.filter (!·.declared)).map fun e => (e.kind, e.name)

end SharedTable

end SceneView
