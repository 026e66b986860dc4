import SceneView.Compile.View
import SceneView.Digest.Sha256
import SceneView.Json.Reader
import SceneView.Options.Record
import SceneView.Project.FileTree

/-!
# Stored results

The result for a document is stored in a file named after its path, with a digest of everything that
it depends on. A stored result is used only if the digest is that of the document at hand.
-/

namespace SceneView

namespace CompiledView

def ofJson? (j : Json) : Option CompiledView := do
  match ← j.fields? ["className", "code"] with
  | [className, code] =>
    return { className := ← Json.required Json.text? className, code := ← Json.required Json.text? code }
  | _ => none

def toJson (v : CompiledView) : Json :=
  .ofMembers [("className", .ofString v.className), ("code", .ofString v.code)]

end CompiledView

structure CacheEntry where
  hash : String
  view : CompiledView
deriving DecidableEq, Repr

namespace CacheEntry

def ofJson? (j : Json) : Option CacheEntry := do
  match ← j.fields? ["hash", "view"] with
  | [hash, view] =>
    return { hash := ← Json.required Json.text? hash, view := ← Json.required CompiledView.ofJson? view }
  | _ => none

def parse? (text : String) : Option CacheEntry :=
  (Json.read? text).bind ofJson?

def text (e : CacheEntry) : String :=
  (Json.ofMembers [("hash", .ofString e.hash), ("view", e.view.toJson)]).compact

end CacheEntry

structure Cache where
  directory : Path
deriving DecidableEq, Repr

namespace Cache

/-- Everything that a result depends on: the document and, after a zero byte, the options. -/
def key (options : CompileOptions) (source : String) : List UInt8 :=
  source.toUTF8.toList ++ 0 :: options.toJson.compact.toUTF8.toList

def digest (options : CompileOptions) (source : String) : String :=
  Digest.hex (Digest.sha256 (key options source))

def entryName (file : Path) : String :=
  String.ofList
    (file.text.toList.map fun c => if c == '/' || c == '\\' || c == ':' then '_' else c) ++ ".json"

def entryPath (c : Cache) (file : Path) : Path :=
  c.directory.child (entryName file)

variable {m : Type → Type} [Monad m] [FileAccess m]

/-- Makes the directory of a cache if need be. A cache that cannot be kept is no fault. -/
def openAt (directory : Path) : m Cache := do
  let _ ← FileAccess.createDirectories directory
  return { directory }

/-- The stored result for a document, if it is that of the source and the options at hand. An entry
that cannot be read is removed. -/
def get? (c : Cache) (file : Path) (options : CompileOptions) (source : String) :
    m (Option CompiledView) := do
  match ← FileAccess.read (c.entryPath file) with
  | .error _ => return none
  | .ok text =>
    match CacheEntry.parse? text with
    | none =>
      FileAccess.remove (c.entryPath file)
      return none
    | some entry =>
      return if entry.hash == digest options source then some entry.view else none

def store (c : Cache) (file : Path) (options : CompileOptions) (source : String)
    (view : CompiledView) : m Unit := do
  let _ ← FileAccess.write (c.entryPath file) { hash := digest options source, view : CacheEntry }.text

end Cache

end SceneView
