import SceneView.Element
import SceneView.Markup.Entity

/-!
# Tags

What stands between the opening and the closing mark of a tag: a name up to the first white space,
then attributes. Names are kept without their namespace prefix, and declarations of namespaces are
no attributes of an element.
-/

namespace SceneView.Markup

def isSpace (c : Char) : Bool :=
  c == ' ' || c == '\t' || c == '\r' || c == '\n'

def localName (name : List Char) : List Char :=
  match name.dropWhile (· ≠ ':') with
  | _ :: rest => rest
  | [] => name

/-- Whether an attribute name declares a namespace. -/
def declaresNamespace (name : List Char) : Bool :=
  name == "xmlns".toList || "xmlns:".toList.isPrefixOf name

def tagName (content : List Char) : List Char :=
  content.takeWhile (!isSpace ·)

/-- An attribute as written: its name with the place where that starts, and its value with
references. -/
structure RawAttribute where
  key : List Char
  position : Nat
  value : List Char

/-- Characters of a tag that are left to read, with the place of the first of them. -/
structure Remainder where
  offset : Nat
  chars : List Char

namespace Remainder

def skip (r : Remainder) (count : Nat) : Remainder :=
  ⟨r.offset + count, r.chars.drop count⟩

def skipSpace (r : Remainder) : Remainder :=
  r.skip (r.chars.takeWhile isSpace).length

end Remainder

/-- Reads the key of the next attribute and the equals sign after it; `none` at the end of the tag.
`size` is the place of the end. -/
def readKey (size : Nat) (r : Remainder) :
    Except AttributeFault (Option (List Char × Nat × Remainder)) := do
  let r := r.skipSpace
  match r.chars with
  | [] => return none
  | c :: cs =>
    let key := c :: cs.takeWhile fun c => c != '=' && !isSpace c
    let after : Remainder :=
      Remainder.skipSpace ⟨r.offset + byteCount key, cs.dropWhile fun c => c != '=' && !isSpace c⟩
    match after.chars with
    | '=' :: _ => return some (key, r.offset, after.skip 1)
    | _ :: _ => throw (.noEquals after.offset)
    | [] => throw (.noEquals size)

def readValue (size : Nat) (r : Remainder) : Except AttributeFault (List Char × Remainder) := do
  let r := r.skipSpace
  match r.chars with
  | [] => throw (.noValue size)
  | quote :: cs =>
    if quote != '"' && quote != '\x27' then throw (.unquoted r.offset)
    let value := cs.takeWhile (· ≠ quote)
    match cs.dropWhile (· ≠ quote) with
    | _ :: rest => return (value, ⟨r.offset + 2 + byteCount value, rest⟩)
    | [] => throw (.unclosed size quote)

/-- The attribute that a written one stands for, unless it declares a namespace. -/
def RawAttribute.read? (raw : RawAttribute) : Except EntityFault (Option Attribute) := do
  if declaresNamespace raw.key then return none
  let value ← unescape raw.value
  return some { name := String.ofList (localName raw.key), value := String.ofList value }

/-- Reads the attributes of a tag in order. No key may stand twice, prefix included; `seen` holds
those already read. -/
def readAttributes (size : Nat) :
    Nat → List (List Char × Nat) → Remainder → Except MarkupFault (List Attribute)
  | 0, _, _ => .ok []
  | fuel + 1, seen, r => do
    match ← (readKey size r).mapError .attributeFault with
    | none => return []
    | some (key, position, r) =>
      match seen.lookup key with
      | some previous => throw (.attributeFault (.duplicate position previous))
      | none =>
        let (value, r) ← (readValue size r).mapError .attributeFault
        let first ← (RawAttribute.read? ⟨key, position, value⟩).mapError .entityFault
        let rest ← readAttributes size fuel ((key, position) :: seen) r
        return first.toList ++ rest

def readTag (line : Nat) (content : List Char) : Except MarkupFault Element := do
  let name := tagName content
  let start : Remainder := ⟨byteCount name, content.drop name.length⟩
  let attributes ← readAttributes (byteCount content) (content.length + 1) [] start
  return { tag := String.ofList (localName name), attributes, line }

end SceneView.Markup
