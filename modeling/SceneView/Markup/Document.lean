import SceneView.Markup.Event
import SceneView.Text.Lines

/-!
# Reading a document

The events of a document are put together into its tree of elements. Each element keeps the line on
which its tag starts, and its text is the text and literal data directly inside it.
-/

namespace SceneView.Markup

/-- The open elements, innermost first, and the root once it is closed. -/
structure Builder where
  stack : List Element
  root : Option Element

namespace Builder

def start : Builder :=
  { stack := [], root := none }

def attach (b : Builder) (e : Element) : Except MarkupFault Builder :=
  match b.stack with
  | parent :: outer => .ok { b with stack := parent.withChild e :: outer }
  | [] => if b.root.isNone then .ok { b with root := some e } else .error .severalRoots

def addText? (b : Builder) (text : List Char) : Option Builder :=
  match b.stack with
  | current :: outer =>
    some { b with stack := { current with text := current.text ++ String.ofList text } :: outer }
  | [] => none

/-- Takes in one event that starts on the given line. Literal data outside the root is dropped. -/
def step (b : Builder) (line : Nat) : Event → Except MarkupFault Builder
  | .start content => do
    let e ← readTag line content
    return { b with stack := e :: b.stack }
  | .empty content => do b.attach (← readTag line content)
  | .close =>
    match b.stack with
    | e :: outer => attach { b with stack := outer } e
    | [] => .error .strayClose
  | .text raw => do
    let text ← (unescape raw).mapError .entityFault
    match b.addText? text with
    | some b => return b
    | none => throw .strayText
  | .data content => .ok ((b.addText? content).getD b)
  | .skipped | .finish => .ok b

def finish (b : Builder) : Except MarkupFault Document :=
  match b.stack, b.root with
  | e :: _, _ => .error (.neverClosed e.tag)
  | [], some root => .ok { root }
  | [], none => .error .noRoot

end Builder

/-- The place of the first opening mark at or after an offset in bytes. An offset inside a character,
or with no mark after it, is left as it is. -/
def markFrom (source : List UInt8) (offset : Nat) : Nat :=
  if source.length < offset then offset
  else
    let rest := source.drop offset
    if rest.head?.any (fun b => 0x80 ≤ b && b < 0xC0) then offset
    else offset + (rest.idxOf? 0x3C).getD 0

/-- Reads events until the text or the fuel ends. A fault comes with its line. -/
def readEvents (source : List UInt8) :
    Nat → Text.LineCounter → Reader → Builder → Except (MarkupFault × Nat) Document
  | 0, _, _, _ => .error (.noRoot, 0)
  | fuel + 1, lines, reader, builder =>
    let place := markFrom source reader.offset
    match reader.next with
    | .error found => .error (found.fault, (lines.lineAt found.offset).1)
    | .ok (event, reader) =>
      let (line, lines) := lines.lineAt place
      if event = .finish then
        builder.finish.mapError fun fault => (fault, (lines.lineAt source.length).1)
      else
        match builder.step line event with
        | .error fault => .error (fault, line)
        | .ok builder => readEvents source fuel lines reader builder

/-- Reads a document. Every event but the last takes at least one character, so the fuel is no
limit. -/
def readDocument (source : String) : Except (MarkupFault × Nat) Document :=
  let bytes := source.toUTF8.toList
  let cs := source.toList
  readEvents bytes (cs.length + 2) (.ofBytes bytes) (.ofText cs) .start

end SceneView.Markup
