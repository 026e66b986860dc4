import SceneView.Markup.Tag

/-!
# Markup as a sequence of events

A document is read as a sequence of tags, runs of text and sections of literal data. Comments,
instructions and document types are passed over. The reader keeps the names of the open elements and
checks that each closing tag closes the innermost of them.
-/

namespace SceneView.Markup

inductive Event where
  | start (content : List Char)
  | empty (content : List Char)
  | close
  /-- A run of text without the white space at its ends, references and all. -/
  | text (raw : List Char)
  | data (content : List Char)
  | skipped
  | finish
deriving DecidableEq, Repr

/-- The characters left to read, the place reached in bytes, and the names of the open elements,
innermost first. -/
structure Reader where
  rest : List Char
  offset : Nat
  opened : List (List Char)

structure FaultAt where
  fault : MarkupFault
  offset : Nat

inductive Quoting where
  | outside
  | inside (quote : Char)

/-- Splits a tag at its closing mark, which may stand in quotes without closing it. -/
def splitTag : Quoting → List Char → Option (List Char × List Char)
  | _, [] => none
  | .outside, c :: cs =>
    if c = '>' then some ([], cs)
    else
      let quoting := if c = '"' ∨ c = '\x27' then .inside c else .outside
      (splitTag quoting cs).map fun (content, rest) => (c :: content, rest)
  | .inside quote, c :: cs =>
    let quoting := if c = quote then .outside else .inside quote
    (splitTag quoting cs).map fun (content, rest) => (c :: content, rest)

/-- Splits at the first closing mark that the given two characters precede. -/
def splitAfter (mark : Char) : List Char → List Char → Option (List Char × List Char)
  | _, [] => none
  | before, c :: cs =>
    if c = '>' ∧ [mark, mark].isPrefixOf before then some (before.reverse, cs)
    else splitAfter mark (c :: before) cs

/-- Splits a document type at its closing mark; `depth` counts the marks opened inside it. -/
def splitDoctype : Nat → List Char → Option (List Char × List Char)
  | _, [] => none
  | depth, c :: cs =>
    if c = '>' ∧ depth = 0 then some ([], cs)
    else
      let depth := if c = '<' then depth + 1 else if c = '>' then depth - 1 else depth
      (splitDoctype depth cs).map fun (content, rest) => (c :: content, rest)

/-- Splits an instruction, from its question mark on, at the mark that closes it. -/
def splitInstruction : Char → List Char → Option (List Char × List Char)
  | _, [] => none
  | previous, c :: cs =>
    if c = '>' ∧ previous = '?' then some ([], cs)
    else (splitInstruction c cs).map fun (content, rest) => (c :: content, rest)

def trimEnd (cs : List Char) : List Char :=
  (cs.reverse.dropWhile isSpace).reverse

/-- Whether the text begins with the given one, ASCII case aside. -/
def startsWithUncased (text start : List Char) : Bool :=
  (text.take start.length).map Char.toLower == start.map Char.toLower

namespace Reader

/-- The reader at the start of a text. A byte order mark there is dropped and not counted. -/
def ofText (cs : List Char) : Reader :=
  let rest := match cs with
    | c :: rest => if c.toNat = 0xFEFF then rest else cs
    | [] => []
  { rest, offset := 0, opened := [] }

/-- The reader after content of a tag or other markup of which `marks` bytes are its marks. -/
def after (r : Reader) (content rest : List Char) (marks : Nat) : Reader :=
  { r with rest, offset := r.offset + byteCount content + marks }

/-- Reads a comment, a section of literal data or a document type, given what follows the
exclamation mark. -/
def readBang (r : Reader) (cs : List Char) : Except FaultAt (Event × Reader) :=
  match cs with
  | '-' :: _ =>
    -- the two marks that close a comment are not those that open it
    match cs with
    | '-' :: '-' :: body =>
      match splitAfter '-' [] body with
      | some (content, rest) => .ok (.skipped, r.after content rest 5)
      | none => .error ⟨.unclosedComment, r.offset⟩
    | _ => .error ⟨.unclosedComment, r.offset⟩
  | '[' :: _ =>
    if "[CDATA[".toList.isPrefixOf cs then
      match splitAfter ']' [] (cs.drop 7) with
      | some (content, rest) =>
        .ok (.data (content.take (content.length - 2)), r.after content rest 10)
      | none => .error ⟨.unclosedData, r.offset⟩
    else .error ⟨.unclosedData, r.offset⟩
  | c :: _ =>
    if c = 'D' ∨ c = 'd' then
      match splitDoctype 0 cs with
      | some (content, rest) =>
        if startsWithUncased content "doctype".toList then
          if (content.drop 7).all isSpace then
            .error ⟨.namelessDoctype, r.offset + byteCount content + 2⟩
          else .ok (.skipped, r.after content rest 3)
        else .error ⟨.unclosedDoctype, r.offset⟩
      | none => .error ⟨.unclosedDoctype, r.offset⟩
    else .error ⟨.unknownMarkup, r.offset⟩
  | [] => .error ⟨.unknownMarkup, r.offset⟩

/-- Reads a closing tag, given what follows its slash. The name may be followed by white space. -/
def readClose (r : Reader) (cs : List Char) : Except FaultAt (Event × Reader) :=
  match splitTag .outside cs with
  | none => .error ⟨.unclosedTag, r.offset⟩
  | some (content, rest) =>
    let name := if content.all isSpace then content else trimEnd content
    match r.opened with
    | [] => .error ⟨.unmatchedClose (String.ofList name), r.offset⟩
    | expected :: opened =>
      if name = expected then .ok (.close, { r.after content rest 3 with opened })
      else
        .error ⟨.mismatchedClose (String.ofList expected) (String.ofList name), r.offset⟩

def readInstruction (r : Reader) (cs : List Char) : Except FaultAt (Event × Reader) :=
  match cs with
  | '>' :: _ => .error ⟨.unclosedInstruction, r.offset⟩
  | _ =>
    match splitInstruction ' ' cs with
    | some (content, rest) => .ok (.skipped, r.after content rest 3)
    | none => .error ⟨.unclosedInstruction, r.offset⟩

/-- Reads an opening tag; a slash right before its closing mark leaves the element empty. -/
def readStart (r : Reader) (cs : List Char) : Except FaultAt (Event × Reader) :=
  match splitTag .outside cs with
  | none => .error ⟨.unclosedTag, r.offset⟩
  | some (content, rest) =>
    let next := r.after content rest 2
    if content.getLast? = some '/' then .ok (.empty content.dropLast, next)
    else .ok (.start content, { next with opened := tagName content :: r.opened })

/-- Reads the next event. White space before it is passed over. -/
def next (r : Reader) : Except FaultAt (Event × Reader) :=
  let space := r.rest.takeWhile isSpace
  let r := { r with rest := r.rest.drop space.length, offset := r.offset + space.length }
  match r.rest with
  | [] => .ok (.finish, r)
  | '<' :: '!' :: cs => r.readBang cs
  | '<' :: '/' :: cs => r.readClose cs
  | '<' :: '?' :: cs => r.readInstruction cs
  | '<' :: cs => if cs.isEmpty then .error ⟨.unclosedTag, r.offset⟩ else r.readStart cs
  | cs =>
    let content := cs.takeWhile (· ≠ '<')
    .ok (.text (trimEnd content), r.after content (cs.drop content.length) 0)

end Reader

end SceneView.Markup
