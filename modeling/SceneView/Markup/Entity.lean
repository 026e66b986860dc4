import SceneView.Markup.Fault

/-!
# References in text

In text and attribute values `&lt;`, `&gt;`, `&amp;`, `&apos;` and `&quot;` stand for the five marks
of the markup, and `&#N;` or `&#xN;` for the character with that code.
-/

namespace SceneView.Markup

def byteCount (cs : List Char) : Nat :=
  cs.foldl (fun n c => n + c.utf8Size) 0

def digitValue? (base : Nat) (c : Char) : Option Nat :=
  let value :=
    if c.isDigit then some (c.toNat - 48)
    else if 'a' ≤ c ∧ c ≤ 'f' then some (c.toNat - 87)
    else if 'A' ≤ c ∧ c ≤ 'F' then some (c.toNat - 55)
    else none
  value.filter (· < base)

/-- Reads the digits of a number below 2^32, continuing from a given value. -/
def readDigits (base : Nat) : Nat → List Char → Except ReferenceFault Nat
  | value, [] => .ok value
  | value, c :: cs =>
    match digitValue? base c with
    | none => .error .digit
    | some digit =>
      let value := base * value + digit
      if value < 2 ^ 32 then readDigits base value cs else .error .tooLarge

def readNumber (base : Nat) : List Char → Except ReferenceFault Nat
  | [] => .error .empty
  | c :: cs => if c = '+' ∨ c = '-' then .error .sign else readDigits base 0 (c :: cs)

def readReference (digits : List Char) : Except ReferenceFault Char := do
  let code ← match digits with
    | 'x' :: hex => readNumber 16 hex
    | decimal => readNumber 10 decimal
  if code = 0 then throw .zero
  else if code.isValidChar then return Char.ofNat code
  else throw (.notCharacter code)

def namedEntity? (name : List Char) : Option Char :=
  [("lt".toList, '<'), ("gt".toList, '>'), ("amp".toList, '&'), ("apos".toList, '\x27'),
    ("quot".toList, '"')].lookup name

/-- The character that a reference stands for, given the text between its marks and where that text
starts. -/
def resolve (start : Nat) (name : List Char) : Except EntityFault Char :=
  match name with
  | '#' :: digits => (readReference digits).mapError .reference
  | _ =>
    match namedEntity? name with
    | some c => .ok c
    | none => .error (.unknown start (start + byteCount name) (String.ofList name))

/-- Replaces references, `total` being the size of the whole text in bytes and `offset` the place
reached. Inside a reference, `pending` holds the place of its opening mark and its text so far in
reverse. -/
def unescapeFrom (total : Nat) :
    Nat → Option (Nat × List Char) → List Char → Except EntityFault (List Char)
  | _, none, [] => .ok []
  | _, some (start, _), [] => .error (.unterminated start total)
  | offset, none, c :: cs =>
    if c = '&' then unescapeFrom total (offset + 1) (some (offset, [])) cs
    else (c :: ·) <$> unescapeFrom total (offset + c.utf8Size) none cs
  | offset, some (start, name), c :: cs =>
    if c = ';' then do
      let resolved ← resolve (start + 1) name.reverse
      let rest ← unescapeFrom total (offset + 1) none cs
      return resolved :: rest
    else if c = '&' then .error (.unterminated start total)
    else unescapeFrom total (offset + c.utf8Size) (some (start, c :: name)) cs

def unescape (cs : List Char) : Except EntityFault (List Char) :=
  unescapeFrom (byteCount cs) 0 none cs

end SceneView.Markup
