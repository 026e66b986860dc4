import SceneView.Json.Basic

/-!
# Writing JSON

Compact text, as it is hashed and stored, and indented text for reports. In strings the quote, the
backslash and the control characters are escaped and nothing else.
-/

namespace SceneView.Json

def hexDigit (n : Nat) : Char :=
  if n < 10 then Char.ofNat (48 + n) else Char.ofNat (87 + n)

def escapeChar (c : Char) : List Char :=
  if c == '"' then ['\\', '"']
  else if c == '\\' then ['\\', '\\']
  else if c == '\x08' then ['\\', 'b']
  else if c == '\t' then ['\\', 't']
  else if c == '\n' then ['\\', 'n']
  else if c == '\x0c' then ['\\', 'f']
  else if c == '\r' then ['\\', 'r']
  else if c.toNat < 32 then ['\\', 'u', '0', '0', hexDigit (c.toNat / 16), hexDigit (c.toNat % 16)]
  else [c]

def quotedChars (cs : List Char) : List Char :=
  '"' :: (cs.flatMap escapeChar ++ ['"'])

def quoted (s : String) : String :=
  String.ofList (quotedChars s.toList)

/-- A text; half a character is written as the replacement character. -/
def quotedText : JsonText → String
  | some s => quoted s
  | none => quoted "�"

mutual

def compact : Json → String
  | null => "null"
  | bool true => "true"
  | bool false => "false"
  | integer value => toString value
  | decimal digits => digits
  | string text => quotedText text
  | array items => "[" ++ ",".intercalate (compactItems items) ++ "]"
  | object members => "\x7b" ++ ",".intercalate (compactMembers members) ++ "\x7d"

def compactItems : List Json → List String
  | [] => []
  | item :: items => compact item :: compactItems items

def compactMembers : List (JsonText × Json) → List String
  | [] => []
  | (key, value) :: members =>
    (quotedText key ++ ":" ++ compact value) :: compactMembers members

end

/-- Parts between brackets, each on a line of its own. -/
def block (opening closing indent : String) (parts : List String) : String :=
  match parts with
  | [] => opening ++ closing
  | parts =>
    opening ++ "\n" ++ ",\n".intercalate (parts.map fun part => indent ++ "  " ++ part) ++ "\n" ++
      indent ++ closing

mutual

/-- The value with each item and member on a line of its own, two spaces deeper at each level. -/
def pretty (indent : String) : Json → String
  | array items => block "[" "]" indent (prettyItems (indent ++ "  ") items)
  | object members => block "\x7b" "\x7d" indent (prettyMembers (indent ++ "  ") members)
  | null => "null"
  | bool value => compact (bool value)
  | integer value => compact (integer value)
  | decimal digits => digits
  | string text => quotedText text

def prettyItems (indent : String) : List Json → List String
  | [] => []
  | item :: items => pretty indent item :: prettyItems indent items

def prettyMembers (indent : String) : List (JsonText × Json) → List String
  | [] => []
  | (key, value) :: members =>
    (quotedText key ++ ": " ++ pretty indent value) :: prettyMembers indent members

end

end SceneView.Json
