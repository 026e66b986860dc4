import SceneView.Script.Token
import SceneView.Text.Identifier

/-!
# Cutting text into tokens

Each scanner takes the characters that are left and returns those after what it recognised. White
space and comments separate tokens and are dropped; whether a line break was among them is kept with
the token that follows. A slash begins a division, and a closing brace closes a block: the grammar
asks for the other reading, a pattern or the rest of a template, where it expects one.
-/

namespace SceneView.Script

def isLineBreak (c : Char) : Bool :=
  c == '\n' || c == '\r' || c.toNat == 0x2028 || c.toNat == 0x2029

def isSpace (c : Char) : Bool :=
  let n := c.toNat
  n == 9 || n == 11 || n == 12 || n == 32 || n == 0x85 || n == 0xA0 || n == 0x1680 ||
    (0x2000 ≤ n && n ≤ 0x200B) || n == 0x202F || n == 0x205F || n == 0x3000 || n == 0xFEFF

/-- Where the space before a token stands: in the open, in a comment up to the end of the line, or
in a comment up to its closing mark. -/
inductive Gap where
  | plain | line | block

/-- Skips white space and comments. The answer holds the characters left, whether a line break was
passed, and whether every comment was closed. -/
def skipGap : Gap → Bool → List Char → List Char × Bool × Bool
  | .plain, newline, '/' :: '/' :: cs => skipGap .line newline cs
  | .plain, newline, '/' :: '*' :: cs => skipGap .block newline cs
  | .plain, newline, c :: cs =>
    if isLineBreak c then skipGap .plain true cs
    else if isSpace c then skipGap .plain newline cs
    else (c :: cs, newline, true)
  | .line, newline, c :: cs =>
    if isLineBreak c then skipGap .plain true cs else skipGap .line newline cs
  | .block, newline, '*' :: '/' :: cs => skipGap .plain newline cs
  | .block, newline, c :: cs => skipGap .block (newline || isLineBreak c) cs
  | .block, newline, [] => ([], newline, false)
  | _, newline, [] => ([], newline, true)

def hexValue? (c : Char) : Option Nat :=
  if c.isDigit then some (c.toNat - 48)
  else if 'a' ≤ c ∧ c ≤ 'f' then some (c.toNat - 87)
  else if 'A' ≤ c ∧ c ≤ 'F' then some (c.toNat - 55)
  else none

def isHex (c : Char) : Bool :=
  (hexValue? c).isSome

def hexNumber (digits : List Char) : Nat :=
  digits.foldl (fun n c => 16 * n + (hexValue? c).getD 0) 0

/-- Reads a code point after `\u`: four hexadecimal digits, or any number of them in braces. -/
def readCodePoint? : List Char → Option (Nat × List Char)
  | '{' :: cs =>
    let digits := cs.takeWhile isHex
    match cs.dropWhile isHex with
    | '}' :: rest =>
      if digits.isEmpty || hexNumber digits > 0x10FFFF then none
      else some (hexNumber digits, rest)
    | _ => none
  | a :: b :: c :: d :: rest =>
    if isHex a && isHex b && isHex c && isHex d then some (hexNumber [a, b, c, d], rest) else none
  | _ => none

/-- Reads what follows the backslash of an escape in a string or template. A template admits no
octal escape. The answer is `none` when the escape is unsound. -/
def readEscape? (inTemplate : Bool) : List Char → Option (List Char)
  | 'u' :: cs => (readCodePoint? cs).map (·.2)
  | 'x' :: a :: b :: cs => if isHex a && isHex b then some cs else none
  | 'x' :: _ => none
  | '\r' :: '\n' :: cs => some cs
  | '0' :: c :: cs => if inTemplate && c.isDigit then none else some (c :: cs)
  | c :: cs => if inTemplate && c.isDigit && c != '0' then none else some cs
  | [] => none

/-- Reads the rest of a word, decoding escapes. The answer holds the decoded characters, whether an
escape was met, whether every escape was sound, and the characters left. -/
def readWord : Nat → List Char → List Char × Bool × Bool × List Char
  | 0, cs => ([], false, true, cs)
  | fuel + 1, '\\' :: 'u' :: cs =>
    match readCodePoint? cs with
    | some (n, rest) =>
      let c := Char.ofNat n
      if Text.isIdentifierPart c then
        let (word, _, sound, left) := readWord fuel rest
        (c :: word, true, sound, left)
      else ([], true, false, rest)
    | none => ([], true, false, cs)
  | fuel + 1, c :: cs =>
    if Text.isIdentifierPart c then
      let (word, escaped, sound, left) := readWord fuel cs
      (c :: word, escaped, sound, left)
    else if c == '\\' then ([], true, false, cs)
    else ([], false, true, c :: cs)
  | _ + 1, [] => ([], false, true, [])

def startsName : List Char → Bool
  | [] => false
  | c :: _ => Text.isIdentifierStart c

/-- Reads the digits after the first one; an underscore must stand between two digits. The answer
says whether that was so. -/
def readDigits (p : Char → Bool) : List Char → Bool × List Char
  | '_' :: c :: cs => if p c then readDigits p cs else (false, c :: cs)
  | c :: cs =>
    if p c then readDigits p cs
    else if c == '_' then (false, cs)
    else (true, c :: cs)
  | [] => (true, [])

def readDigitRun (p : Char → Bool) : List Char → Bool × List Char
  | c :: cs => if p c then readDigits p cs else (false, c :: cs)
  | [] => (false, [])

def readExponent : List Char → Bool × List Char
  | c :: cs =>
    if c == 'e' || c == 'E' then
      match cs with
      | '+' :: ds => readDigitRun Char.isDigit ds
      | '-' :: ds => readDigitRun Char.isDigit ds
      | ds => readDigitRun Char.isDigit ds
    else (true, c :: cs)
  | [] => (true, [])

/-- A number must not run into a word or a digit. -/
def endNumber (kind : Kind) (ok : Bool) (cs : List Char) : Kind × List Char :=
  let clear := match cs with
    | c :: _ => !(c.isDigit || Text.isIdentifierStart c)
    | [] => true
  (if ok && clear then kind else .malformed, cs)

def readFraction (cs : List Char) : Kind × List Char :=
  let (ok, cs) := match cs with
    | c :: ds => if c.isDigit then readDigits Char.isDigit ds else (true, c :: ds)
    | [] => (true, [])
  let (ok', cs) := readExponent cs
  endNumber .number (ok && ok') cs

def readDecimalRest (ok : Bool) : List Char → Kind × List Char
  | '.' :: cs =>
    let (kind, cs) := readFraction cs
    (if ok then kind else .malformed, cs)
  | 'n' :: cs => endNumber .bigint ok cs
  | cs =>
    let (ok', cs) := readExponent cs
    endNumber .number (ok && ok') cs

def readBased (p : Char → Bool) (cs : List Char) : Kind × List Char :=
  let (ok, cs) := readDigitRun p cs
  match cs with
  | 'n' :: rest => endNumber .bigint ok rest
  | rest => endNumber .number ok rest

def readNumber (first : Char) (cs : List Char) : Kind × List Char :=
  if first == '0' then
    match cs with
    | c :: rest =>
      if c == 'x' || c == 'X' then readBased isHex rest
      else if c == 'o' || c == 'O' then readBased (fun d => '0' ≤ d && d ≤ '7') rest
      else if c == 'b' || c == 'B' then readBased (fun d => d == '0' || d == '1') rest
      else if c.isDigit then
        let digits := (c :: rest).takeWhile Char.isDigit
        let left := (c :: rest).dropWhile Char.isDigit
        -- a leading zero writes an octal number unless a digit above seven occurs
        if digits.all (· ≤ '7') then endNumber .number true left
        else
          match left with
          | 'n' :: _ => (.malformed, left)
          | left => readDecimalRest true left
      else if c == '_' then (.malformed, rest)
      else readDecimalRest true (c :: rest)
    | [] => (.number, [])
  else
    let (ok, cs) := readDigits Char.isDigit cs
    readDecimalRest ok cs

def readString (quote : Char) : Nat → Bool → List Char → Kind × List Char
  | 0, _, cs => (.malformed, cs)
  | fuel + 1, sound, '\\' :: cs =>
    match readEscape? false cs with
    | some rest => readString quote fuel sound rest
    | none => readString quote fuel false cs
  | fuel + 1, sound, c :: cs =>
    if c == quote then (if sound then .string else .malformed, cs)
    else if c == '\n' || c == '\r' then (.malformed, c :: cs)
    else readString quote fuel sound cs
  | _ + 1, _, [] => (.malformed, [])

/-- Reads a piece of a template up to its end or the next substitution. `first` says that the piece
opens the template. -/
def readTemplate (first : Bool) : Nat → Bool → List Char → Kind × List Char
  | 0, _, cs => (.malformed, cs)
  | fuel + 1, sound, '\\' :: cs =>
    match readEscape? true cs with
    | some rest => readTemplate first fuel sound rest
    | none => readTemplate first fuel false cs
  | _ + 1, sound, '$' :: '{' :: cs => (.template (if first then .head else .middle) sound, cs)
  | fuel + 1, sound, c :: cs =>
    if c == '\x60' then (.template (if first then .whole else .tail) sound, cs)
    else readTemplate first fuel sound cs
  | _ + 1, _, [] => (.malformed, [])

/-- Reads the flags of a pattern: known letters, none of them twice. -/
def readFlags : List Char → List Char → Bool × List Char
  | seen, c :: cs =>
    if c.isAlphanum || c == '$' || c == '_' then
      let (ok, left) := readFlags (c :: seen) cs
      (ok && "dgimsuvy".toList.contains c && !seen.contains c, left)
    else (true, c :: cs)
  | _, [] => (true, [])

/-- Reads a pattern after its opening slash. A slash within brackets does not close it. -/
def readPattern : Bool → Bool → List Char → Kind × List Char
  | escape, inClass, c :: cs =>
    if isLineBreak c then (.malformed, c :: cs)
    else if escape then readPattern false inClass cs
    else if c == '/' && !inClass then
      let (ok, left) := readFlags [] cs
      (if ok then .pattern else .malformed, left)
    else if c == '[' then readPattern false true cs
    else if c == ']' then readPattern false false cs
    else readPattern (c == '\\') inClass cs
  | _, _, [] => (.malformed, [])

/-- Reads a mark; `none` when the character begins none. A greater sign is always read alone, since
it may close a list of types. -/
def readMark? : List Char → Option (Mark × List Char)
  | '(' :: cs => some (.leftParen, cs)
  | ')' :: cs => some (.rightParen, cs)
  | '[' :: cs => some (.leftBracket, cs)
  | ']' :: cs => some (.rightBracket, cs)
  | '{' :: cs => some (.leftBrace, cs)
  | '}' :: cs => some (.rightBrace, cs)
  | ';' :: cs => some (.semicolon, cs)
  | ',' :: cs => some (.comma, cs)
  | ':' :: cs => some (.colon, cs)
  | '@' :: cs => some (.atSign, cs)
  | '~' :: cs => some (.tilde, cs)
  | '.' :: '.' :: '.' :: cs => some (.ellipsis, cs)
  | '.' :: cs => some (.dot, cs)
  | '?' :: '?' :: '=' :: cs => some (.coalesceAssign, cs)
  | '?' :: '?' :: cs => some (.coalesce, cs)
  | '?' :: '.' :: cs =>
    match cs with
    | c :: _ => if c.isDigit then some (.question, '.' :: cs) else some (.questionDot, cs)
    | [] => some (.questionDot, [])
  | '?' :: cs => some (.question, cs)
  | '=' :: '=' :: '=' :: cs => some (.identical, cs)
  | '=' :: '=' :: cs => some (.equal, cs)
  | '=' :: '>' :: cs => some (.arrow, cs)
  | '=' :: cs => some (.assign, cs)
  | '!' :: '=' :: '=' :: cs => some (.notIdentical, cs)
  | '!' :: '=' :: cs => some (.notEqual, cs)
  | '!' :: cs => some (.bang, cs)
  | '+' :: '+' :: cs => some (.increment, cs)
  | '+' :: '=' :: cs => some (.plusAssign, cs)
  | '+' :: cs => some (.plus, cs)
  | '-' :: '-' :: cs => some (.decrement, cs)
  | '-' :: '=' :: cs => some (.minusAssign, cs)
  | '-' :: cs => some (.minus, cs)
  | '*' :: '*' :: '=' :: cs => some (.powerAssign, cs)
  | '*' :: '*' :: cs => some (.power, cs)
  | '*' :: '=' :: cs => some (.starAssign, cs)
  | '*' :: cs => some (.star, cs)
  | '/' :: '=' :: cs => some (.slashAssign, cs)
  | '/' :: cs => some (.slash, cs)
  | '%' :: '=' :: cs => some (.percentAssign, cs)
  | '%' :: cs => some (.percent, cs)
  | '&' :: '&' :: '=' :: cs => some (.ampAmpAssign, cs)
  | '&' :: '&' :: cs => some (.ampAmp, cs)
  | '&' :: '=' :: cs => some (.ampAssign, cs)
  | '&' :: cs => some (.amp, cs)
  | '|' :: '|' :: '=' :: cs => some (.pipePipeAssign, cs)
  | '|' :: '|' :: cs => some (.pipePipe, cs)
  | '|' :: '=' :: cs => some (.pipeAssign, cs)
  | '|' :: cs => some (.pipe, cs)
  | '^' :: '=' :: cs => some (.caretAssign, cs)
  | '^' :: cs => some (.caret, cs)
  | '<' :: '<' :: '=' :: cs => some (.shiftLeftAssign, cs)
  | '<' :: '<' :: cs => some (.shiftLeft, cs)
  | '<' :: '=' :: cs => some (.lessEq, cs)
  | '<' :: cs => some (.less, cs)
  | '>' :: cs => some (.greater, cs)
  | _ => none

def readGreater : List Char → Mark × List Char
  | '>' :: '>' :: '=' :: cs => (.shiftRightZeroAssign, cs)
  | '>' :: '>' :: cs => (.shiftRightZero, cs)
  | '>' :: '=' :: cs => (.shiftRightAssign, cs)
  | '>' :: cs => (.shiftRight, cs)
  | '=' :: cs => (.greaterEq, cs)
  | cs => (.greater, cs)

def readName (cs : List Char) : Kind × String × Bool × List Char :=
  let (word, escaped, sound, left) := readWord cs.length cs
  let text := String.ofList word
  if sound && startsName word then
    match Keyword.ofSpelling? text with
    | some k => (.keyword k, text, escaped, left)
    | none => (.name, text, escaped, left)
  else (.malformed, text, escaped, left)

def readToken (cs : List Char) : Kind × String × Bool × List Char :=
  match cs with
  | [] => (.finish, "", false, [])
  | '#' :: rest =>
    match readName rest with
    | (.malformed, text, escaped, left) => (.malformed, text, escaped, left)
    | (_, text, escaped, left) => (.privateName, text, escaped, left)
  | c :: rest =>
    if Text.isIdentifierStart c || c == '\\' then readName cs
    else if c.isDigit then
      let (kind, left) := readNumber c rest
      (kind, "", false, left)
    else if c == '"' || c == '\'' then
      let (kind, left) := readString c cs.length true rest
      (kind, "", false, left)
    else if c == '\x60' then
      let (kind, left) := readTemplate true cs.length true rest
      (kind, "", false, left)
    else
      match c, rest with
      | '.', d :: _ =>
        if d.isDigit then
          let (kind, left) := readFraction rest
          (kind, "", false, left)
        else
          match readMark? cs with
          | some (m, left) => (.mark m, "", false, left)
          | none => (.malformed, "", false, rest)
      | _, _ =>
        match readMark? cs with
        | some (m, left) => (.mark m, "", false, left)
        | none => (.malformed, "", false, rest)

end SceneView.Script
