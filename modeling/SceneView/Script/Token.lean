/-!
# Tokens of the expression language

Bound attribute values are TypeScript expressions. Their text is cut into tokens: words, private
names, literals, pieces of templates and marks. A word is either plain or one of the language's
keywords; most keywords are contextual, so that they may still serve as names.
-/

namespace SceneView.Script

inductive Keyword where
  -- reserved: never a name
  | breakKw | caseKw | catchKw | classKw | constKw | continueKw | debuggerKw | defaultKw | deleteKw
  | doKw | elseKw | enumKw | exportKw | extendsKw | falseKw | finallyKw | forKw | functionKw | ifKw
  | importKw | inKw | instanceofKw | newKw | nullKw | returnKw | superKw | switchKw | thisKw
  | throwKw | trueKw | tryKw | typeofKw | varKw | voidKw | whileKw | withKw
  -- names only outside the functions that give them a meaning
  | awaitKw | yieldKw
  -- contextual: a name wherever the grammar has no use for the word
  | letKw | staticKw | implementsKw | interfaceKw | packageKw | privateKw | protectedKw | publicKw
  | abstractKw | accessorKw | anyKw | asKw | assertsKw | asyncKw | bigintKw | booleanKw
  | constructorKw | declareKw | deferKw | getKw | globalKw | inferKw | isKw | keyofKw | metaKw
  | moduleKw | namespaceKw | neverKw | numberKw | objectKw | ofKw | outKw | overrideKw | readonlyKw
  | satisfiesKw | setKw | sourceKw | stringKw | symbolKw | targetKw | typeKw | undefinedKw
  | uniqueKw | unknownKw | usingKw
deriving DecidableEq, Repr

namespace Keyword

def table : List (String × Keyword) :=
  [("break", breakKw), ("case", caseKw), ("catch", catchKw), ("class", classKw),
   ("const", constKw), ("continue", continueKw), ("debugger", debuggerKw),
   ("default", defaultKw), ("delete", deleteKw), ("do", doKw), ("else", elseKw),
   ("enum", enumKw), ("export", exportKw), ("extends", extendsKw), ("false", falseKw),
   ("finally", finallyKw), ("for", forKw), ("function", functionKw), ("if", ifKw),
   ("import", importKw), ("in", inKw), ("instanceof", instanceofKw), ("new", newKw),
   ("null", nullKw), ("return", returnKw), ("super", superKw), ("switch", switchKw),
   ("this", thisKw), ("throw", throwKw), ("true", trueKw), ("try", tryKw),
   ("typeof", typeofKw), ("var", varKw), ("void", voidKw), ("while", whileKw),
   ("with", withKw), ("await", awaitKw), ("yield", yieldKw), ("let", letKw),
   ("static", staticKw), ("implements", implementsKw), ("interface", interfaceKw),
   ("package", packageKw), ("private", privateKw), ("protected", protectedKw),
   ("public", publicKw), ("abstract", abstractKw), ("accessor", accessorKw), ("any", anyKw),
   ("as", asKw), ("asserts", assertsKw), ("async", asyncKw), ("bigint", bigintKw),
   ("boolean", booleanKw), ("constructor", constructorKw), ("declare", declareKw),
   ("defer", deferKw), ("get", getKw), ("global", globalKw), ("infer", inferKw), ("is", isKw),
   ("keyof", keyofKw), ("meta", metaKw), ("module", moduleKw), ("namespace", namespaceKw),
   ("never", neverKw), ("number", numberKw), ("object", objectKw), ("of", ofKw), ("out", outKw),
   ("override", overrideKw), ("readonly", readonlyKw), ("satisfies", satisfiesKw),
   ("set", setKw), ("source", sourceKw), ("string", stringKw), ("symbol", symbolKw),
   ("target", targetKw), ("type", typeKw), ("undefined", undefinedKw), ("unique", uniqueKw),
   ("unknown", unknownKw), ("using", usingKw)]

def ofSpelling? (word : String) : Option Keyword :=
  table.lookup word

/-- Whether the word is reserved, so that it never names anything. -/
def isReserved : Keyword → Bool
  | breakKw | caseKw | catchKw | classKw | constKw | continueKw | debuggerKw | defaultKw
  | deleteKw | doKw | elseKw | enumKw | exportKw | extendsKw | falseKw | finallyKw | forKw
  | functionKw | ifKw | importKw | inKw | instanceofKw | newKw | nullKw | returnKw | superKw
  | switchKw | thisKw | throwKw | trueKw | tryKw | typeofKw | varKw | voidKw | whileKw | withKw =>
    true
  | _ => false

/-- Whether the word is a name in every context: neither reserved nor bound to asynchronous or
generator functions. -/
def isName (k : Keyword) : Bool :=
  !k.isReserved && k != awaitKw && k != yieldKw

def isModifier : Keyword → Bool
  | abstractKw | accessorKw | asyncKw | constKw | declareKw | defaultKw | exportKw | inKw | outKw
  | overrideKw | privateKw | protectedKw | publicKw | readonlyKw | staticKw => true
  | _ => false

end Keyword

inductive Mark where
  | leftParen | rightParen | leftBracket | rightBracket | leftBrace | rightBrace
  | semicolon | comma | colon | dot | ellipsis | question | questionDot | arrow | atSign | bang | tilde
  | plus | minus | star | slash | percent | power | increment | decrement
  | amp | pipe | caret | ampAmp | pipePipe | coalesce
  | less | greater | lessEq | greaterEq | shiftLeft | shiftRight | shiftRightZero
  | equal | notEqual | identical | notIdentical
  | assign | plusAssign | minusAssign | starAssign | slashAssign | percentAssign | powerAssign
  | shiftLeftAssign | shiftRightAssign | shiftRightZeroAssign | ampAssign | pipeAssign
  | caretAssign | ampAmpAssign | pipePipeAssign | coalesceAssign
deriving DecidableEq, Repr

namespace Mark

def isAssignment : Mark → Bool
  | assign | plusAssign | minusAssign | starAssign | slashAssign | percentAssign | powerAssign
  | shiftLeftAssign | shiftRightAssign | shiftRightZeroAssign | ampAssign | pipeAssign
  | caretAssign | ampAmpAssign | pipePipeAssign | coalesceAssign => true
  | _ => false

end Mark

/-- The place of a piece within its template: the whole of it, or the piece before the first,
between two, or after the last substitution. -/
inductive Piece where
  | whole | head | middle | tail
deriving DecidableEq, Repr

/-- What a token is. A template piece says whether its escapes are sound, since a tag may stand
before a template with unsound ones. -/
inductive Kind where
  | name
  | keyword (word : Keyword)
  | privateName
  | number
  | bigint
  | string
  | pattern
  | template (piece : Piece) (sound : Bool)
  | mark (mark : Mark)
  | finish
  | malformed
deriving DecidableEq, Repr

/-- A token with the offset of its first character. `text` is the decoded spelling of a word,
`newline` says that a line break stands before the token, and `escaped` that the word is written
with an escape. -/
structure Token where
  kind : Kind
  start : Nat
  text : String
  newline : Bool
  escaped : Bool
deriving Repr

end SceneView.Script
