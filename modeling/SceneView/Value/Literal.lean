import SceneView.Text.Blank
import SceneView.Text.Digit

/-!
# Literal values

An attribute value that is no expression may write a number, a color or a vector. Colors and vectors
are tuples of numbers separated by commas, and colors may also be written in hexadecimal.
-/

namespace SceneView.Value

def spanDigits (cs : List Char) : List Char × List Char :=
  (cs.takeWhile Text.isDigit, cs.dropWhile Text.isDigit)

def isDigits (cs : List Char) : Bool :=
  !cs.isEmpty && cs.all Text.isDigit

/-- Whether the characters are an exponent or nothing. -/
def isExponent : List Char → Bool
  | [] => true
  | c :: cs =>
    (c == 'e' || c == 'E') &&
      match cs with
      | '+' :: ds => isDigits ds
      | '-' :: ds => isDigits ds
      | ds => isDigits ds

/-- Whether the characters are a number without a sign: digits with or without a point among or
before them, and an exponent or none. -/
def isUnsigned (cs : List Char) : Bool :=
  match spanDigits cs with
  | ([], '.' :: rest) =>
    let (fraction, rest) := spanDigits rest
    !fraction.isEmpty && isExponent rest
  | ([], _) => false
  | (_, '.' :: rest) => isExponent (spanDigits rest).2
  | (_, rest) => isExponent rest

def isNumeric (text : String) : Bool :=
  match text.toList with
  | '+' :: cs => isUnsigned cs
  | '-' :: cs => isUnsigned cs
  | cs => isUnsigned cs

/-- Whether the characters write a part of a color: a fraction below one, or zero or one with no
more than zeros after the point. -/
def isComponent : List Char → Bool
  | '.' :: cs => isDigits cs
  | '0' :: '.' :: cs => cs.isEmpty || isDigits cs
  | '1' :: '.' :: cs => cs.all (· == '0')
  | ['0'] | ['1'] => true
  | _ => false

def isCoordinate (cs : List Char) : Bool :=
  let cs := match cs with
    | '-' :: rest => rest
    | cs => cs
  match spanDigits cs with
  | ([], '.' :: rest) => isDigits rest
  | ([], _) => false
  | (_, []) => true
  | (_, '.' :: rest) => rest.all Text.isDigit
  | _ => false

def isHexDigit (c : Char) : Bool :=
  c.isDigit || ('a' ≤ c && c ≤ 'f') || ('A' ≤ c && c ≤ 'F')

/-- The types of values that literals construct. -/
inductive Primitive where
  | color3 | color4 | vector3
deriving DecidableEq, Repr

namespace Primitive

def typeName : Primitive → String
  | color3 => "Color3"
  | color4 => "Color4"
  | vector3 => "Vector3"

def arity : Primitive → Nat
  | color3 => 3
  | color4 => 4
  | vector3 => 3

/-- The number of hexadecimal digits that write the value, if it can be written so. -/
def hexDigits? : Primitive → Option Nat
  | color3 => some 6
  | color4 => some 8
  | vector3 => none

def isPart : Primitive → List Char → Bool
  | color3 | color4 => isComponent
  | vector3 => isCoordinate

/-- The parts of a tuple without the white space around the commas. -/
def parts (text : String) : List (List Char) :=
  (Text.splitAt ',' text.toList).map (Text.trimBy Text.isBlank)

/-- Whether the text, which has no white space at its ends, writes a tuple of the type. -/
def isTuple (p : Primitive) (text : String) : Bool :=
  (parts text).length == p.arity && (parts text).all p.isPart

def isHex (p : Primitive) (text : String) : Bool :=
  match text.toList with
  | '#' :: digits => p.hexDigits? == some digits.length && digits.all isHexDigit
  | _ => false

def accepts (p : Primitive) (text : String) : Bool :=
  p.isTuple text || p.isHex text

def all : List Primitive :=
  [color3, color4, vector3]

/-- The first type that the text writes a value of. -/
def ofLiteral? (text : String) : Option Primitive :=
  all.find? (·.accepts text)

def ofTypeName? (name : String) : Option Primitive :=
  all.find? (·.typeName == name)

def construct (p : Primitive) (text : String) : String :=
  if text.toList.head? = some '#' then p.typeName ++ ".FromHexString('" ++ text ++ "')"
  else "new " ++ p.typeName ++ "(" ++ ", ".intercalate ((parts text).map String.ofList) ++ ")"

end Primitive

end SceneView.Value
