/-!
# What can be wrong with markup

The faults of a document's markup, with the place inside the tag or value where that is known. The
wording of each is given once, by `message`.
-/

namespace SceneView.Markup

inductive ReferenceFault where
  | sign
  | empty
  | digit
  | tooLarge
  | notCharacter (code : Nat)
  | zero
deriving DecidableEq, Repr

/-- Faults of the references in a text or an attribute value; places are counted in bytes. -/
inductive EntityFault where
  | unknown (start stop : Nat) (name : String)
  | unterminated (start stop : Nat)
  | reference (fault : ReferenceFault)
deriving DecidableEq, Repr

/-- Faults of the attributes in a tag; positions are counted in bytes after the opening mark. -/
inductive AttributeFault where
  | noEquals (position : Nat)
  | noValue (position : Nat)
  | unquoted (position : Nat)
  | unclosed (position : Nat) (quote : Char)
  | duplicate (position previous : Nat)
deriving DecidableEq, Repr

inductive MarkupFault where
  | unknownMarkup
  | unclosedInstruction
  | unclosedComment
  | unclosedDoctype
  | unclosedData
  | unclosedTag
  | unmatchedClose (name : String)
  | mismatchedClose (expected found : String)
  | namelessDoctype
  | attributeFault (fault : AttributeFault)
  | entityFault (fault : EntityFault)
  | severalRoots
  | strayClose
  | strayText
  | neverClosed (tag : String)
  | noRoot
  | described (text : String)
deriving DecidableEq, Repr

def ReferenceFault.message : ReferenceFault → String
  | sign => "unexpected number sign"
  | empty => "cannot parse integer from empty string"
  | digit => "invalid digit found in string"
  | tooLarge => "number too large to fit in target type"
  | notCharacter code => "`" ++ toString code ++ "` is not a valid codepoint"
  | zero => "0x0 character is not permitted in XML"

def EntityFault.message : EntityFault → String
  | unknown start stop name =>
    "at " ++ toString start ++ ".." ++ toString stop ++ ": unrecognized entity `" ++ name ++ "`"
  | unterminated start stop =>
    "Error while escaping character at range " ++ toString start ++ ".." ++ toString stop ++
      ": Cannot find ';' after '&'"
  | reference fault => "invalid character reference: " ++ fault.message

def AttributeFault.message : AttributeFault → String
  | noEquals position =>
    "position " ++ toString position ++
      ": attribute key must be directly followed by `=` or space"
  | noValue position =>
    "position " ++ toString position ++ ": `=` must be followed by an attribute value"
  | unquoted position =>
    "position " ++ toString position ++ ": attribute value must be enclosed in `\"` or `'`"
  | unclosed position quote =>
    "position " ++ toString position ++ ": missing closing quote `" ++ String.singleton quote ++
      "` in attribute value"
  | duplicate position previous =>
    "position " ++ toString position ++ ": duplicated attribute, previous declaration at position " ++
      toString previous

def MarkupFault.message : MarkupFault → String
  | unknownMarkup => "syntax error: unknown or missed symbol in markup"
  | unclosedInstruction =>
    "syntax error: processing instruction or xml declaration not closed: `?>` not found before end of input"
  | unclosedComment => "syntax error: comment not closed: `-->` not found before end of input"
  | unclosedDoctype => "syntax error: DOCTYPE not closed: `>` not found before end of input"
  | unclosedData => "syntax error: CDATA not closed: `]]>` not found before end of input"
  | unclosedTag => "syntax error: tag not closed: `>` not found before end of input"
  | unmatchedClose name =>
    "ill-formed document: close tag `</" ++ name ++ ">` does not match any open tag"
  | mismatchedClose expected found =>
    "ill-formed document: expected `</" ++ expected ++ ">`, but `</" ++ found ++ ">` was found"
  | namelessDoctype =>
    "ill-formed document: `<!DOCTYPE>` declaration does not contain a name of a document type"
  | attributeFault fault => fault.message
  | entityFault fault => fault.message
  | severalRoots => "document has more than one root element"
  | strayClose => "unexpected closing tag"
  | strayText => "text outside the root element"
  | neverClosed tag => "element <" ++ tag ++ "> is never closed"
  | noRoot => "document has no root element"
  | described text => text

end SceneView.Markup
