import Waybind.Text.Numeral
import Waybind.Text.Utf8

/-!
This module contains the ways in which a document can fail to be read, and how they are reported. A
report is a list of messages, from the most general one to the cause.
-/

namespace Waybind
namespace Xml

inductive MarkupFault where
  | invalidBang
  | unclosedInstruction
  | unclosedComment
  | unclosedDoctype
  | unclosedCData
  | unclosedTag
deriving Repr, DecidableEq

def MarkupFault.message : MarkupFault → String
  | .invalidBang => "unknown or missed symbol in markup"
  | .unclosedInstruction =>
    "processing instruction or xml declaration not closed: `?>` not found before end of input"
  | .unclosedComment => "comment not closed: `-->` not found before end of input"
  | .unclosedDoctype => "DOCTYPE not closed: `>` not found before end of input"
  | .unclosedCData => "CDATA not closed: `]]>` not found before end of input"
  | .unclosedTag => "tag not closed: `>` not found before end of input"

inductive FormFault where
  | missingDoctypeName
  | unmatchedEndTag (name : String)
  | mismatchedEndTag (expected found : String)
  | unclosedReference
deriving Repr, DecidableEq

def FormFault.message : FormFault → String
  | .missingDoctypeName =>
    "`<!DOCTYPE>` declaration does not contain a name of a document type"
  | .unmatchedEndTag name => s!"close tag `</{name}>` does not match any open tag"
  | .mismatchedEndTag expected found => s!"expected `</{expected}>`, but `</{found}>` was found"
  | .unclosedReference =>
    "entity or character reference not closed: `;` not found before end of input"

inductive CharacterFault where
  | unexpectedSign
  | invalidNumber (fault : Numeral.Fault)
  | illegalCharacter
  | invalidCodepoint (code : Nat)
deriving Repr, DecidableEq

def CharacterFault.message : CharacterFault → String
  | .unexpectedSign => "unexpected number sign"
  | .invalidNumber fault => fault.message
  | .illegalCharacter => "0x0 character is not permitted in XML"
  | .invalidCodepoint code => s!"`{code}` is not a valid codepoint"

inductive ReferenceFault where
  | unknown
  | character (fault : CharacterFault)
deriving Repr, DecidableEq

/--
Why the value of an attribute has no text. Positions count the bytes of the value.
-/
inductive ValueFault where
  | encoding (fault : Utf8.Fault)
  | unrecognizedEntity (start stop : Nat) (name : String)
  | unterminatedEntity (start stop : Nat)
  | character (fault : CharacterFault)
deriving Repr, DecidableEq

def ValueFault.messages : ValueFault → List String
  | .encoding fault =>
    let message := "cannot decode input using UTF-8: " ++ fault.message
    [message, message, fault.message]
  | .unrecognizedEntity start stop name =>
    let message := s!"at {start}..{stop}: unrecognized entity `{name}`"
    [message, message]
  | .unterminatedEntity start stop =>
    let message :=
      s!"Error while escaping character at range {start}..{stop}: Cannot find ';' after '&'"
    [message, message]
  | .character fault =>
    let message := "invalid character reference: " ++ fault.message
    match fault with
    | .invalidNumber _ => [message, message, fault.message, fault.message]
    | _ => [message, message, fault.message]

/--
Why an attribute cannot be read. Positions count the bytes of the tag.
-/
inductive AttributeFault where
  | expectedEq (position : Nat)
  | expectedValue (position : Nat)
  | unquotedValue (position : Nat)
  | expectedQuote (position : Nat) (quote : Char)
  | duplicated (position earlier : Nat)
  | name (fault : Utf8.Fault)
  | value (fault : ValueFault)
deriving Repr, DecidableEq

def AttributeFault.form (position : Nat) (message : String) : List String :=
  ["quick_xml returned an error", s!"position {position}: {message}"]

def AttributeFault.messages : AttributeFault → List String
  | .expectedEq position =>
    form position "attribute key must be directly followed by `=` or space"
  | .expectedValue position => form position "`=` must be followed by an attribute value"
  | .unquotedValue position =>
    form position "attribute value must be enclosed in `\"` or `'`"
  | .expectedQuote position quote =>
    form position s!"missing closing quote `{quote}` in attribute value"
  | .duplicated position earlier =>
    form position s!"duplicated attribute, previous declaration at position {earlier}"
  | .name fault => ["Could not decode the attribute name as UTF-8", fault.message]
  | .value fault => "Could not decode the value as UTF-8" :: fault.messages

inductive Error where
  | markup (fault : MarkupFault)
  | form (fault : FormFault)
  | attributes (element : String) (fault : AttributeFault)
  | elementName (fault : Utf8.Fault)
  | body (element : String) (fault : Utf8.Fault)
  | missingRoot
  | unclosed (element : String)
  | reference (name : String)
deriving Repr, DecidableEq

def Error.messages : Error → List String
  | .markup fault =>
    ["Could not read the next event", "syntax error: " ++ fault.message, fault.message]
  | .form fault =>
    ["Could not read the next event", "ill-formed document: " ++ fault.message, fault.message]
  | .attributes element fault =>
    s!"Could not parse an attribute of element {element}" :: fault.messages
  | .elementName fault => ["Could not decode an element name as UTF-8", fault.message]
  | .body element fault =>
    [s!"Could not decode the body of element {element} as UTF-8", fault.message]
  | .missingRoot => ["The document does not contain a root element"]
  | .unclosed element => [s!"Element {element} is not closed"]
  | .reference name => [s!"Unknown or invalid reference &{name};"]

end Xml
end Waybind
