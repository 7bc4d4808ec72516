import Waybind.Protocol.Basic
import Waybind.Text.Numeral

/-!
This module contains the ways in which an element can fail to be a protocol, and how they are
reported. A report is a list of messages, from the outermost element to the cause.
-/

namespace Waybind

inductive Arg.Fault where
  | missingName
  | missingType
  | unknownType (type : String)
  | allowNull
  | nullableNewId
  | missingDescriptionSummary
deriving Repr, DecidableEq

inductive Message.Fault where
  | missingName
  | since (fault : Numeral.Fault)
  | deprecatedSince (fault : Numeral.Fault)
  | unknownRequestKind (kind : String)
  | unexpectedElement (name : String)
  | arg (name : String) (fault : Arg.Fault)
deriving Repr, DecidableEq

inductive Entry.Fault where
  | missingName
  | missingValue
  | invalidValue (value : String)
  | since (fault : Numeral.Fault)
  | deprecatedSince (fault : Numeral.Fault)
deriving Repr, DecidableEq

inductive Enumeration.Fault where
  | missingName
  | since (fault : Numeral.Fault)
  | bitfield
  | unexpectedElement (name : String)
  | entry (name : String) (fault : Entry.Fault)
  | duplicateEntry (name : String)
  | bitOutOfRange (entry : String) (bit : Nat)
  | valueRange
deriving Repr, DecidableEq

inductive Interface.Fault where
  | missingName
  | invalidName (name : String)
  | missingVersion
  | version (fault : Numeral.Fault)
  | nonPositiveVersion (version : Int)
  | versionRange (version : Int)
  | unexpectedElement (name : String)
  | tooManyMessages
  | request (name : String) (fault : Message.Fault)
  | event (name : String) (fault : Message.Fault)
  | enum (name : String) (fault : Enumeration.Fault)
  | duplicateRequest (name : String)
  | duplicateEvent (name : String)
  | duplicateEnum (name : String)
deriving Repr, DecidableEq

inductive Protocol.Fault where
  | missingName
  | unexpectedElement (name : String)
  | interface (name : String) (fault : Interface.Fault)
  | duplicateInterface (name : String)
  | noInterfaces
  | familyMismatch (interface family expected : String)
deriving Repr, DecidableEq

inductive Protocol.Error where
  | unexpectedRoot (name : String)
  | protocol (name : String) (fault : Protocol.Fault)
deriving Repr, DecidableEq

def notBoolean : String :=
  "provided string was not `true` or `false`"

def Arg.Fault.messages : Arg.Fault → List String
  | .missingName => ["Argument has no name"]
  | .missingType => ["Argument has no type"]
  | .unknownType type => [s!"Unknown arg type {type}"]
  | .allowNull => ["Could not parse the allow-null attribute", notBoolean]
  | .nullableNewId => ["new_id arguments cannot be nullable"]
  | .missingDescriptionSummary => ["The description has no summary"]

def Message.Fault.messages : Message.Fault → List String
  | .missingName => ["Message has no name"]
  | .since fault => ["Could not parse the since attribute", fault.message]
  | .deprecatedSince fault => ["Could not parse the deprecated-since attribute", fault.message]
  | .unknownRequestKind kind => [s!"Unknown request type {kind}"]
  | .unexpectedElement name => [s!"Unexpected element {name}"]
  | .arg name fault => s!"Could not build argument {name}" :: fault.messages

def Entry.Fault.messages : Entry.Fault → List String
  | .missingName => ["Entry has no name"]
  | .missingValue => ["Entry has no value"]
  | .invalidValue value => [s!"Value {value} is not an integer literal"]
  | .since fault => ["Could not parse the since attribute", fault.message]
  | .deprecatedSince fault => ["Could not parse the deprecated-since attribute", fault.message]

def Enumeration.Fault.messages : Enumeration.Fault → List String
  | .missingName => ["Enum has no name"]
  | .since fault => ["Could not parse the since attribute", fault.message]
  | .bitfield => ["Could not parse the bitfield attribute", notBoolean]
  | .unexpectedElement name => [s!"Unexpected element {name}"]
  | .entry name fault => s!"Could not build entry {name}" :: fault.messages
  | .duplicateEntry name => [s!"Duplicate entry {name}"]
  | .bitOutOfRange flag bit =>
    [s!"Entry {flag} sets bit {bit} which does not fit into 32 bits"]
  | .valueRange => ["The entry values do not fit into a single 32-bit integer type"]

def Interface.Fault.messages : Interface.Fault → List String
  | .missingName => ["Interface has no name"]
  | .invalidName name => [s!"Interface name {name} is not of the form prefix_name"]
  | .missingVersion => ["Interface has no version"]
  | .version fault => ["Could not parse the version", fault.message]
  | .nonPositiveVersion value => [s!"Version {value} is not positive"]
  | .versionRange value => [s!"Version {value} does not fit into 32 bits"]
  | .unexpectedElement name => [s!"Unexpected element {name}"]
  | .tooManyMessages => ["Too many messages"]
  | .request name fault => s!"Could not build request {name}" :: fault.messages
  | .event name fault => s!"Could not build event {name}" :: fault.messages
  | .enum name fault => s!"Could not build enum {name}" :: fault.messages
  | .duplicateRequest name => [s!"Duplicate request {name}"]
  | .duplicateEvent name => [s!"Duplicate event {name}"]
  | .duplicateEnum name => [s!"Duplicate enum {name}"]

def Protocol.Fault.messages : Protocol.Fault → List String
  | .missingName => ["Protocol does not have a name"]
  | .unexpectedElement name => [s!"Unexpected element {name}"]
  | .interface name fault => s!"Could not build interface {name}" :: fault.messages
  | .duplicateInterface name => [s!"Duplicate interface {name}"]
  | .noInterfaces => ["Protocol does not contain any interfaces"]
  | .familyMismatch other family expected =>
    [s!"Interface {other} has prefix {family} but the protocol uses prefix {expected}"]

def Protocol.Error.messages : Protocol.Error → List String
  | .unexpectedRoot name => [s!"Expected a protocol element but found {name}"]
  | .protocol name fault => s!"Could not build protocol {name}" :: fault.messages

end Waybind
