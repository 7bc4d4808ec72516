import Waybind.Protocol.Error
import Waybind.Xml.Element

/-!
This module contains the reading of protocols from element trees. Every element is read from its
attributes first and then from its children in order, and the first fault ends the reading.
-/

namespace Waybind

open Xml (Element)

def displayName (element : Element) : String :=
  (element.attr? "name").getD "<unnamed>"

def boolAttr? (element : Element) (name : String) : Option Bool :=
  match element.attr? name with
  | none => some false
  | some "true" => some true
  | some "false" => some false
  | some _ => none

def readUInt32 (text : String) : Except Numeral.Fault UInt32 :=
  UInt32.ofNat <$> Numeral.unsigned Numeral.maxUInt32 text

def readSince (element : Element) : Except Numeral.Fault UInt32 :=
  match element.attr? "since" with
  | some text => readUInt32 text
  | none => .ok 1

def readDeprecatedSince (element : Element) : Except Numeral.Fault (Option UInt32) :=
  match element.attr? "deprecated-since" with
  | some text => some <$> readUInt32 text
  | none => .ok none

def Description.ofElement (element : Element) : Description :=
  ⟨element.attr? "summary", element.text⟩

def Arg.readSummary (element : Element) : Except Arg.Fault (Option String) :=
  (element.childrenNamed "description").foldlM (fun _ child =>
    match (Description.ofElement child).summary with
    | some summary => .ok (some summary)
    | none => .error .missingDescriptionSummary) (element.attr? "summary")

def Arg.ofElement (element : Element) (parent : MessageId) : Except Arg.Fault Arg := do
  let some name := element.attr? "name" | throw .missingName
  let some typeName := element.attr? "type" | throw .missingType
  let some type := WireType.ofName? typeName | throw (.unknownType typeName)
  let some allowNull := boolAttr? element "allow-null" | throw .allowNull
  if allowNull && type == .newId then
    throw .nullableNewId
  let summary ← Arg.readSummary element
  return ⟨parent, name, type, element.attr? "interface", element.attr? "enum", allowNull, summary⟩

structure Message.Draft where
  description : Option Description
  args : Array Arg

def Message.Draft.addChild (id : MessageId) (draft : Message.Draft) (child : Element) :
    Except Message.Fault Message.Draft :=
  match child.name with
  | "description" => .ok { draft with description := some (Description.ofElement child) }
  | "arg" =>
    match Arg.ofElement child id with
    | .ok arg => .ok { draft with args := draft.args.push arg }
    | .error fault => .error (.arg (displayName child) fault)
  | name => .error (.unexpectedElement name)

def Message.ofElement (element : Element) (name : String) (id : MessageId) :
    Except Message.Fault Message := do
  let since ← (readSince element).mapError .since
  let deprecatedSince ← (readDeprecatedSince element).mapError .deprecatedSince
  let draft ← element.children.foldlM (Message.Draft.addChild id) ⟨none, #[]⟩
  return ⟨name, since, deprecatedSince, draft.description, draft.args.toList⟩

def RequestKind.ofElement (element : Element) : Except Message.Fault RequestKind :=
  match element.attr? "type" with
  | none => .ok .normal
  | some "destructor" => .ok .destructor
  | some "constructor" => .ok .constructor
  | some kind => .error (.unknownRequestKind kind)

/--
Read a request. One that creates an object is a constructor, whatever it is declared as.
-/
def Request.ofElement (element : Element) (opcode : UInt16) (id : MessageId) :
    Except Message.Fault Request := do
  let some name := element.attr? "name" | throw .missingName
  let declared ← RequestKind.ofElement element
  let message ← Message.ofElement element name id
  let kind := if message.args.any (·.type == .newId) then .constructor else declared
  return ⟨message, opcode, kind⟩

def Event.ofElement (element : Element) (number : UInt16) (id : MessageId) :
    Except Message.Fault Event := do
  let some name := element.attr? "name" | throw .missingName
  let message ← Message.ofElement element name id
  return ⟨message, number⟩

/--
The summary and the description of an entry: the last description counts, and the last summary of
one replaces the attribute.
-/
def Entry.readTexts (element : Element) : Option String × Option Description :=
  (element.childrenNamed "description").foldl (fun (summary, _) child =>
    let description := Description.ofElement child
    (description.summary.or summary, some description)) (element.attr? "summary", none)

def Entry.ofElement (element : Element) : Except Entry.Fault Entry := do
  let some name := element.attr? "name" | throw .missingName
  let some text := element.attr? "value" | throw .missingValue
  let some value := Numeral.literal? text | throw (.invalidValue text)
  let since ← (readSince element).mapError .since
  let deprecatedSince ← (readDeprecatedSince element).mapError .deprecatedSince
  let (summary, description) := Entry.readTexts element
  return ⟨name, value, since, deprecatedSince, summary, description⟩

structure Enumeration.Draft where
  description : Option Description
  entries : Table.Draft Entry

def Enumeration.Draft.addChild (draft : Enumeration.Draft) (child : Element) :
    Except Enumeration.Fault Enumeration.Draft :=
  match child.name with
  | "description" => .ok { draft with description := some (Description.ofElement child) }
  | "entry" =>
    match Entry.ofElement child with
    | .error fault => .error (.entry (displayName child) fault)
    | .ok entry =>
      if draft.entries.contains entry.name then
        .error (.duplicateEntry entry.name)
      else
        .ok { draft with entries := draft.entries.add entry.name entry }
  | name => .error (.unexpectedElement name)

/--
Check that the values fit: the flags of a bitfield into 32 bits, and the values of any other
enumeration into a 32-bit integer type, signed or unsigned.
-/
def Enumeration.checkRange (enum : Enumeration) : Except Enumeration.Fault Unit :=
  if enum.bitfield then
    match enum.flags.find? (32 ≤ ·.1) with
    | some (bit, entry) => .error (.bitOutOfRange entry.name bit)
    | none => .ok ()
  else if enum.isSigned || enum.isUnsigned then
    .ok ()
  else
    .error .valueRange

def Enumeration.ofElement (element : Element) : Except Enumeration.Fault Enumeration := do
  let some name := element.attr? "name" | throw .missingName
  let since ← (readSince element).mapError .since
  let some bitfield := boolAttr? element "bitfield" | throw .bitfield
  let draft ← element.children.foldlM Enumeration.Draft.addChild ⟨none, .empty⟩
  let enum : Enumeration := ⟨name, since, bitfield, draft.description, draft.entries.toTable⟩
  enum.checkRange
  return enum

structure Interface.Draft where
  description : Option Description
  requests : Table.Draft Request
  events : Table.Draft Event
  enums : Table.Draft Enumeration

namespace Interface.Draft

def empty : Interface.Draft :=
  ⟨none, .empty, .empty, .empty⟩

/--
Add a request. Its opcode, the number of requests before it, has to fit into 16 bits.
-/
def addRequest (id : InterfaceId) (draft : Interface.Draft) (child : Element) :
    Except Interface.Fault Interface.Draft :=
  let index := draft.requests.size
  if index < UInt16.size then
    match Request.ofElement child (UInt16.ofNat index) ⟨id, .request, index⟩ with
    | .error fault => .error (.request (Waybind.displayName child) fault)
    | .ok request =>
      if draft.requests.contains request.name then
        .error (.duplicateRequest request.name)
      else
        .ok { draft with requests := draft.requests.add request.name request }
  else
    .error .tooManyMessages

/--
Add an event. Its number, which counts from one, has to fit into 16 bits.
-/
def addEvent (id : InterfaceId) (draft : Interface.Draft) (child : Element) :
    Except Interface.Fault Interface.Draft :=
  let index := draft.events.size
  if index + 1 < UInt16.size then
    match Event.ofElement child (UInt16.ofNat (index + 1)) ⟨id, .event, index⟩ with
    | .error fault => .error (.event (Waybind.displayName child) fault)
    | .ok event =>
      if draft.events.contains event.name then
        .error (.duplicateEvent event.name)
      else
        .ok { draft with events := draft.events.add event.name event }
  else
    .error .tooManyMessages

def addEnum (draft : Interface.Draft) (child : Element) :
    Except Interface.Fault Interface.Draft :=
  match Enumeration.ofElement child with
  | .error fault => .error (.enum (Waybind.displayName child) fault)
  | .ok enum =>
    if draft.enums.contains enum.name then
      .error (.duplicateEnum enum.name)
    else
      .ok { draft with enums := draft.enums.add enum.name enum }

def addChild (id : InterfaceId) (draft : Interface.Draft) (child : Element) :
    Except Interface.Fault Interface.Draft :=
  match child.name with
  | "description" => .ok { draft with description := some (Description.ofElement child) }
  | "request" => draft.addRequest id child
  | "event" => draft.addEvent id child
  | "enum" => draft.addEnum child
  | name => .error (.unexpectedElement name)

end Interface.Draft

def Interface.readName (element : Element) : Except Interface.Fault (String × String) :=
  match element.attr? "name" with
  | none => .error .missingName
  | some declared =>
    match splitName? declared with
    | none => .error (.invalidName declared)
    | some (family, name) =>
      if family.isEmpty || name.isEmpty then
        .error (.invalidName declared)
      else
        .ok (family, name)

def Interface.readVersion (element : Element) : Except Interface.Fault UInt32 :=
  match element.attr? "version" with
  | none => .error .missingVersion
  | some text =>
    match Numeral.signed Numeral.maxInt64 text with
    | .error fault => .error (.version fault)
    | .ok version =>
      if version ≤ 0 then
        .error (.nonPositiveVersion version)
      else if version ≤ Numeral.maxUInt32 then
        .ok (UInt32.ofNat version.toNat)
      else
        .error (.versionRange version)

def Interface.ofElement (element : Element) (id : InterfaceId) :
    Except Interface.Fault Interface := do
  let (family, name) ← Interface.readName element
  let version ← Interface.readVersion element
  let draft ← element.children.foldlM (Interface.Draft.addChild id) .empty
  return ⟨id, family, name, version, draft.description, draft.requests.toTable,
    draft.events.toTable, draft.enums.toTable⟩

structure Protocol.Draft where
  copyright : Option String
  description : Option Description
  interfaces : Table.Draft Interface

def Protocol.Draft.addChild (id : Nat) (draft : Protocol.Draft) (child : Element) :
    Except Protocol.Fault Protocol.Draft :=
  match child.name with
  | "copyright" => .ok { draft with copyright := some child.text }
  | "description" => .ok { draft with description := some (Description.ofElement child) }
  | "interface" =>
    match Interface.ofElement child ⟨id, draft.interfaces.size⟩ with
    | .error fault => .error (.interface (Waybind.displayName child) fault)
    | .ok interface =>
      if draft.interfaces.contains interface.fullName then
        .error (.duplicateInterface interface.fullName)
      else
        .ok { draft with interfaces := draft.interfaces.add interface.fullName interface }
  | name => .error (.unexpectedElement name)

def Protocol.commonFamily (interfaces : Table Interface) : Except Protocol.Fault String :=
  match interfaces.values with
  | [] => .error .noInterfaces
  | first :: rest =>
    match rest.find? (·.family != first.family) with
    | some other => .error (.familyMismatch other.fullName other.family first.family)
    | none => .ok first.family

def Protocol.readContent (root : Element) (id : Nat) : Except Protocol.Fault Protocol := do
  let some name := root.attr? "name" | throw .missingName
  let draft ← root.children.foldlM (Protocol.Draft.addChild id) ⟨none, none, .empty⟩
  let interfaces := draft.interfaces.toTable
  let family ← Protocol.commonFamily interfaces
  return ⟨id, name, family, draft.copyright, draft.description, interfaces⟩

def Protocol.ofElement (root : Element) (id : Nat) : Except Protocol.Error Protocol :=
  if root.name = "protocol" then
    (Protocol.readContent root id).mapError (.protocol (displayName root))
  else
    .error (.unexpectedRoot root.name)

end Waybind
