import Waybind.Protocol.WireType
import Waybind.Table

/-!
This module contains protocols: interfaces with their requests, events and enumerations.
-/

namespace Waybind

/--
The place of an interface: the number of its protocol and its position there.
-/
structure InterfaceId where
  protocol : Nat
  index : Nat
deriving Repr, DecidableEq, Inhabited

inductive MessageKind where
  | request
  | event
deriving Repr, DecidableEq, Inhabited

/--
The place of a message: its interface and its position among the messages of its kind.
-/
structure MessageId where
  interface : InterfaceId
  kind : MessageKind
  index : Nat
deriving Repr, DecidableEq, Inhabited

structure Description where
  summary : Option String
  body : String
deriving Repr, DecidableEq, Inhabited

/--
An argument of the message `parent`. The interface or enumeration that it refers to is kept as it is
written.
-/
structure Arg where
  parent : MessageId
  name : String
  type : WireType
  interface : Option String
  enum : Option String
  allowNull : Bool
  summary : Option String
deriving Repr, DecidableEq, Inhabited

structure Message where
  name : String
  since : UInt32
  deprecatedSince : Option UInt32
  description : Option Description
  args : List Arg
deriving Repr, DecidableEq, Inhabited

inductive RequestKind where
  | normal
  | destructor
  | constructor
deriving Repr, DecidableEq, Inhabited

structure Request extends Message where
  opcode : UInt16
  kind : RequestKind
deriving Repr, DecidableEq, Inhabited

/--
An event. Its number counts from one.
-/
structure Event extends Message where
  number : UInt16
deriving Repr, DecidableEq, Inhabited

structure Entry where
  name : String
  value : Int
  since : UInt32
  deprecatedSince : Option UInt32
  summary : Option String
  description : Option Description
deriving Repr, DecidableEq, Inhabited

structure Enumeration where
  name : String
  since : UInt32
  bitfield : Bool
  description : Option Description
  entries : Table Entry
deriving Repr, DecidableEq, Inhabited

/--
An interface. Its declared name is its family and its own name with an underscore between them.
-/
structure Interface where
  id : InterfaceId
  family : String
  name : String
  version : UInt32
  description : Option Description
  requests : Table Request
  events : Table Event
  enums : Table Enumeration
deriving Repr, DecidableEq, Inhabited

structure Protocol where
  id : Nat
  name : String
  family : String
  copyright : Option String
  description : Option Description
  interfaces : Table Interface
deriving Repr, DecidableEq, Inhabited

def splitName? (name : String) : Option (String × String) :=
  match name.toList.dropWhile (· != '_') with
  | [] => none
  | _ :: rest => some (String.ofList (name.toList.takeWhile (· != '_')), String.ofList rest)

namespace Interface

def fullName (interface : Interface) : String :=
  interface.family ++ "_" ++ interface.name

def message? (interface : Interface) (kind : MessageKind) (index : Nat) : Option Message :=
  match kind with
  | .request => (interface.requests.at? index).map (·.toMessage)
  | .event => (interface.events.at? index).map (·.toMessage)

def messageName? (interface : Interface) (kind : MessageKind) (index : Nat) : Option String :=
  match kind with
  | .request => interface.requests.nameAt? index
  | .event => interface.events.nameAt? index

end Interface

def Request.createdInterface? (request : Request) : Option String :=
  (request.args.filter (·.type == .newId)).findSome? (·.interface)

def Event.opcode (event : Event) : UInt16 :=
  event.number - 1

def Entry.singleBit? (entry : Entry) : Option Nat :=
  let n := entry.value.toNat
  if n = 1 <<< n.log2 then some n.log2 else none

namespace Enumeration

/--
Put an entry on a bit of its own, in ascending order of bits, unless the bit is taken.
-/
def addFlag (bit : Nat) (entry : Entry) (flags : List (Nat × Entry)) : List (Nat × Entry) :=
  match flags with
  | [] => [(bit, entry)]
  | flag :: flags =>
    if bit < flag.1 then (bit, entry) :: flag :: flags
    else if bit = flag.1 then flag :: flags
    else flag :: addFlag bit entry flags

/--
The entries that have a bit of their own, in ascending order of bits. Of several entries for one bit
the first one has it.
-/
def flags (enum : Enumeration) : List (Nat × Entry) :=
  enum.entries.values.foldl (fun flags entry =>
    match entry.singleBit? with
    | some bit => addFlag bit entry flags
    | none => flags) []

def isSigned (enum : Enumeration) : Bool :=
  enum.entries.values.all fun entry => -0x80000000 ≤ entry.value && entry.value ≤ 0x7FFFFFFF

def isUnsigned (enum : Enumeration) : Bool :=
  enum.entries.values.all fun entry => 0 ≤ entry.value && entry.value ≤ 0xFFFFFFFF

end Enumeration
end Waybind
