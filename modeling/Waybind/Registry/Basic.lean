import Waybind.Protocol.OfElement

/-!
This module contains the registry of protocols: all protocols in the order of their registration,
grouped into namespaces by family. A namespace also comes into being when it is first asked for, so
that an empty one can stand before others.
-/

namespace Waybind

structure Namespace where
  family : String
  protocols : List Nat
deriving Repr, DecidableEq, Inhabited

/--
A registered protocol and its globals: the other families that were referenced from it, in the order
of the first reference.
-/
structure Member where
  protocol : Protocol
  globals : List String
deriving Repr, DecidableEq, Inhabited

structure Registry where
  members : List Member
  namespaces : Table Namespace
deriving Repr, DecidableEq, Inhabited

namespace Registry

def empty : Registry :=
  ⟨[], .empty⟩

def protocols (registry : Registry) : List Protocol :=
  registry.members.map (·.protocol)

def protocol? (registry : Registry) (id : Nat) : Option Protocol :=
  (registry.members[id]?).map (·.protocol)

def interface? (registry : Registry) (id : InterfaceId) : Option Interface := do
  let protocol ← registry.protocol? id.protocol
  protocol.interfaces.at? id.index

def message? (registry : Registry) (id : MessageId) : Option Message := do
  let interface ← registry.interface? id.interface
  interface.message? id.kind id.index

def globals (registry : Registry) (id : Nat) : List String :=
  ((registry.members[id]?).map (·.globals)).getD []

def namespaceOf (registry : Registry) (family : String) : Namespace :=
  (registry.namespaces.get? family).getD ⟨family, []⟩

def touch (registry : Registry) (family : String) : Registry :=
  match registry.namespaces.get? family with
  | some _ => registry
  | none =>
    { registry with
      namespaces := ⟨registry.namespaces.entries ++ [(family, ⟨family, []⟩)]⟩ }

def enroll (registry : Registry) (family : String) (id : Nat) : Registry :=
  let registry := registry.touch family
  let entries := registry.namespaces.entries.map fun (key, space) =>
    if key == family then
      (key, { space with protocols := space.protocols ++ [id] })
    else
      (key, space)
  { registry with namespaces := ⟨entries⟩ }

def register (registry : Registry) (protocol : Protocol) : Registry :=
  let registry := registry.enroll protocol.family protocol.id
  { registry with members := registry.members ++ [⟨protocol, []⟩] }

def add (registry : Registry) (root : Xml.Element) :
    Except Protocol.Error (Protocol × Registry) := do
  let protocol ← Protocol.ofElement root registry.members.length
  return (protocol, registry.register protocol)

def protocolsOf (registry : Registry) (family : String) : List Protocol :=
  (registry.namespaceOf family).protocols.filterMap registry.protocol?

def families (registry : Registry) : List String :=
  (registry.namespaces.values.filter (!·.protocols.isEmpty)).map (·.family)

def appendNew (families : List String) (family : String) : List String :=
  if families.contains family then families else families ++ [family]

def globalsOf (registry : Registry) (family : String) : List String :=
  ((registry.namespaceOf family).protocols.flatMap registry.globals).foldl appendNew []

def recordGlobal (registry : Registry) (id : Nat) (family : String) : Registry :=
  { registry with
    members := registry.members.modify id fun member =>
      { member with globals := appendNew member.globals family } }

end Registry
end Waybind
