import Waybind.Notice
import Waybind.Registry.Basic

/-!
This module contains the lookups of interfaces and enumerations across protocols and namespaces. A
lookup leaves traces in the registry, also if it fails: the namespace that it looked into, and a
foreign family that it found something in.
-/

namespace Waybind
namespace Lookup

inductive Error where
  | malformedInterfaceName (name : String)
  | unknownInterface (family name : String)
  | unknownEnum (interface name : String)
  | malformedEnumReference (name : String)
deriving Repr, DecidableEq

def Error.message : Error → String
  | .malformedInterfaceName name => s!"Interface name {name} does not contain a prefix"
  | .unknownInterface family name =>
    s!"No protocol in namespace {family} contains interface {name}"
  | .unknownEnum interface name => s!"Interface {interface} does not contain enum {name}"
  | .malformedEnumReference name =>
    s!"Enum reference {name} is neither of the form enum nor interface.enum"

structure State where
  registry : Registry
  notices : Array Notice

end Lookup

/--
Computations that look things up. The state is kept if they fail.
-/
abbrev LookupM (ε : Type) : Type → Type :=
  ExceptT ε (StateM Lookup.State)

structure Place where
  protocol : Protocol
  interface : Interface
deriving Repr, DecidableEq, Inhabited

namespace Lookup

def notice {ε : Type} (notice : Notice) : LookupM ε Unit :=
  modify fun state => { state with notices := state.notices.push notice }

def openNamespace {ε : Type} (family : String) : LookupM ε Namespace :=
  modifyGet fun state =>
    (state.registry.namespaceOf family, { state with registry := state.registry.touch family })

def namespaceGlobals {ε : Type} (family : String) : LookupM ε (List String) := do
  let _ ← openNamespace family
  return (← get).registry.globalsOf family

def recordReference {ε : Type} (current : Protocol) (family : String) : LookupM ε Unit := do
  if family != current.family && !((← get).registry.globals current.id).contains family then
    modify fun state => { state with registry := state.registry.recordGlobal current.id family }
    notice (.references current.name family)

/--
The interface with a name in the first of some protocols that declares it, and the name of that
protocol.
-/
def findDeclared? (protocols : List Protocol) (name : String) : Option (String × Interface) :=
  protocols.findSome? fun protocol => do
    let interface ← protocol.interfaces.get? name
    return (protocol.name, interface)

def findInNamespace (current : Protocol) (family name : String) : LookupM Error Interface := do
  let _ ← openNamespace family
  match findDeclared? ((← get).registry.protocolsOf family) name with
  | none => throw (.unknownInterface family name)
  | some (owner, interface) =>
    notice (.resolved name current.name owner)
    recordReference current family
    return interface

/--
Find the interface that a declared name refers to in a protocol: one of the protocol itself, or else
one in the namespace of the family in the name.
-/
def findInterface (current : Protocol) (name : String) : LookupM Error Interface :=
  match current.interfaces.get? name with
  | some interface => return interface
  | none =>
    match splitName? name with
    | none => throw (.malformedInterfaceName name)
    | some (family, _) =>
      if family.isEmpty then
        throw (.malformedInterfaceName name)
      else
        findInNamespace current family name

def enumOf (owner : Interface) (name : String) : LookupM Error (Interface × Enumeration) :=
  match owner.enums.get? name with
  | some enum => return (owner, enum)
  | none => throw (.unknownEnum owner.fullName name)

/--
Find the enumeration that `enum` or `interface.enum` refers to at a place, and the interface that
has it.
-/
def findEnum (place : Place) (name : String) : LookupM Error (Interface × Enumeration) :=
  match Text.pieces (· == '.') name.toList with
  | [enum] => enumOf place.interface (String.ofList enum)
  | [interface, enum] => do
    let owner ← findInterface place.protocol (String.ofList interface)
    enumOf owner (String.ofList enum)
  | _ => throw (.malformedEnumReference name)

end Lookup
end Waybind
