import Waybind.Proofs.Registry.Reachable

/-!
This module contains what is written of a namespace if its bindings cannot be generated: the parts
before the interface that fails, each of them complete, and nothing else.
-/

namespace Waybind
namespace Bindings

open Lookup
open Registry (ofFamily)

inductive Part where
  | comment (protocol : Protocol)
  | interface (place : Place)

namespace Part

def write : Part → EmitM Unit
  | .comment protocol => do
    lookup (notice (.emitting protocol.name))
    Bindings.write (protocolComment protocol)
  | .interface place => writeInterface place

def text (registry : Registry) : Part → String
  | .comment protocol => protocolComment protocol
  | .interface place => (exec (writeInterface place) ⟨⟨registry, #[]⟩, ""⟩).2.text

end Part

def protocolParts (protocol : Protocol) : List Part :=
  .comment protocol :: (placesOf protocol).map .interface

def parts (registry : Registry) (family : String) : List Part :=
  (ofFamily registry.protocols family).flatMap protocolParts

section Runs

variable {registry : Registry} (hcoherent : registry.Coherent)

include hcoherent

end Runs

end Bindings
end Waybind
