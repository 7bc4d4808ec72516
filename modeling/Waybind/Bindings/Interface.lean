import Waybind.Bindings.Argument
import Waybind.Bindings.Enumeration

/-!
This module contains the bindings of interfaces: a handle type that holds the description of the
interface for the client, its enumerations, and unions of its events and requests.
-/

namespace Waybind
namespace Bindings

open Zig (Node Field Variant)

inductive Error where
  | interface (name : String) (cause : Lookup.Error)
  | arg (interface message arg : String) (cause : Lookup.Error)
deriving Repr, DecidableEq

def Error.messages : Error → List String
  | .interface name cause => [s!"Could not emit interface {name}", cause.message]
  | .arg owner message name cause =>
    [s!"Could not emit argument {name} of {owner}.{message}", cause.message]

def blame {α : Type} (error : Lookup.Error → Error) (lookup : LookupM Lookup.Error α) :
    LookupM Error α :=
  ExceptT.adapt error lookup

def argError (place : Place) (message : Message) (arg : Arg) (cause : Lookup.Error) : Error :=
  .arg place.interface.fullName message.name arg.name cause

def stringList (names : List String) : String :=
  "&.\x7b" ++ String.join (names.map fun name => "\"" ++ name ++ "\",") ++ "\x7d"

def signature (event : Event) : String :=
  "&.\x7b" ++ ", ".intercalate (event.args.map fun arg => "." ++ arg.type.name) ++ "\x7d,"

def signatures (events : List Event) : String :=
  "&.\x7b" ++ String.join (events.map signature) ++ "\x7d"

def metadata (interface : Interface) : Node :=
  let common := [
    ("name", "\"" ++ interface.fullName ++ "\""),
    ("version", toString interface.version.toNat)]
  let events :=
    if interface.events.isEmpty then []
    else [
      ("event_signatures", signatures interface.events.values),
      ("event_names", stringList interface.events.names)]
  let requests :=
    if interface.requests.isEmpty then []
    else [("request_names", stringList interface.requests.names)]
  .assignment "interface" (.init (some "Interface") (common ++ events ++ requests))

def payloadField (place : Place) (message : Message) (defaults : Bool) (arg : Arg) :
    LookupM Error Field := do
  let type ← blame (argError place message arg) (argType place arg .typed)
  return {
    name := arg.name
    type := type.render
    default := if defaults then argDefault? arg else none
    comment := arg.summary }

def messageVariant (place : Place) (defaults : Bool) (message : Message) :
    LookupM Error (Variant Node) := do
  let fields ← message.args.mapM (payloadField place message defaults)
  return {
    name := message.name
    payload := if fields.isEmpty then none else some (.struct none fields)
    doc := message.description.map (·.body) }

def decodedField (place : Place) (message : Message) (arg : Arg × Nat) :
    LookupM Error (String × String) := do
  let expr ← blame (argError place message arg.1) (decodeExpr place arg.1 arg.2)
  return (arg.1.name, expr)

def decodedEvent (place : Place) (event : Event) : LookupM Error String := do
  if event.args.isEmpty then
    return "Event." ++ Zig.ident event.name
  else
    let fields ← event.args.zipIdx.mapM (decodedField place event.toMessage)
    let payload := Node.init none fields
    return (Node.init (some "Event") [(event.name, payload.render)]).render

def decoderArm (place : Place) (event : Event) : LookupM Error (String × String) := do
  return (toString event.opcode.toNat, ← decodedEvent place event)

def decoder (place : Place) : LookupM Error Node := do
  let events := place.interface.events.values
  let arms ← events.mapM (decoderArm place)
  let args := if events.any (!·.args.isEmpty) then "args" else "_"
  return .function "from_args" [("opcode", "u16"), (args, "[]Argument")] "Event"
    (.ret (.switch "opcode" (arms ++ [("else", "unreachable")])))

def eventUnion (place : Place) : LookupM Error Node := do
  let variants ← place.interface.events.values.mapM fun event =>
    messageVariant place false event.toMessage
  return .assignment "Event" (.union variants [← decoder place])

def requestVariant (place : Place) (request : Request) :
    LookupM Error (Variant Node × (String × String)) := do
  let variant ← messageVariant place true request.toMessage
  let type ← blame (.interface place.interface.fullName) (returnType place request)
  return (variant, ("." ++ Zig.ident request.name, type.render))

def requestUnion (place : Place) : LookupM Error Node := do
  let requests ← place.interface.requests.values.mapM (requestVariant place)
  let returnTypes := Node.function "ReturnType" [("request", "std.meta.Tag(Request)")] "type"
    (.ret (.switch "request" (requests.map Prod.snd)))
  return .assignment "Request" (.union (requests.map Prod.fst) [returnTypes])

def eventUnion? (place : Place) : LookupM Error (Option Node) :=
  if place.interface.events.isEmpty then
    return none
  else
    some <$> eventUnion place

end Bindings
end Waybind
